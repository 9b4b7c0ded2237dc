import EventScript.Proofs.Grammar.Local
import EventScript.Proofs.Recovery.Order
import Mathlib.Data.List.TakeWhile

/-!
# Complaints, one segment at a time

The tokens of a source text are cut into segments, each of which starts like a declaration. A
segment is read alone where the other tokens are taken away. What is complained about in the whole
text is what is complained about in the segments alone, as long as no mistake is noticed only at the
end of its segment: what has been read by then does not depend on what stands behind, and recovery
stops at the start of the next segment, if not before.

The condition is needed: an operand or an argument goes on until its parentheses are closed, and the
value of a case until a colon, so that one which is not closed runs into the segments behind.

Recovery stops at any token that can start a declaration, be it in the middle of a body, so a
segment may be complained about more than once.

Results:
* `errors_append`: complaints about a segment, and about what stands behind it;
* `reported_of_segments`: complaints about a source text, segment by segment.
-/

namespace EventScript

namespace Reader

variable {stop : Token} {s s' : ReadState} {a : Statement} {e : Located SyntaxError}
variable {P Q : List Token → Prop} {rest : List Token}

/-! ## Where declarations fail -/

/-- Wherever a declaration fails, `P` holds of the tokens that are ahead then. -/
inductive WhereFails (P : List Token → Prop) (stop : Token) : ReadState → Prop
  | done {s : ReadState} (h : s.ahead = []) : WhereFails P stop s
  | read {s s' : ReadState} {a : Statement} (hne : s.ahead ≠ [])
      (h : Gives declaration stop s a s') (later : WhereFails P stop s') : WhereFails P stop s
  | failed {s s' : ReadState} {e : Located SyntaxError} (hne : s.ahead ≠ [])
      (h : Fails declaration stop s e s') (hP : P s'.ahead)
      (later : WhereFails P stop (recover s')) : WhereFails P stop s

/-- A declaration that fails does so in front of some token. -/
abbrev Contained (stop : Token) (s : ReadState) : Prop :=
  WhereFails (· ≠ []) stop s

/-- Where a declaration fails, no other can start. -/
abbrev FailsLast (stop : Token) (s : ReadState) : Prop :=
  WhereFails (fun ahead => ∀ t ∈ ahead, t.kind.startsTopLevel = false) stop s

theorem WhereFails.imp (h : WhereFails P stop s) (himp : ∀ ahead, P ahead → Q ahead) :
    WhereFails Q stop s := by
  induction h with
  | done hnil => exact .done hnil
  | read hne hrun _ ih => exact .read hne hrun ih
  | failed hne hrun hP _ ih => exact .failed hne hrun (himp _ hP) ih

theorem whereFails_of_forall (h : ∀ ahead, P ahead) (stop : Token) (s : ReadState) :
    WhereFails P stop s := by
  induction s using turns_induction stop with
  | done s hnil => exact .done hnil
  | read s a s' hne hgives ih => exact .read hne hgives ih
  | failed s e s' hne hfails ih => exact .failed hne hfails (h _) ih

/-- If no declaration can start behind one that fails, no more than one complaint is made. -/
theorem length_errors_of_failsLast (h : FailsLast stop s) :
    (declarations stop s).1.errors.length ≤ 1 := by
  induction h with
  | done hnil => simp [errors_nil hnil]
  | read hne hrun _ ih => rwa [errors_of_gives hne hrun]
  | @failed s s' e hne hrun hlast _ _ =>
    have hnil : (recover s').ahead = [] := by
      refine List.dropWhile_eq_nil_iff.mpr fun t ht => ?_
      rw [hlast t ht]
      rfl
    rw [errors_of_fails hne hrun, errors_nil hnil]
    exact Nat.le_refl _

/-- What fails in front of a token is blamed on a token. -/
theorem span_of_contained (hs : s.Ended stop) (h : Contained stop s) :
    ∀ e ∈ (declarations stop s).1.errors, e.span ∈ s.ahead.map Token.span := by
  induction h with
  | done hnil =>
    rw [errors_nil hnil]
    exact fun _ he => absurd he List.not_mem_nil
  | @read s s' a hne hrun _ ih =>
    have hsuffix := keeps_declaration.suffix_of_ok hrun
    rw [errors_of_gives hne hrun]
    exact fun e he => List.map_subset _ hsuffix.subset (ih (hs.suffix hsuffix) e he)
  | @failed s s' e hne hrun hnext _ ih =>
    have hsuffix := keeps_declaration.suffix_of_error hrun
    rw [errors_of_fails hne hrun]
    refine List.forall_mem_cons.mpr ⟨?_, fun e' he' => ?_⟩
    · obtain ⟨u, more, hu⟩ := List.exists_cons_of_ne_nil hnext
      obtain ⟨taken, htaken, hspan⟩ := span_of_fails hs hrun hu
      rw [htaken]
      refine List.map_subset _ (fun t ht => ?_) hspan
      rw [List.append_cons]
      exact List.mem_append_left _ ht
    · have hlater := (suffix_recover s').trans hsuffix
      exact List.map_subset _ hlater.subset (ih (hs.suffix hlater) e' he')

/-! ## What stands behind a segment -/

/-- A declaration that is read is read as well in front of more tokens, and from any session. -/
theorem gives_append (hs : s.Ended stop) (hrun : Gives declaration stop s a s') {s₁ : ReadState}
    (hs₁ : s₁.Ended stop) (hahead : s₁.ahead = s.ahead ++ rest) :
    ∃ b s₁', Gives declaration stop s₁ b s₁' ∧ s₁'.ahead = s'.ahead ++ rest := by
  have hderives := (fits_declaration (P := Any) (F := Any) (n := 0)).sound hs trivial hrun
  obtain ⟨taken, htaken, -, hlocal⟩ := Grammar.local_declaration hderives
  have hlonger := hlocal (s'.ahead ++ rest)
  rw [← List.append_assoc, ← htaken] at hlonger
  let longer : ReadState := { s with ahead := s.ahead ++ rest }
  have hended : longer.Ended stop := ⟨hs.stop, fun t ht => hs₁.ahead t (hahead ▸ ht)⟩
  have hgives := (fits_declaration (P := Any) (F := Any)).complete hended trivial (Nat.le_refl _)
    hlonger trivial
  -- the session is another one, but nothing stands behind the tokens that the readings share
  let r : Readings := ⟨stop, stop, [], False, hs.stop⟩
  have hbeside : r.Beside longer s₁ := ⟨by rw [hahead, List.append_nil], hended.ahead, False.elim⟩
  obtain ⟨b, s₁', hgives', hbeside'⟩ := (Readings.blind_declaration (r := r)).gives_right hbeside
    (.inr ⟨rfl, rfl⟩) (Nat.le_refl _) hgives (.inr ⟨rfl, rfl⟩)
  exact ⟨b, s₁', hgives', by rw [hbeside'.ahead, List.append_nil]⟩

/-- Recovery stops in front of more tokens if the first of them can start a declaration. -/
theorem recover_append (hahead : s'.ahead = s.ahead ++ rest)
    (hrest : ∀ t later, rest = t :: later → t.kind.startsTopLevel = true) :
    (recover s').ahead = (recover s).ahead ++ rest := by
  have hstop : rest.dropWhile (fun t => !t.kind.startsTopLevel) = rest := by
    cases rest with
    | nil => rfl
    | cons t later => exact List.dropWhile_cons_of_neg (by rw [hrest t later rfl]; simp)
  change s'.ahead.dropWhile _ = s.ahead.dropWhile _ ++ rest
  rw [hahead, List.dropWhile_append]
  split
  · next hnil => rw [hstop, List.isEmpty_iff.mp hnil, List.nil_append]
  · rfl

/-- **What stands behind a segment does not matter to it.** The complaints about the segment alone
come first. Behind them come those about the rest, which is read as well. -/
theorem errors_append (hs : s.Ended stop)
    (hcontained : WhereFails (fun ahead => ahead ≠ [] ∨ rest = []) stop s)
    (hrest : ∀ t later, rest = t :: later → t.kind.startsTopLevel = true) {s₁ : ReadState}
    (hs₁ : s₁.Ended stop) (hahead : s₁.ahead = s.ahead ++ rest) :
    ∃ behind : ReadState, behind.ahead = rest ∧
      (declarations stop s₁).1.errors =
        (declarations stop s).1.errors ++ (declarations stop behind).1.errors := by
  have hlonger {s s₁ : ReadState} (hne : s.ahead ≠ []) (hahead : s₁.ahead = s.ahead ++ rest) :
      s₁.ahead ≠ [] := by
    rw [hahead]
    exact List.append_ne_nil_of_left_ne_nil hne _
  induction hcontained generalizing s₁ with
  | done hnil =>
    rw [hnil] at hahead
    exact ⟨s₁, hahead, by rw [errors_nil hnil, List.nil_append]⟩
  | @read s s' a hne hrun _ ih =>
    obtain ⟨b, s₁', hrun₁, hahead₁⟩ := gives_append hs hrun hs₁ hahead
    have hsuffix := keeps_declaration.suffix_of_ok hrun
    have hsuffix₁ := keeps_declaration.suffix_of_ok hrun₁
    obtain ⟨behind, hbehind, herrors⟩ := ih (hs.suffix hsuffix) (hs₁.suffix hsuffix₁) hahead₁
    refine ⟨behind, hbehind, ?_⟩
    rw [errors_of_gives (hlonger hne hahead) hrun₁, errors_of_gives hne hrun, herrors]
  | @failed s s' e hne hrun hnext _ ih =>
    let r : Readings := ⟨stop, stop, rest, False, hs.stop⟩
    have hbeside : r.Beside s s₁ := ⟨hahead, hs.ahead, False.elim⟩
    have hhidden : r.Hidden s' := hnext.imp_right fun hnil => ⟨hnil, rfl⟩
    obtain ⟨s₁', hrun₁, hbeside₁⟩ := (Readings.blind_declaration (r := r)).fails_right hbeside
      (.inl hne) (Nat.le_refl _) hrun hhidden
    have hahead₁ := recover_append hbeside₁.ahead hrest
    have hsuffix := (suffix_recover s').trans (keeps_declaration.suffix_of_error hrun)
    have hsuffix₁ := (suffix_recover s₁').trans (keeps_declaration.suffix_of_error hrun₁)
    obtain ⟨behind, hbehind, herrors⟩ := ih (hs.suffix hsuffix) (hs₁.suffix hsuffix₁) hahead₁
    refine ⟨behind, hbehind, ?_⟩
    rw [errors_of_fails (hlonger hne hahead) hrun₁, errors_of_fails hne hrun, herrors,
      List.cons_append]

/-! ## All segments -/

/-- The complaints about a segment that is read alone, in front of the end token `stop`. -/
def errorsAlone (stop : Token) (session : Session) (segment : List Token) :
    List (Located SyntaxError) :=
  match (Program.ofLexed ⟨segment, stop⟩ session).1 with
  | .ok _ => []
  | .error es => es

theorem errorsAlone_eq {segment : List Token} (h : ∀ t ∈ segment, t.kind.isTrivia = false)
    (stop : Token) (session : Session) :
    errorsAlone stop session segment = (declarations stop ⟨segment, session, []⟩).1.errors ∧
      (errorsAlone stop session segment = [] ↔
        ∃ p, (Program.ofLexed ⟨segment, stop⟩ session).1 = .ok p) := by
  have hmeaningful : Lexed.meaningful ⟨segment, stop⟩ = segment :=
    List.filter_eq_self.mpr fun t ht => by rw [h t ht]; rfl
  unfold errorsAlone Program.ofLexed
  rw [hmeaningful]
  dsimp only
  by_cases hnone : (declarations stop ⟨segment, session, []⟩).1.errors = []
  · rw [if_pos (List.isEmpty_iff.mpr hnone)]
    exact ⟨hnone.symm, fun _ => ⟨_, rfl⟩, fun _ => rfl⟩
  · rw [if_neg fun hempty => hnone (List.isEmpty_iff.mp hempty)]
    exact ⟨rfl, fun hnil => absurd hnil hnone, fun ⟨_, hok⟩ => nomatch hok⟩

/-- Segment by segment, as if each was alone. -/
theorem errors_flatten {segments : List (List Token)} (session : Session)
    (hstarts : ∀ segment ∈ segments, ∃ t later, segment = t :: later ∧
      t.kind.startsTopLevel = true)
    (hcontained : ∀ segment ∈ segments.dropLast, Contained stop ⟨segment, session, []⟩)
    (hs : s.Ended stop) (hahead : s.ahead = segments.flatten) :
    (declarations stop s).1.errors =
      segments.flatMap fun segment => (declarations stop ⟨segment, session, []⟩).1.errors := by
  induction segments generalizing s with
  | nil => exact errors_nil hahead
  | cons segment segments ih =>
    have hrest : ∀ t later, segments.flatten = t :: later → t.kind.startsTopLevel = true := by
      cases segments with
      | nil => exact fun _ _ h => nomatch h
      | cons next _ =>
        intro t later hcons
        obtain ⟨u, behind, rfl, hu⟩ := hstarts next (by simp)
        obtain ⟨rfl, -⟩ := List.cons.inj hcons
        exact hu
    have hfirst : WhereFails (fun ahead => ahead ≠ [] ∨ segments.flatten = []) stop
        ⟨segment, session, []⟩ := by
      cases segments with
      | nil => exact whereFails_of_forall (fun _ => .inr rfl) _ _
      | cons next later => exact (hcontained segment (by simp)).imp fun _ => .inl
    have halone : ReadState.Ended ⟨segment, session, []⟩ stop :=
      ⟨hs.stop, fun t ht => hs.ahead t (by rw [hahead]; exact List.mem_append_left _ ht)⟩
    obtain ⟨behind, hbehind, herrors⟩ := errors_append halone hfirst hrest hs hahead
    have hended : behind.Ended stop :=
      hs.suffix (by rw [hbehind, hahead]; exact List.suffix_append _ _)
    have hlater := ih (fun seg hseg => hstarts seg (List.mem_cons_of_mem _ hseg))
      (fun seg hseg => hcontained seg ?_) hended hbehind
    · rw [herrors, hlater, List.flatMap_cons]
    · cases segments with
      | nil => exact absurd hseg List.not_mem_nil
      | cons next later => exact List.mem_cons_of_mem _ hseg

/-- What is complained about in a segment. -/
structure ReportedAlone (stop : Token) (session : Session) (segment : List Token) : Prop where
  none : errorsAlone stop session segment = [] ↔
    ∃ p, (Program.ofLexed ⟨segment, stop⟩ session).1 = .ok p
  /-- A complaint is about a token of the segment, or about the end token. -/
  located : ∀ e ∈ errorsAlone stop session segment,
    e.span ∈ (segment ++ [stop]).map Token.span
  inside : Contained stop ⟨segment, session, []⟩ →
    ∀ e ∈ errorsAlone stop session segment, e.span ∈ segment.map Token.span
  once : FailsLast stop ⟨segment, session, []⟩ →
    (errorsAlone stop session segment).length ≤ 1

theorem reportedAlone {segment : List Token} (h : ∀ t ∈ segment, t.kind.isTrivia = false)
    (session : Session) (hs : ReadState.Ended ⟨segment, session, []⟩ stop) :
    ReportedAlone stop session segment := by
  have hfound : ∀ e ∈ (declarations stop ⟨segment, session, []⟩).1.errors,
      Covered segment stop e.span :=
    (blames_declarationsWithin hs.stop hs.ahead segment.length List.suffix_rfl).1
  obtain ⟨heq, hnone⟩ := errorsAlone_eq h stop session
  exact ⟨hnone, heq ▸ hfound, heq ▸ span_of_contained hs, heq ▸ length_errors_of_failsLast⟩

end Reader

/-- What reading complains about. -/
def complaints (src : String) (session : Session) : List Diagnostic :=
  match (readProgram src session).outcome with
  | .error (.diagnostics ds) => ds
  | _ => []

theorem complaints_eq (src : String) (session : Session) : complaints src session =
    (Reader.declarations (lex src).stop ⟨(lex src).meaningful, session, []⟩).1.errors.map
      .reading := by
  unfold complaints
  rw [(outcome_readProgram src session).1]
  split
  · next herror =>
    split at herror
    · exact nomatch herror
    · exact (Failure.diagnostics.inj (Except.error.inj herror)).symm
  · next hother =>
    split at hother
    · next hnone => rw [List.isEmpty_iff.mp hnone]; rfl
    · exact absurd rfl (hother _)

/-- **Segments are complained about one by one**: what is wrong with a source text is what is wrong
with each of its segments alone, in their order. Only the last one may be read to its end without
success. -/
theorem reported_of_segments {src : String} (session : Session) {session' : Session}
    {segments : List (List Token)} (hsegments : (lex src).meaningful = segments.flatten)
    (hstarts : ∀ segment ∈ segments, ∃ t later, segment = t :: later ∧
      t.kind.startsTopLevel = true)
    (hcontained : ∀ segment ∈ segments.dropLast,
      Reader.Contained (lex src).stop ⟨segment, session', []⟩) :
    complaints src session =
        (segments.flatMap (Reader.errorsAlone (lex src).stop session')).map .reading ∧
      ∀ segment ∈ segments, Reader.ReportedAlone (lex src).stop session' segment := by
  obtain ⟨hstop, hend⟩ := Lexer.ended_lex src
  have hs : ReadState.Ended ⟨(lex src).meaningful, session, []⟩ (lex src).stop := ⟨hstop, hend⟩
  have hmem {segment : List Token} (hsegment : segment ∈ segments) {t : Token}
      (ht : t ∈ segment) : t ∈ (lex src).meaningful := by
    rw [hsegments]
    exact List.mem_flatten_of_mem hsegment ht
  have hplain {segment : List Token} (hsegment : segment ∈ segments) :
      ∀ t ∈ segment, t.kind.isTrivia = false := fun t ht => by
    simpa using (List.mem_filter.mp (hmem hsegment ht)).2
  refine ⟨?_, fun segment hsegment => Reader.reportedAlone (hplain hsegment) session'
    ⟨hstop, fun t ht => hend t (hmem hsegment ht)⟩⟩
  have hall := Reader.errors_flatten session' hstarts hcontained hs hsegments
  have halone : segments.flatMap (Reader.errorsAlone (lex src).stop session') =
      segments.flatMap fun segment =>
        (Reader.declarations (lex src).stop ⟨segment, session', []⟩).1.errors :=
    List.flatMap_congr fun segment hsegment =>
      (Reader.errorsAlone_eq (hplain hsegment) _ session').1
  rw [complaints_eq, halone, hall]

/-- The second of these scripts is broken, and the arguments in the third are not closed. -/
def threeScripts : String :=
  "script A \x7b a \x7d script B \x7b if \x7d script C \x7b c( \x7d"

def threeScriptsFirst : List Token :=
  [⟨.keyword .script, "script", 0, 1⟩, ⟨.identifier, "A", 7, 1⟩, ⟨.symbol .leftBrace, "\x7b", 9, 1⟩,
    ⟨.identifier, "a", 11, 1⟩, ⟨.symbol .rightBrace, "\x7d", 13, 1⟩]

def threeScriptsSecond : List Token :=
  [⟨.keyword .script, "script", 15, 1⟩, ⟨.identifier, "B", 22, 1⟩,
    ⟨.symbol .leftBrace, "\x7b", 24, 1⟩, ⟨.keyword .ifWord, "if", 26, 1⟩,
    ⟨.symbol .rightBrace, "\x7d", 29, 1⟩]

def threeScriptsThird : List Token :=
  [⟨.keyword .script, "script", 31, 1⟩, ⟨.identifier, "C", 38, 1⟩,
    ⟨.symbol .leftBrace, "\x7b", 40, 1⟩, ⟨.identifier, "c", 42, 1⟩,
    ⟨.symbol .leftParen, "(", 43, 1⟩, ⟨.symbol .rightBrace, "\x7d", 45, 1⟩]

theorem complaints_threeScripts :
    complaints threeScripts .fresh =
      [.reading ⟨⟨29, 1, 1⟩, .unexpected (.symbol .rightBrace) (.symbol .leftParen)⟩,
        .reading ⟨⟨42, 1, 1⟩, .unterminatedArguments "c"⟩] ∧
      ∀ segment ∈ [threeScriptsFirst, threeScriptsSecond, threeScriptsThird],
        Reader.ReportedAlone (lex threeScripts).stop .fresh segment := by
  have hsegments : (lex threeScripts).meaningful =
      [threeScriptsFirst, threeScriptsSecond, threeScriptsThird].flatten := by decide +kernel
  have hstarts : ∀ segment ∈ [threeScriptsFirst, threeScriptsSecond, threeScriptsThird],
      ∃ t later, segment = t :: later ∧ t.kind.startsTopLevel = true := by
    simp only [List.forall_mem_cons]
    exact ⟨⟨_, _, rfl, rfl⟩, ⟨_, _, rfl, rfl⟩, ⟨_, _, rfl, rfl⟩, List.forall_mem_nil _⟩
  have hfirst : Reader.Contained (lex threeScripts).stop ⟨threeScriptsFirst, .fresh, []⟩ :=
    .read (by decide) rfl (.done rfl)
  have hsecond : Reader.Contained (lex threeScripts).stop ⟨threeScriptsSecond, .fresh, []⟩ :=
    .failed (by decide) rfl (by decide) (.done rfl)
  have hcontained : ∀ segment ∈ [threeScriptsFirst, threeScriptsSecond, threeScriptsThird].dropLast,
      Reader.Contained (lex threeScripts).stop ⟨segment, .fresh, []⟩ :=
    List.forall_mem_cons.mpr ⟨hfirst, List.forall_mem_cons.mpr ⟨hsecond, List.forall_mem_nil _⟩⟩
  obtain ⟨hall, heach⟩ := reported_of_segments .fresh hsegments hstarts hcontained
  refine ⟨?_, heach⟩
  rw [hall]
  decide +kernel

/-! ## Scripts that are not complained about one by one -/

/-- The last token closes the outermost of the braces that are open, of which there are `depth` in
front, and no other token does. -/
def closesWith : Nat → List Token → Bool
  | _, [] => false
  | depth, t :: later =>
    match t.kind with
    | .symbol .leftBrace => closesWith (depth + 1) later
    | .symbol .rightBrace => if depth = 1 then later.isEmpty else closesWith (depth - 1) later
    | _ => closesWith depth later

/-- A script by its braces. -/
inductive ScriptSegment : List Token → Prop
  | intro {word name opening : Token} {inner : List Token} (hword : word.kind = .keyword .script)
      (hname : name.kind = .identifier) (hopening : opening.kind = .symbol .leftBrace)
      (hinner : closesWith 1 inner = true) : ScriptSegment (word :: name :: opening :: inner)

/-- Of each segment that does not read alone there is one complaint, placed in it, and of no
others. -/
def ComplainedOnce (src : String) (session : Session) (segments : List (List Token)) : Prop :=
  ∃ found : List (List Diagnostic), complaints src session = found.flatten ∧
    List.Forall₂ (fun segment ds =>
      ((∃ p, (Program.ofLexed ⟨segment, (lex src).stop⟩ session).1 = .ok p) → ds = []) ∧
        ((∃ es, (Program.ofLexed ⟨segment, (lex src).stop⟩ session).1 = .error es) →
          ∃ d, ds = [d] ∧ d.span ∈ segment.map Token.span)) segments found

/-- A word in the body that could start a declaration. -/
def textInBody : String :=
  "script A \x7b text \x7d"

/-- The value of a case runs on to the colon in the script behind. -/
def openCase : String :=
  "script A \x7b switch (var(X)) \x7b case 1 \x7d \x7d script B \x7b \x7b : \x7d \x7d"

/-- The segments of `textInBody`. -/
def textInBodySegments : List (List Token) :=
  [[⟨.keyword .script, "script", 0, 1⟩, ⟨.identifier, "A", 7, 1⟩,
    ⟨.symbol .leftBrace, "\x7b", 9, 1⟩, ⟨.keyword .text, "text", 11, 1⟩,
    ⟨.symbol .rightBrace, "\x7d", 16, 1⟩]]

/-- The first of the segments of `openCase`. -/
def openCaseFirst : List Token :=
  [⟨.keyword .script, "script", 0, 1⟩, ⟨.identifier, "A", 7, 1⟩, ⟨.symbol .leftBrace, "\x7b", 9, 1⟩,
    ⟨.keyword .switch, "switch", 11, 1⟩, ⟨.symbol .leftParen, "(", 18, 1⟩,
    ⟨.keyword .var, "var", 19, 1⟩, ⟨.symbol .leftParen, "(", 22, 1⟩, ⟨.identifier, "X", 23, 1⟩,
    ⟨.symbol .rightParen, ")", 24, 1⟩, ⟨.symbol .rightParen, ")", 25, 1⟩,
    ⟨.symbol .leftBrace, "\x7b", 27, 1⟩, ⟨.keyword .case, "case", 29, 1⟩, ⟨.number, "1", 34, 1⟩,
    ⟨.symbol .rightBrace, "\x7d", 36, 1⟩, ⟨.symbol .rightBrace, "\x7d", 38, 1⟩]

/-- The second of the segments of `openCase`. -/
def openCaseSecond : List Token :=
  [⟨.keyword .script, "script", 40, 1⟩, ⟨.identifier, "B", 47, 1⟩,
    ⟨.symbol .leftBrace, "\x7b", 49, 1⟩, ⟨.symbol .leftBrace, "\x7b", 51, 1⟩,
    ⟨.symbol .colon, ":", 53, 1⟩, ⟨.symbol .rightBrace, "\x7d", 55, 1⟩,
    ⟨.symbol .rightBrace, "\x7d", 57, 1⟩]

/-- Two complaints about one script, and none about two scripts neither of which reads alone. -/
theorem not_complainedOnce :
    (textInBodySegments.flatten = (lex textInBody).meaningful ∧
      (∀ segment ∈ textInBodySegments, ScriptSegment segment) ∧
        ¬ ComplainedOnce textInBody .fresh textInBodySegments) ∧
      [openCaseFirst, openCaseSecond].flatten = (lex openCase).meaningful ∧
        (∀ segment ∈ [openCaseFirst, openCaseSecond], ScriptSegment segment) ∧
          ¬ ComplainedOnce openCase .fresh [openCaseFirst, openCaseSecond] := by
  refine ⟨⟨by decide +kernel, ?_, ?_⟩, by decide +kernel, ?_, ?_⟩
  · exact List.forall_mem_cons.mpr ⟨.intro rfl rfl rfl rfl, List.forall_mem_nil _⟩
  · rintro ⟨found, hall, heach⟩
    have htwo : (complaints textInBody .fresh).length = 2 := by decide +kernel
    obtain ⟨ds, rest, hds, hrest, rfl⟩ := List.forall₂_cons_left_iff.mp heach
    obtain rfl := List.forall₂_nil_left_iff.mp hrest
    obtain ⟨d, rfl, -⟩ := hds.2 ⟨_, rfl⟩
    rw [hall] at htwo
    exact absurd htwo (by simp)
  · exact List.forall_mem_cons.mpr ⟨.intro rfl rfl rfl rfl,
      List.forall_mem_cons.mpr ⟨.intro rfl rfl rfl rfl, List.forall_mem_nil _⟩⟩
  · rintro ⟨found, hall, heach⟩
    have hnone : complaints openCase .fresh = [] := by decide +kernel
    have hfirst : (Program.ofLexed ⟨openCaseFirst, (lex openCase).stop⟩ .fresh).1 =
        .error [⟨⟨27, 1, 1⟩, .unterminatedBlock⟩] := by cbv
    obtain ⟨ds, rest, hds, -, rfl⟩ := List.forall₂_cons_left_iff.mp heach
    obtain ⟨d, rfl, -⟩ := hds.2 ⟨_, hfirst⟩
    rw [hall] at hnone
    exact List.cons_ne_nil _ _ hnone

end EventScript
