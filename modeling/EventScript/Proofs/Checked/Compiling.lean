import EventScript.Assembly.Text
import EventScript.Proofs.Checked.Declaration
import EventScript.Proofs.Checked.Lexing
import EventScript.Proofs.Checked.Outline
import EventScript.Proofs.Session.Fresh

/-!
# Compiling meets no fault

`Checked.parse` and `Checked.compile` are `parse` and `compile` as a machine runs them: tokens are
kept as spans of the source text, numbers have 32 bits, and where an operation has no answer the run
stops with a `Fault`. A text of fewer than 2^32 bytes and fewer than 2^32 - 1 line feeds is compiled
without one in any session that does not run out of numbers, whatever characters it has and however
malformed it is. What comes out is what `parse` and `compile` say.

Two texts show where that ends. One is of 2^32 - 1 line feeds, the last of which takes the count of
lines past 32 bits. The other nests its blocks so deep that the outline cannot be indented as far,
although the program is parsed and compiled.

Results:
* `Checked.parse_eq`, `Checked.carryOut_eq`: reading, and carrying out the steps of lowering;
* `never_faults`: all phases, and writing what they give;
* `faults_at_limits`: the two texts.

Out of scope: memory, and how deep calls may nest.
-/

namespace EventScript

namespace Checked

/-! ## The phases -/

/-- Reads a program from a source text. Jumps are not bound yet. -/
def readProgram (src : String) (session : Session) : Except Fault (Report Program) := do
  let (marks, stop) ← lex src
  let meaningful := marks.filter fun m => !m.kind.isTrivia
  let (ds, s) ← SpanReader.declarations ⟨src, stop⟩ ⟨meaningful, session, []⟩
  let start : List Note := [.lexed (marks ++ [stop]).length]
  if ds.errors.isEmpty then
    return ⟨.ok ⟨ds.statements, s.texts⟩, s.session,
      start ++ [.parsed ds.statements.length s.texts.length]⟩
  else
    return ⟨.error (.diagnostics (ds.errors.map .reading)), s.session, start⟩

/-- The number of labels behind a step. -/
def labelsAfter (labels : Nat) : Step → Except Fault Nat
  | .allocate _ => countUp labels
  | _ => return labels

/-- Carries steps out up to the first that fails, behind `labels` labels. -/
def carryOut (labels : Nat) (defined : List String) :
    List Step → Except Fault (List Step × Option LoweringFailure)
  | [] => return ([], none)
  | s :: later =>
    match Lowering.failure? defined s with
    | some .misplacedDeclaration => throw .unreachable
    | some (.error e) => return ([], some (.error e))
    | none => do
      let labels ← labelsAfter labels s
      let (done, failure) ← carryOut labels (Lowering.definedAfter defined s) later
      return (s :: done, failure)

/-- Lowers a program to the items of an assembly file. -/
def lowerProgram (p : Program) (session : Session) : Except Fault (Report (List Item)) := do
  let (done, failure) ←
    carryOut session.labels [] ((Lowering.steps p).run (.initial session.labels)).1
  let session := { session with labels := session.labels + Lowering.allocations done }
  let notes := done.filterMap Step.note?
  match failure with
  | none =>
    let items := Lowering.items done
    return ⟨.ok items, session, notes ++ [.emitted items.length]⟩
  | some (.error e) => return ⟨.error (.diagnostics [.lowering e]), session, notes⟩
  | some .misplacedDeclaration => return ⟨.error .misplacedDeclaration, session, notes⟩

/-- Reads a program and binds its jumps. -/
def parse (src : String) (session : Session) : Except Fault (Report Program) := do
  let r ← readProgram src session
  return r.andThen bindProgram

/-- Compiles a source text to the items of an assembly file. -/
def compile (src : String) (session : Session) : Except Fault (Report (List Item)) := do
  let r ← parse src session
  match r.outcome with
  | .ok p =>
    let later ← lowerProgram p r.session
    return { later with journal := r.journal ++ later.journal }
  | .error failure => return ⟨.error failure, r.session, r.journal⟩

/-- The outline of the program that a source text is. -/
def outline (src : String) (session : Session) : Except Fault (Except Failure String) := do
  let r ← parse src session
  match r.outcome with
  | .ok p => return .ok (← writeOutline p)
  | .error failure => return .error failure

/-- The assembly text that a source text is compiled to. -/
def assembly (src : String) (session : Session) : Except Fault (Except Failure String) := do
  let r ← compile src session
  return r.outcome.map Assembly.render

/-! ## Reading -/

section Phases

variable {src : String} {s : Session}

theorem readProgram_eq (hsize : src.utf8ByteSize < Span.lengthLimit)
    (hlines : 1 + Token.lineFeeds src.toList < countLimit)
    (hfits : (EventScript.readProgram src s).session.Fits) :
    readProgram src s = .ok (EventScript.readProgram src s) := by
  have hstop : (EventScript.lex src).stop.Sound src :=
    sound_lex hsize _ (List.mem_append_right _ (List.mem_singleton_self _))
  have hstate : (⟨((EventScript.lex src).tokens.map Token.mark).filter fun m => !m.kind.isTrivia,
      s, []⟩ : SpanState) = ReadState.marks ⟨(EventScript.lex src).meaningful, s, []⟩ :=
    congrArg (SpanState.mk · s []) List.filter_map
  have hlength : ((EventScript.lex src).tokens.map Token.mark ++
      [(EventScript.lex src).stop.mark]).length = (EventScript.lex src).all.length :=
    (List.length_append.trans (by rw [List.length_map]; rfl)).trans List.length_append.symm
  rw [(outcome_readProgram src s).2] at hfits
  have hmarks := SpanReader.declarations_marks hstop (soundTokens_lex hsize) hfits
  unfold readProgram EventScript.readProgram Program.ofLexed
  rw [lex_marks hsize hlines]
  dsimp only [bind, Except.bind]
  rw [hstate, hmarks, hlength]
  dsimp only
  split
  · rfl
  · rfl

/-- The numbers that reading hands out are among those of the whole. -/
theorem fits_readProgram (hfits : (EventScript.parse src s).session.Fits) :
    (EventScript.readProgram src s).session.Fits :=
  session_parse src s ▸ hfits

theorem parse_eq (hsize : src.utf8ByteSize < Span.lengthLimit)
    (hlines : 1 + Token.lineFeeds src.toList < countLimit)
    (hfits : (EventScript.parse src s).session.Fits) :
    parse src s = .ok (EventScript.parse src s) := by
  unfold parse
  rw [readProgram_eq hsize hlines (fits_readProgram hfits)]
  rfl

/-! ## Lowering -/

theorem allocations_cons (x : Step) (later : List Step) :
    Lowering.allocations (x :: later) =
      x.allocated?.toList.length + Lowering.allocations later := by
  unfold Lowering.allocations
  cases h : x.allocated? with
  | none => rw [List.filterMap_cons_none h, Option.toList_none, List.length_nil, Nat.zero_add]
  | some label =>
    rw [List.filterMap_cons_some h, List.length_cons, Option.toList_some, List.length_singleton,
      Nat.add_comm]

theorem labelsAfter_eq {labels : Nat} {x : Step}
    (h : labels + x.allocated?.toList.length < countLimit) :
    labelsAfter labels x = .ok (labels + x.allocated?.toList.length) := by
  cases x with
  | allocate label => exact countUp_eq h
  | _ => rfl

/-- **Steps are carried out without a fault**, where labels do not run out and no declaration stands
in a body. -/
theorem carryOut_eq {labels : Nat} {defined : List String} {steps : List Step}
    (hfits : labels + Lowering.allocations (Lowering.carryOut defined steps).1 < countLimit)
    (hplaced : (Lowering.carryOut defined steps).2 ≠ some .misplacedDeclaration) :
    carryOut labels defined steps = .ok (Lowering.carryOut defined steps) := by
  induction steps generalizing labels defined with
  | nil => rfl
  | cons x later ih =>
    unfold Lowering.carryOut at hfits hplaced ⊢
    unfold carryOut
    cases hfailure : Lowering.failure? defined x with
    | some failure =>
      rw [hfailure] at hplaced
      cases failure with
      | error e => rfl
      | misplacedDeclaration => exact absurd rfl hplaced
    | none =>
      rw [hfailure] at hfits hplaced
      dsimp only at hfits hplaced ⊢
      rw [allocations_cons] at hfits
      rw [labelsAfter_eq (by omega)]
      dsimp only [bind, Except.bind]
      rw [ih (by omega) hplaced]
      rfl

theorem lowerProgram_eq {p : Program}
    (hfits : (EventScript.lowerProgram p s).session.Fits)
    (hplaced : (EventScript.lowerProgram p s).outcome ≠ .error .misplacedDeclaration) :
    lowerProgram p s = .ok (EventScript.lowerProgram p s) := by
  have hlabels := hfits.labels
  rw [session_lowerProgram] at hlabels
  rw [lowerProgram_outcome rfl] at hplaced
  have hcarry := carryOut_eq hlabels fun hfailure => hplaced (by rw [hfailure])
  unfold lowerProgram EventScript.lowerProgram Program.lower
  rw [hcarry]
  dsimp only [bind, Except.bind]
  cases (Lowering.carryOut [] ((Lowering.steps p).run (.initial s.labels)).1).2 with
  | none => rfl
  | some failure => cases failure <;> rfl

/-- Lowering hands out labels and nothing else. -/
theorem session_le_lowerProgram (p : Program) (s : Session) :
    s.Le (EventScript.lowerProgram p s).session := by
  rw [session_lowerProgram]
  exact ⟨Nat.le_refl _, Nat.le_refl _, Nat.le_add_right ..⟩

theorem session_le_compile (src : String) (s : Session) :
    (EventScript.parse src s).session.Le (EventScript.compile src s).session := by
  unfold EventScript.compile Report.andThen
  split
  · exact session_le_lowerProgram _ _
  · exact .refl _

theorem compile_eq (hsize : src.utf8ByteSize < Span.lengthLimit)
    (hlines : 1 + Token.lineFeeds src.toList < countLimit)
    (hfits : (EventScript.compile src s).session.Fits) :
    compile src s = .ok (EventScript.compile src s) := by
  have hparse := parse_eq hsize hlines (hfits.of_le (session_le_compile src s))
  have hplaced (f : Failure) (hf : (EventScript.compile src s).outcome = .error f) :
      f ≠ .misplacedDeclaration := by
    obtain ⟨found, rfl⟩ := diagnostics_of_compile hf
    exact nofun
  unfold compile
  rw [hparse]
  unfold EventScript.compile Report.andThen at hfits hplaced ⊢
  dsimp only [bind, Except.bind]
  cases houtcome : (EventScript.parse src s).outcome with
  | error failure => rfl
  | ok p =>
    rw [houtcome] at hfits hplaced
    dsimp only
    rw [lowerProgram_eq hfits fun hf => hplaced _ hf rfl]
    rfl

/-! ## Writing -/

/-- **The outline of a text is written exactly if no line of it goes too deep.** -/
theorem outline_eq_iff (h : parse src s = .ok (EventScript.parse src s)) :
    outline src s = .ok ((EventScript.parse src s).outcome.map Program.outline) ↔
      ∀ p, (EventScript.parse src s).outcome = .ok p → p.Narrow := by
  unfold outline
  rw [h]
  dsimp only [bind, Except.bind]
  cases houtcome : (EventScript.parse src s).outcome with
  | error failure => exact iff_of_true rfl nofun
  | ok p =>
    have hwritten := writeOutline_eq_ok_iff (p := p)
    dsimp only [Except.map]
    constructor
    · rintro h q hq
      obtain rfl := Except.ok.inj hq
      refine hwritten.mp ?_
      cases hwrite : writeOutline p with
      | error f =>
        rw [hwrite] at h
        exact nomatch h
      | ok text =>
        rw [hwrite] at h
        exact congrArg _ (Except.ok.inj (Except.ok.inj h))
    · intro h
      rw [hwritten.mpr (h p rfl)]
      rfl

theorem assembly_eq (h : compile src s = .ok (EventScript.compile src s)) :
    assembly src s = .ok ((EventScript.compile src s).outcome.map Assembly.render) := by
  unfold assembly
  rw [h]
  rfl

end Phases

end Checked

/-- **No text meets a fault**, as far as lines and indentation can be counted. A source text of fewer
than 2^32 bytes and fewer than 2^32 - 1 line feeds is parsed, compiled and written, in any session
that does not run out of numbers: every span covers whole characters, quotes can be taken off
wherever they are, tokens are asked for no content but their own, parentheses are counted within
their range, and no declaration stands in a body. Its outline is written if and only if no line of
it is indented further than a width can tell. -/
theorem never_faults {src : String} (hsize : src.utf8ByteSize < 2 ^ 32)
    (hlines : Token.lineFeeds src.toList < 2 ^ 32 - 1) (s : Session) :
    ((parse src s).session.Fits →
      Checked.parse src s = .ok (parse src s) ∧
      (Checked.outline src s = .ok ((parse src s).outcome.map Program.outline) ↔
        ∀ p, (parse src s).outcome = .ok p → p.Narrow)) ∧
    ((compile src s).session.Fits →
      Checked.compile src s = .ok (compile src s) ∧
      Checked.assembly src s = .ok ((compile src s).outcome.map Assembly.render)) := by
  have hcounted := Checked.lines_lt_countLimit hlines
  refine ⟨fun hfits => ?_, fun hfits => ?_⟩
  · have hparse := Checked.parse_eq hsize hcounted hfits
    exact ⟨hparse, Checked.outline_eq_iff hparse⟩
  · have hcompile := Checked.compile_eq hsize hcounted hfits
    exact ⟨hcompile, Checked.assembly_eq hcompile⟩

/-- A script that shows a text and breaks off in a raw text. -/
def brokenOff : String :=
  "script A \x7b m(\"x\", (y)) \x60z"

/-- A script that shows a text over and over. -/
def showingText : String :=
  "script A \x7b while (flag(F) == TRUE) \x7b m(\"x\", (y)) \x7d \x7d"

/-- What `showingText` is parsed as. -/
def showingProgram : Program where
  statements := [.script ⟨"A", ⟨7, 1, 1⟩⟩ .global ⟨[.loop .testFirst ⟨0⟩
    ⟨.test ⟨.flag, "F", .equal, "TRUE"⟩, ⟨[.command ⟨"m", ⟨37, 1, 1⟩⟩ ["Text_0", "( y )"]],
      ⟨35, 1, 1⟩⟩⟩ ⟨11, 5, 1⟩], ⟨9, 1, 1⟩⟩]
  texts := [⟨⟨"Text_0", ⟨39, 3, 1⟩⟩, "x", none, .fileLocal⟩]

theorem never_faults_showingText :
    (∀ src ∈ [brokenOff, showingText],
      src.utf8ByteSize < 2 ^ 32 ∧ Token.lineFeeds src.toList < 2 ^ 32 - 1 ∧
      (parse src .fresh).session.Fits ∧ (compile src .fresh).session.Fits ∧
      Checked.parse src .fresh = .ok (parse src .fresh) ∧
      Checked.assembly src .fresh = .ok ((compile src .fresh).outcome.map Assembly.render)) ∧
    (parse showingText .fresh).outcome = .ok showingProgram ∧ showingProgram.Narrow ∧
    Checked.outline showingText .fresh = .ok (.ok showingProgram.outline) := by
  have hshown : (parse showingText .fresh).outcome = .ok showingProgram := by cbv
  have hnarrow : showingProgram.Narrow := by
    have hdepths : showingProgram.outlineLines.map Outline.Line.depth = [0, 1, 2, 3, 0, 1] := rfl
    intro l hl
    have hdepth : l.depth ∈ [0, 1, 2, 3, 0, 1] := hdepths ▸ List.mem_map_of_mem hl
    have hbound : ∀ d ∈ [0, 1, 2, 3, 0, 1], 2 * d < widthLimit := by decide
    exact hbound _ hdepth
  have hfits : ∀ src ∈ [brokenOff, showingText], src.utf8ByteSize < 2 ^ 32 ∧
      Token.lineFeeds src.toList < 2 ^ 32 - 1 ∧
      (parse src .fresh).session.Fits ∧ (compile src .fresh).session.Fits := by
    intro src hsrc
    rcases List.mem_pair.mp hsrc with rfl | rfl
    · have hparse : (parse brokenOff .fresh).session = ⟨0, 1, 0⟩ := by decide +kernel
      have hcompile : (compile brokenOff .fresh).session = ⟨0, 1, 0⟩ := by decide +kernel
      rw [hparse, hcompile]
      exact ⟨by decide, by decide, ⟨by decide, by decide, by decide⟩,
        ⟨by decide, by decide, by decide⟩⟩
    · have hparse : (parse showingText .fresh).session = ⟨1, 1, 0⟩ := by decide +kernel
      have hcompile : (compile showingText .fresh).session = ⟨1, 1, 2⟩ := by decide +kernel
      rw [hparse, hcompile]
      exact ⟨by decide, by decide, ⟨by decide, by decide, by decide⟩,
        ⟨by decide, by decide, by decide⟩⟩
  refine ⟨fun src hsrc => ?_, hshown, hnarrow, ?_⟩
  · obtain ⟨hsize, hlines, hread, hcompiled⟩ := hfits src hsrc
    obtain ⟨hparse, hassembly⟩ := never_faults hsize hlines .fresh
    exact ⟨hsize, hlines, hread, hcompiled, (hparse hread).1, (hassembly hcompiled).2⟩
  · obtain ⟨hsize, hlines, hread, -⟩ := hfits showingText (by simp)
    have houtline := ((never_faults hsize hlines .fresh).1 hread).2.mpr fun p hp => by
      rw [hshown] at hp
      obtain rfl := Except.ok.inj hp
      exact hnarrow
    rw [houtline, hshown]
    rfl

-- A session that runs out of numbers for texts.
example : Checked.parse brokenOff ⟨0, 2 ^ 32 - 1, 0⟩ = .error .count := by cbv

/-! ## Texts that meet a fault -/

section Limits

variable {src : String} {s : Session}

namespace Checked

/-- A text that is not cut is neither parsed nor compiled. -/
theorem faults_of_lex {f : Fault} (h : lex src = .error f) :
    parse src s = .error f ∧ compile src s = .error f := by
  have hparse : parse src s = .error f := by
    unfold parse readProgram
    rw [h]
    rfl
  refine ⟨hparse, ?_⟩
  unfold compile
  rw [hparse]
  rfl

/-- The outline of a program is not written if one of its lines is indented too far. -/
theorem outline_eq_error {p : Program} {l : Outline.Line}
    (h : parse src s = .ok (EventScript.parse src s))
    (hp : (EventScript.parse src s).outcome = .ok p) (hl : l ∈ p.outlineLines)
    (hwide : widthLimit ≤ l.indent) : outline src s = .error .count := by
  unfold outline
  rw [h]
  dsimp only [bind, Except.bind]
  rw [hp]
  dsimp only
  rw [writeOutline_eq_error hl hwide]

end Checked

/-- Line feeds are no tokens that carry meaning. -/
theorem meaningful_lineFeedText (n : Nat) :
    (lex (Checked.lineFeedText n)).meaningful = [] := by
  unfold lex Checked.lineFeedText
  rw [String.toList_ofList]
  cases n with
  | zero =>
    rw [List.replicate_zero, Lexer.lexFrom]
    rfl
  | succ n =>
    rw [List.replicate_succ, Lexer.lexFrom, if_neg (by decide), Checked.scan_lineFeeds]
    dsimp only
    rw [Lexer.lexFrom]
    rfl

/-- Nothing is handed out for a text of line feeds. -/
theorem session_compile_lineFeedText (n : Nat) :
    (compile (Checked.lineFeedText n) .fresh).session = .fresh := by
  unfold compile parse readProgram Program.ofLexed
  dsimp only
  rw [meaningful_lineFeedText]
  rfl

/-- The line behind too many line feeds has no number. -/
theorem faults_lineFeedText {n : Nat} (h : countLimit ≤ 1 + n) :
    (compile (Checked.lineFeedText n) .fresh).session.Fits ∧
      Checked.parse (Checked.lineFeedText n) .fresh = .error .count ∧
      Checked.compile (Checked.lineFeedText n) .fresh = .error .count := by
  rw [session_compile_lineFeedText]
  exact ⟨.fresh, Checked.faults_of_lex (Checked.lex_lineFeeds h)⟩

/-- Blocks that nest too deep are parsed, but their outline is not written. -/
theorem faults_nestedText {n : Nat} (h : widthLimit ≤ 2 * n)
    (hsize : (nestedText n).utf8ByteSize < 2 ^ 32) :
    (parse (nestedText n) .fresh).session.Fits ∧
      Checked.parse (nestedText n) .fresh = .ok (parse (nestedText n) .fresh) ∧
      Checked.outline (nestedText n) .fresh = .error .count := by
  have hpos : 0 < n := by
    rcases Nat.eq_zero_or_pos n with rfl | hpos
    · exact absurd h (by decide)
    · exact hpos
  obtain ⟨p, hread, hsession, hdeep⟩ := parse_nestedText hpos .fresh
  have hfits : (parse (nestedText n) .fresh).session.Fits := by
    rw [hsession]
    exact .fresh
  have hparse := Checked.parse_eq hsize (by rw [lineFeeds_nestedText]; decide) hfits
  exact ⟨hfits, hparse, Checked.outline_eq_error hparse hread hdeep h⟩

end Limits

/-- **Lines and widths run out.** In a text of fewer than 2^32 bytes the line behind 2^32 - 1 line
feeds has no number, so it is neither parsed nor compiled. A script of 2^15 blocks inside of each
other is parsed, but the innermost one is indented too far for the outline to be written. -/
theorem faults_at_limits :
    ((Checked.lineFeedText (2 ^ 32 - 1)).utf8ByteSize < 2 ^ 32 ∧
      (compile (Checked.lineFeedText (2 ^ 32 - 1)) .fresh).session.Fits ∧
      Checked.parse (Checked.lineFeedText (2 ^ 32 - 1)) .fresh = .error .count ∧
      Checked.compile (Checked.lineFeedText (2 ^ 32 - 1)) .fresh = .error .count) ∧
    ((nestedText (2 ^ 15)).utf8ByteSize < 2 ^ 32 ∧
      (parse (nestedText (2 ^ 15)) .fresh).session.Fits ∧
      Checked.parse (nestedText (2 ^ 15)) .fresh = .ok (parse (nestedText (2 ^ 15)) .fresh) ∧
      Checked.outline (nestedText (2 ^ 15)) .fresh = .error .count) := by
  have hlines : (Checked.lineFeedText (2 ^ 32 - 1)).utf8ByteSize < 2 ^ 32 := by
    rw [Checked.utf8ByteSize_lineFeedText]
    decide
  have hblocks : (nestedText (2 ^ 15)).utf8ByteSize < 2 ^ 32 := by
    rw [utf8ByteSize_nestedText]
    decide
  exact ⟨⟨hlines, faults_lineFeedText (by decide)⟩,
    hblocks, faults_nestedText (by decide) hblocks⟩

end EventScript
