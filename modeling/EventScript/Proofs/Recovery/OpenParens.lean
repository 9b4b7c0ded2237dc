import EventScript.Proofs.Recovery.Alike

/-!
# The innermost open parenthesis

`Scan` goes through the tokens of a condition one at a time and keeps the parentheses that are open.
Parentheses inside of an operand or of a value are only counted, so that the end of these is found.

A reader inside of parentheses agrees with the scan (`ScansAt`): what it takes brings the scan from
one state to another, and where the source text ends inside of it, it complains that the innermost
parenthesis of the scan is not closed. Nothing else makes it complain about such a parenthesis.

Results: `scans_condition` and `scans_switchOperand`.
-/

namespace EventScript

/-- What a scan expects next. -/
inductive Scan.Mode where
  | term
  /-- The parenthesis behind `flag` or `var`. -/
  | operand
  /-- The rest of a run in which `depth` parentheses are open. -/
  | run (stops : Kind → Bool) (depth : Nat)

/-- How far a scan has got inside of a condition. -/
structure Scan where
  mode : Scan.Mode
  /-- The open parentheses, the innermost first. -/
  pending : List Token

namespace Scan

/-- In front of a condition. -/
def start : Scan :=
  ⟨.term, []⟩

/-- Behind a term. What stands behind an operand goes on as a run up to a connective, and there is
nothing else behind a condition in parentheses. -/
def behindTerm (pending : List Token) : Scan :=
  ⟨.run Reader.isConnective 0, pending⟩

/-- Goes past a token. -/
def step (c : Scan) (t : Token) : Scan :=
  match c.mode with
  | .term =>
    match t.kind with
    | .symbol .leftParen => ⟨.term, t :: c.pending⟩
    | .keyword .flag | .keyword .var => ⟨.operand, c.pending⟩
    | _ => c
  | .operand => if t.kind = .symbol .leftParen then ⟨.run (fun _ => false) 0, t :: c.pending⟩ else c
  | .run stops depth =>
    if Run.ends stops depth t.kind then
      if t.kind = .symbol .rightParen then behindTerm c.pending.tail else ⟨.term, c.pending⟩
    else ⟨.run stops (Run.depthAfter depth t.kind), c.pending⟩

/-- Goes past some tokens. -/
def past (c : Scan) (ts : List Token) : Scan :=
  ts.foldl step c

/-- Tokens in a row are passed in a row. -/
theorem past_append (c : Scan) (ts us : List Token) : c.past (ts ++ us) = (c.past ts).past us :=
  List.foldl_append

end Scan

/-- The innermost parenthesis that is open behind `ts`, the start of a condition. Those inside of an
operand or of a value do not count. -/
def innermostOpen (ts : List Token) : Option Token :=
  (Scan.start.past ts).pending.head?

/-- A word of a run only opens or closes parentheses of the run. -/
theorem Scan.step_of_word {stops : Kind → Bool} {depth : Nat} {pending : List Token} {t : Token}
    (h : Run.ends stops depth t.kind = false) : Scan.step ⟨.run stops depth, pending⟩ t =
      ⟨.run stops (Run.depthAfter depth t.kind), pending⟩ :=
  if_neg (by rw [h]; exact Bool.false_ne_true)

/-- Most tokens make no difference behind a term. -/
theorem Scan.step_behindTerm {pending : List Token} {t : Token}
    (hends : Run.ends Reader.isConnective 0 t.kind = false)
    (hdepth : Run.depthAfter 0 t.kind = 0) :
    (behindTerm pending).step t = .behindTerm pending := by
  rw [behindTerm, step_of_word hends, hdepth]

/-- The tokens of a run leave the scan inside of it. -/
theorem Scan.past_spanRun (stops : Kind → Bool) (depth : Nat) (pending ts : List Token) :
    Scan.past ⟨.run stops depth, pending⟩ (Run.spanRun stops depth ts).1 =
      ⟨.run stops (Run.depthBehind depth (Run.spanRun stops depth ts).1), pending⟩ := by
  induction ts generalizing depth with
  | nil => rfl
  | cons t ts ih =>
    unfold Run.spanRun
    split
    · rfl
    · next hword =>
      change Scan.past (Scan.step ⟨.run stops depth, pending⟩ t) _ = _
      rw [step_of_word (Bool.eq_false_iff.mpr hword)]
      exact ih _

namespace Reader

variable {α β : Type} {stop : Token} {c c' c'' : Scan} {s : ReadState} {x : Reader α}
variable {f : α → Reader β}

/-- From `s` on, the reader goes through its tokens like the scan, which gets from `c` to `c'`. -/
structure ScansAt (stop : Token) (c c' : Scan) (s : ReadState) (x : Reader α) : Prop where
  ok : ∀ {a s'}, Gives x stop s a s' → ∃ taken, s.ahead = taken ++ s'.ahead ∧ c.past taken = c'
  ended : ∀ {e s'}, Fails x stop s e s' → s'.ahead = [] ∨ e.value = .unterminatedParen →
    s'.ahead = [] ∧ ∃ p, e = ⟨p.span, .unterminatedParen⟩ ∧ (c.past s.ahead).pending.head? = some p

/-! ## Combinators -/

/-- Two readers in a row take the scan from state to state. -/
theorem ScansAt.bind (hs : s.Ended stop) (hx : ScansAt stop c c' s x)
    (hf : ∀ a s', s'.Ended stop → Gives x stop s a s' → ScansAt stop c' c'' s' (f a)) :
    ScansAt stop c c'' s (x >>= f) where
  ok h := by
    obtain ⟨a, s', ha, hb⟩ := gives_bind.mp h
    obtain ⟨first, hfirst, hscan⟩ := hx.ok ha
    obtain ⟨second, hsecond, hscan'⟩ :=
      (hf a s' (hs.suffix (hfirst ▸ List.suffix_append _ _)) ha).ok hb
    refine ⟨first ++ second, by rw [hfirst, hsecond, List.append_assoc], ?_⟩
    rw [Scan.past_append, hscan, hscan']
  ended h hend := by
    rcases fails_bind.mp h with h | ⟨a, s', ha, hb⟩
    · exact hx.ended h hend
    · obtain ⟨first, hfirst, hscan⟩ := hx.ok ha
      have hlater := (hf a s' (hs.suffix (hfirst ▸ List.suffix_append _ _)) ha).ended hb hend
      rwa [← hscan, ← Scan.past_append, ← hfirst] at hlater

theorem scansAt_pure (a : α) : ScansAt stop c c s (pure a) where
  ok h := by
    obtain ⟨-, rfl⟩ := gives_pure.mp h
    exact ⟨[], rfl, rfl⟩
  ended h := absurd h fails_pure

/-- A failure in front of a token is no complaint about a parenthesis. -/
theorem scansAt_fail {t : Token} {e : SyntaxError} (hne : s.ahead ≠ [])
    (he : e ≠ .unterminatedParen) : ScansAt stop c c' s (fail t e : Reader α) where
  ok h := absurd h gives_throw
  ended h hend := by
    obtain ⟨rfl, rfl⟩ := fails_throw.mp h
    exact absurd hend (not_or.mpr ⟨hne, he⟩)

theorem scansAt_refuse {t : Token} {e : SyntaxError} (hne : s.ahead ≠ [])
    (he : e ≠ .unterminatedParen) : ScansAt stop c c' s (refuse t e : Reader α) := by
  unfold refuse
  split
  · exact scansAt_fail hne nofun
  · exact scansAt_fail hne he

/-! ## Single tokens -/

theorem scansAt_get_bind {f : ReadState → Reader β} (hf : ScansAt stop c c' s (f s)) :
    ScansAt stop c c' s (get >>= f) where
  ok h := hf.ok h
  ended h := hf.ended h

theorem scansAt_peek_bind {f : Token → Reader β}
    (hf : ScansAt stop c c' s (f (s.ahead.headD stop))) : ScansAt stop c c' s (peek >>= f) where
  ok h := by
    obtain ⟨_, _, ht, h⟩ := gives_bind.mp h
    obtain ⟨rfl, rfl⟩ := gives_peek.mp ht
    exact hf.ok h
  ended h := by
    rcases fails_bind.mp h with h | ⟨_, _, ht, h⟩
    · exact absurd h fails_peek
    · obtain ⟨rfl, rfl⟩ := gives_peek.mp ht
      exact hf.ended h

theorem scansAt_advance_bind {f : Token → Reader β} {t : Token} {later : List Token}
    (hahead : s.ahead = t :: later)
    (hf : ScansAt stop (c.step t) c' { s with ahead := later } (f t)) :
    ScansAt stop c c' s (advance >>= f) where
  ok h := by
    obtain ⟨_, _, ht, h⟩ := gives_bind.mp h
    obtain ⟨rfl, rfl⟩ := gives_advance.mp ht
    rw [hahead] at h ⊢
    obtain ⟨taken, htaken, hscan⟩ := hf.ok h
    exact ⟨t :: taken, congrArg (t :: ·) htaken, hscan⟩
  ended h := by
    rcases fails_bind.mp h with h | ⟨_, _, ht, h⟩
    · exact absurd h fails_advance
    · obtain ⟨rfl, rfl⟩ := gives_advance.mp ht
      rw [hahead] at h ⊢
      exact hf.ended h

/-- A consumed token is one step of the scan. -/
theorem scansAt_consume_bind {k : Kind} {f : Token → Reader β} (hne : s.ahead ≠ [])
    (hf : ∀ t later, s.ahead = t :: later → t.kind = k →
      ScansAt stop (c.step t) c' { s with ahead := later } (f t)) :
    ScansAt stop c c' s (consume k >>= f) := by
  obtain ⟨t, later, hahead⟩ := List.exists_cons_of_ne_nil hne
  rw [consume_bind]
  refine scansAt_peek_bind ?_
  rw [hahead, List.headD_cons]
  by_cases hk : t.kind = k
  · rw [if_pos hk]
    exact scansAt_advance_bind hahead (hf t later hahead hk)
  · rw [if_neg hk]
    exact scansAt_refuse hne nofun

/-- A reader inside of the parenthesis `opening` that looks for the end of the text first. -/
theorem scansAt_ensureOpen_bind {opening : Token} {f : Unit → Reader β} (hs : s.Ended stop)
    (hopening : opening.kind = .symbol .leftParen) (hpending : c.pending.head? = some opening)
    (hf : s.ahead ≠ [] → ScansAt stop c c' s (f ())) :
    ScansAt stop c c' s (ensureOpen opening >>= f) := by
  cases hahead : s.ahead with
  | nil =>
    have hend : s.ahead.headD stop = stop := by rw [hahead]; rfl
    have hfail : (ensureOpen opening >>= f) = peek >>= fun t =>
        if t.kind = .endOfInput then fail opening .unterminatedParen else f () := by
      unfold ensureOpen unterminated
      rw [hopening, bind_assoc]
      refine congrArg _ (funext fun t => ?_)
      split <;> rfl
    rw [hfail]
    refine scansAt_peek_bind ?_
    rw [hend, if_pos hs.stop]
    refine ⟨fun h => absurd h gives_throw, fun h _ => ?_⟩
    obtain ⟨rfl, rfl⟩ := fails_throw.mp h
    rw [hahead]
    exact ⟨rfl, opening, rfl, hpending⟩
  | cons t later =>
    have hne : s.ahead ≠ [] := hahead ▸ List.cons_ne_nil t later
    have hopen : s.ahead.headD stop = t := by rw [hahead]; rfl
    unfold ensureOpen
    rw [bind_assoc]
    refine scansAt_peek_bind ?_
    rw [hopen, if_neg (hs.ahead t (hahead ▸ List.mem_cons_self))]
    exact hf hne

/-! ## Runs -/

section Runs

variable {stops : Kind → Bool} {opening : Token} {pending : List Token}

/-- A run is given only if a token stands behind it. -/
theorem ahead_ne_nil_of_run {text : String} {s' : ReadState} (hs : s.Ended stop)
    (h : Gives (run stops opening) stop s text s') : s'.ahead ≠ [] := by
  obtain ⟨-, hopen, -, -⟩ := gives_run.mp h
  intro hnil
  rw [ReadState.nextKind, hnil] at hopen
  exact hopen hs.stop

/-- A run keeps its opening on top of those that are open. -/
theorem scansAt_run (hs : s.Ended stop) (hopening : opening.kind = .symbol .leftParen) :
    ScansAt stop ⟨.run stops 0, opening :: pending⟩ ⟨.run stops 0, opening :: pending⟩ s
      (run stops opening) where
  ok {text s'} h := by
    have hne := ahead_ne_nil_of_run hs h
    obtain ⟨hs', -, hproper, -⟩ := gives_run.mp h
    obtain ⟨t, later, hahead⟩ := List.exists_cons_of_ne_nil hne
    have hrest : (Run.spanRun stops 0 s.ahead).2 = t :: later := by rw [← hahead, hs']
    have hends := Run.ends_of_spanRun_rest stops 0 s.ahead hrest
    -- what ends a run and is a token stands outside of all parentheses
    have hdepth : Run.depthBehind 0 (Run.spanRun stops 0 s.ahead).1 = 0 := by
      rw [ReadState.nextKind_of_cons hahead] at hproper
      simp [Run.ends, hproper] at hends
      exact hends.1
    refine ⟨(Run.spanRun stops 0 s.ahead).1, ?_, ?_⟩
    · rw [hs', Run.spanRun_append]
    · rw [Scan.past_spanRun, hdepth]
  ended {e s'} h hend := by
    have hcut : ReadState.Ended { s with ahead := (Run.spanRun stops 0 s.ahead).2 } stop :=
      hs.suffix (spanRun_suffix stops s.ahead)
    have hbehind : ScansAt stop
        ⟨.run stops (Run.depthBehind 0 (Run.spanRun stops 0 s.ahead).1), opening :: pending⟩
        ⟨.run stops (Run.depthBehind 0 (Run.spanRun stops 0 s.ahead).1), opening :: pending⟩
        { s with ahead := (Run.spanRun stops 0 s.ahead).2 }
        (runEnd opening (Run.spanRun stops 0 s.ahead).1) := by
      refine scansAt_ensureOpen_bind hcut hopening rfl fun hne => scansAt_peek_bind ?_
      split
      · exact scansAt_fail hne SyntaxError.noConfusion
      · exact scansAt_pure _
    have hlater := hbehind.ended h hend
    rw [← Scan.past_spanRun, ← Scan.past_append, Run.spanRun_append] at hlater
    exact hlater

end Runs

/-! ## Tests -/

section Tests

variable {outer : Token} {pending : List Token} (houter : outer.kind = .symbol .leftParen)
  (hs : s.Ended stop)

include houter hs

/-- Behind an operand, the parenthesis around the test is on top again. -/
theorem scansAt_operand (subject : Subject) (keyword : Token) :
    ScansAt stop ⟨.operand, outer :: pending⟩ (.behindTerm (outer :: pending)) s
      (operand subject keyword outer) := by
  unfold operand close
  rw [bind_assoc]
  refine scansAt_ensureOpen_bind hs houter rfl fun hne =>
    scansAt_consume_bind hne fun opening later hahead hopening => ?_
  have hstep : Scan.step ⟨.operand, outer :: pending⟩ opening =
      ⟨.run (fun _ => false) 0, opening :: outer :: pending⟩ := if_pos hopening
  have hlater : ReadState.Ended { s with ahead := later } stop :=
    hs.suffix (hahead ▸ List.suffix_cons _ _)
  rw [hstep]
  refine (scansAt_run hlater hopening).bind hlater fun text s' hs' hrun => ?_
  have hne' := ahead_ne_nil_of_run hlater hrun
  have hlast : ScansAt stop ⟨.run (fun _ => false) 0, opening :: outer :: pending⟩
      (.behindTerm (outer :: pending)) s'
      (consume (.symbol .rightParen) >>= fun _ => pure text) :=
    scansAt_consume_bind hne' fun closing _ _ hclosing => by
      rw [Scan.step, hclosing]
      exact scansAt_pure text
  by_cases htext : text = ""
  · rw [if_pos htext]
    change ScansAt _ _ _ _ (fail keyword (.missingOperand subject))
    exact scansAt_fail hne' nofun
  · rw [if_neg htext]
    exact hlast

omit houter hs in
theorem scansAt_comparator (subject : Subject) (hne : s.ahead ≠ []) :
    ScansAt stop (.behindTerm pending) (.behindTerm pending) s (comparator subject) := by
  obtain ⟨t, later, hahead⟩ := List.exists_cons_of_ne_nil hne
  refine scansAt_peek_bind ?_
  rw [hahead, List.headD_cons]
  split
  · next sign hsign =>
    have hplain : Run.ends isConnective 0 t.kind = false ∧ Run.depthAfter 0 t.kind = 0 := by
      unfold comparator? at hsign
      split at hsign
      all_goals first
        | next hkind => rw [hkind]; exact ⟨rfl, rfl⟩
        | exact nomatch hsign
    refine scansAt_advance_bind hahead ?_
    rw [Scan.step_behindTerm hplain.1 hplain.2]
    exact scansAt_pure sign
  · exact scansAt_refuse hne nofun

omit houter hs in
theorem scansAt_flagValue (hne : s.ahead ≠ []) :
    ScansAt stop (.behindTerm pending) (.behindTerm pending) s flagValue := by
  obtain ⟨t, later, hahead⟩ := List.exists_cons_of_ne_nil hne
  have hword {k : Keyword} (hkind : t.kind = .keyword k) (value : String) :
      ScansAt stop (.behindTerm pending) (.behindTerm pending) s
        (advance >>= fun _ => pure value) := by
    refine scansAt_advance_bind hahead ?_
    rw [Scan.step_behindTerm (by rw [hkind]; rfl) (by rw [hkind]; rfl)]
    exact scansAt_pure value
  refine scansAt_peek_bind ?_
  rw [hahead, List.headD_cons]
  split
  · next hkind => exact hword hkind _
  · next hkind => exact hword hkind _
  all_goals exact scansAt_fail hne nofun

theorem scansAt_varValue :
    ScansAt stop (.behindTerm (outer :: pending)) (.behindTerm (outer :: pending)) s
      (varValue outer) := by
  refine scansAt_peek_bind ((scansAt_run hs houter).bind hs fun text s' hs' hrun => ?_)
  by_cases htext : text = ""
  · rw [if_pos htext]
    exact scansAt_fail (ahead_ne_nil_of_run hs hrun) nofun
  · rw [if_neg htext]
    exact scansAt_pure text

/-- Behind a test, the parenthesis around it is on top again. -/
theorem scansAt_test {t : Token} {later : List Token} (hahead : s.ahead = t :: later)
    (ht : t.kind = .keyword .flag ∨ t.kind = .keyword .var) :
    ScansAt stop ⟨.term, outer :: pending⟩ (.behindTerm (outer :: pending)) s (test outer) := by
  have hstep : Scan.step ⟨.term, outer :: pending⟩ t = ⟨.operand, outer :: pending⟩ := by
    unfold Scan.step
    rcases ht with hkind | hkind
    · rw [hkind]
    · rw [hkind]
  have hlater : ReadState.Ended { s with ahead := later } stop :=
    hs.suffix (hahead ▸ List.suffix_cons _ _)
  refine scansAt_advance_bind hahead ?_
  rw [hstep]
  refine (scansAt_operand houter hlater _ t).bind hlater fun operand s₁ hs₁ _ =>
    scansAt_ensureOpen_bind hs₁ houter rfl fun hne₁ =>
      (scansAt_comparator _ hne₁).bind hs₁ fun sign s₂ hs₂ _ =>
        scansAt_ensureOpen_bind hs₂ houter rfl fun hne₂ => ?_
  split
  · exact (scansAt_flagValue hne₂).bind hs₂ fun value _ _ _ => scansAt_pure _
  · exact (scansAt_varValue houter hs₂).bind hs₂ fun value _ _ _ => scansAt_pure _

end Tests

/-! ## Conditions -/

section Conditions

variable {outer : Token} {pending : List Token} {nested : Reader Condition}

/-- What a reader of a condition in parentheses has to do. -/
def ScansParens (stop : Token) (x : Reader α) : Prop :=
  ∀ {s : ReadState} {t : Token} {later : List Token} (pending : List Token), s.Ended stop →
    s.ahead = t :: later → t.kind = .symbol .leftParen →
      ScansAt stop ⟨.term, pending⟩ (.behindTerm pending) s x

variable (hnested : ScansParens stop nested) (houter : outer.kind = .symbol .leftParen)

include hnested houter

theorem scansAt_term (hs : s.Ended stop) :
    ScansAt stop ⟨.term, outer :: pending⟩ (.behindTerm (outer :: pending)) s
      (term nested outer) := by
  refine scansAt_ensureOpen_bind hs houter rfl fun hne => scansAt_peek_bind ?_
  obtain ⟨t, later, hahead⟩ := List.exists_cons_of_ne_nil hne
  rw [hahead, List.headD_cons]
  split
  · next hkind => exact hnested _ hs hahead hkind
  · next hkind => exact (scansAt_test houter hs hahead (.inl hkind)).bind hs fun _ _ _ _ =>
      scansAt_pure _
  · next hkind => exact (scansAt_test houter hs hahead (.inr hkind)).bind hs fun _ _ _ _ =>
      scansAt_pure _
  · exact scansAt_refuse hne nofun

theorem scansAt_joinedTerm (hs : s.Ended stop) {t : Token} {later : List Token}
    (hahead : s.ahead = t :: later) (ht : isConnective t.kind = true) :
    ScansAt stop (.behindTerm (outer :: pending)) (.behindTerm (outer :: pending)) s
      (joinedTerm nested outer) := by
  have hends : Run.ends isConnective 0 t.kind = true := by
    rw [Run.ends, ht]
    simp
  have hclosing : t.kind ≠ .symbol .rightParen := fun hkind => by
    rw [hkind] at ht
    exact Bool.false_ne_true ht
  have hstep : (Scan.behindTerm (outer :: pending)).step t = ⟨.term, outer :: pending⟩ :=
    (if_pos hends).trans (if_neg hclosing)
  refine scansAt_advance_bind hahead ?_
  rw [hstep]
  exact (scansAt_term hnested houter (hs.suffix (hahead ▸ List.suffix_cons _ _))).bind
    (hs.suffix (hahead ▸ List.suffix_cons _ _)) fun _ _ _ _ => scansAt_pure _

/-- By induction on the bound; each turn starts and ends behind a term. -/
theorem scansAt_joinedTerms (bound : Nat) (earlier : List (Connective × Condition))
    (hs : s.Ended stop) :
    ScansAt stop (.behindTerm (outer :: pending)) (.behindTerm (outer :: pending)) s
      (manyWithin isConnective (fun _ => joinedTerm nested outer) bound earlier) := by
  induction bound generalizing earlier s with
  | zero => exact scansAt_pure _
  | succ bound ih =>
    refine scansAt_peek_bind ?_
    split
    · next hgo =>
      cases hahead : s.ahead with
      | nil =>
        rw [hahead, List.headD_nil, hs.stop] at hgo
        exact nomatch hgo
      | cons t later =>
        rw [hahead, List.headD_cons] at hgo
        exact (scansAt_joinedTerm hnested houter hs hahead hgo).bind hs fun a s' hs' _ =>
          ih (earlier ++ [a]) hs'
    · exact scansAt_pure _

/-- Behind terms, the parenthesis around them is on top again. -/
theorem scansAt_terms (hs : s.Ended stop) :
    ScansAt stop ⟨.term, outer :: pending⟩ (.behindTerm (outer :: pending)) s
      (terms nested outer) :=
  (scansAt_term hnested houter hs).bind hs fun _ _ hs₁ _ =>
    (scansAt_get_bind (scansAt_joinedTerms hnested houter _ [] hs₁)).bind hs₁ fun _ _ _ _ =>
      scansAt_pure _

end Conditions

/-- A closing parenthesis takes the one on top away. -/
theorem scansAt_closeParen {opening : Token} {pending : List Token} (hs : s.Ended stop)
    (hopening : opening.kind = .symbol .leftParen) :
    ScansAt stop (.behindTerm (opening :: pending)) (.behindTerm pending) s
      (close (.symbol .rightParen) opening) :=
  scansAt_ensureOpen_bind hs hopening rfl fun hne => by
    rw [← bind_pure (consume _)]
    refine scansAt_consume_bind hne fun t later _ ht => ?_
    have hstep : (Scan.behindTerm (opening :: pending)).step t = .behindTerm pending := by
      unfold Scan.step Scan.behindTerm
      rw [ht]
      rfl
    rw [hstep]
    exact scansAt_pure t

/-- A condition leaves the parentheses open that were; by induction on its depth. -/
theorem scans_conditionWithin (bound : Nat) : ScansParens stop (conditionWithin bound) := by
  induction bound with
  | zero =>
    intro s t later pending hs hahead ht
    exact scansAt_peek_bind (scansAt_refuse (hahead ▸ List.cons_ne_nil _ _) nofun)
  | succ bound ih =>
    intro s t later pending hs hahead ht
    refine scansAt_consume_bind (hahead ▸ List.cons_ne_nil _ _) fun opening later hahead ho => ?_
    have hs₁ : ReadState.Ended { s with ahead := later } stop :=
      hs.suffix (hahead ▸ List.suffix_cons _ _)
    have hstep : Scan.step ⟨.term, pending⟩ opening = ⟨.term, opening :: pending⟩ := by
      rw [Scan.step, ho]
    rw [hstep]
    exact (scansAt_terms ih ho hs₁).bind hs₁ fun condition s₂ hs₂ _ =>
      (scansAt_closeParen hs₂ ho).bind hs₂ fun _ _ _ _ => scansAt_pure condition

theorem scans_condition : ScansParens stop condition :=
  fun pending hs hahead ht => scansAt_get_bind (scans_conditionWithin _ pending hs hahead ht)

/-! ## Switches -/

/-- What stands in parentheses behind `switch`. -/
def switchOperand : Reader String := do
  let outer ← consume (.symbol .leftParen)
  ensureOpen outer
  let var ← consume (.keyword .var)
  let operand ← operand .var var outer
  let _ ← close (.symbol .rightParen) outer
  return operand

/-- A switch is its keyword, its operand and its cases. -/
theorem switch_eq (nested : Reader Statement) : switch nested = (do
    let keyword ← consume (.keyword .switch)
    let id ← nextConstruct
    let operand ← switchOperand
    let opening ← consume (.symbol .leftBrace)
    let cases ← manyUntil (.symbol .rightBrace) opening (switchCase nested opening)
    return .switch id operand cases keyword.span) := by
  simp only [switch, switchOperand, bind_assoc, pure_bind]

theorem keeps_switchOperand : Keeps switchOperand :=
  (keeps_consume _).bind fun _ => (keeps_ensureOpen _).bind fun _ => (keeps_consume _).bind fun _ =>
    (keeps_operand _ _ _).bind fun _ => (keeps_close _ _).bind fun _ => keeps_pure _

/-- The operand of a switch leaves the parentheses open that were. -/
theorem scans_switchOperand : ScansParens stop switchOperand := by
  intro s t later pending hs hahead ht
  refine scansAt_consume_bind (hahead ▸ List.cons_ne_nil _ _) fun outer later hahead houter => ?_
  have hs₁ : ReadState.Ended { s with ahead := later } stop :=
    hs.suffix (hahead ▸ List.suffix_cons _ _)
  have hstep : Scan.step ⟨.term, pending⟩ outer = ⟨.term, outer :: pending⟩ := by
    rw [Scan.step, houter]
  rw [hstep]
  refine scansAt_ensureOpen_bind hs₁ houter rfl fun hne₁ =>
    scansAt_consume_bind hne₁ fun var more hahead₁ hvar => ?_
  have hs₂ : ReadState.Ended { s with ahead := more } stop :=
    hs₁.suffix (hahead₁ ▸ List.suffix_cons _ _)
  have hstep₂ : Scan.step ⟨.term, outer :: pending⟩ var = ⟨.operand, outer :: pending⟩ := by
    rw [Scan.step, hvar]
  rw [hstep₂]
  exact (scansAt_operand houter hs₂ _ var).bind hs₂ fun operand s₃ hs₃ _ =>
    (scansAt_closeParen hs₃ houter).bind hs₃ fun _ _ _ _ => scansAt_pure operand

end Reader
end EventScript
