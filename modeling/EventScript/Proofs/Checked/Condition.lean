import EventScript.Proofs.Checked.Agreement
import EventScript.Reader.Condition

/-!
# Reading conditions from spans

Runs of tokens, and the conditions made of them. Parentheses in a run are counted with 32 bits, and
the count never goes below zero: the parenthesis that would take it there ends the run.

Results:
* `cut_marks`, `agrees_run`: runs;
* `agrees_condition`: conditions.
-/

namespace EventScript.SpanReader

open Reader (comparator? isConnective joinLeft)

/-! ## Runs -/

/-- The number of open parentheses behind a token of kind `k`. -/
def depthAfter (depth : Nat) : Kind → Except Fault Nat
  | .symbol .leftParen => Checked.countUp depth
  | .symbol .rightParen => Checked.countDown depth
  | _ => return depth

/-- Splits off the run that marks start with, inside of `depth` parentheses. -/
def cut (stops : Kind → Bool) (depth : Nat) : List Mark → Except Fault (List Mark × List Mark)
  | [] => return ([], [])
  | m :: ms =>
    if Run.ends stops depth m.kind then return ([], m :: ms)
    else do
      let inside ← depthAfter depth m.kind
      let (run, rest) ← cut stops inside ms
      return (m :: run, rest)

/-- Takes the run ahead and gives its text. -/
def run (stops : Kind → Bool) (opening : Mark) : SpanReader String := do
  let (marks, rest) ← check (cut stops 0 (← get).ahead)
  let words ← marks.mapM literal
  modify fun s => { s with ahead := rest }
  ensureOpen opening
  let m ← peek
  match m.kind with
  | .error cause => fail m (.lexical cause)
  | _ => return Run.joined words

/-! ## Tests -/

/-- The comparator of a test. -/
def comparator (subject : Subject) : SpanReader Comparator := do
  let m ← peek
  match comparator? subject m.kind with
  | some c =>
    let _ ← advance
    return c
  | none => refuse m (.invalidComparator subject <$> literal m)

/-- The value that a flag is compared with. -/
def flagValue : SpanReader String := do
  let m ← peek
  match m.kind with
  | .keyword .trueWord =>
    let _ ← advance
    return Test.flagSet
  | .keyword .falseWord =>
    let _ ← advance
    return Test.flagClear
  | .symbol .rightParen | .symbol .and | .symbol .or => fail m (.missingValue .flag)
  | _ => do
    let text ← literal m
    fail m (.invalidFlagValue text)

/-- The value that a variable is compared with. -/
def varValue (outer : Mark) : SpanReader String := do
  let m ← peek
  let value ← run isConnective outer
  if value = "" then fail m (.missingValue .var) else return value

/-- What stands in parentheses behind `flag` or `var`. -/
def operand (subject : Subject) (keyword outer : Mark) : SpanReader String := do
  let opening ← close (.symbol .leftParen) outer
  let text ← run (fun _ => false) opening
  if text = "" then fail keyword (.missingOperand subject)
  let _ ← consume (.symbol .rightParen)
  return text

/-- The subject that a keyword names. -/
def subjectOf (keyword : Mark) : Subject :=
  if keyword.kind = .keyword .flag then .flag else .var

/-- A test inside the parenthesis `outer`. -/
def test (outer : Mark) : SpanReader Test := do
  let keyword ← advance
  let subject := subjectOf keyword
  let operand ← operand subject keyword outer
  ensureOpen outer
  let comparator ← comparator subject
  ensureOpen outer
  let value ← match subject with
    | .flag => flagValue
    | .var => varValue outer
  return ⟨subject, operand, comparator, value⟩

/-! ## Terms and parentheses -/

/-- A term inside the parenthesis `outer`. -/
def term (nested : SpanReader Condition) (outer : Mark) : SpanReader Condition := do
  ensureOpen outer
  let m ← peek
  match m.kind with
  | .symbol .leftParen => nested
  | .keyword .flag | .keyword .var => return .test (← test outer)
  | _ => refuse m (.invalidTerm <$> literal m)

/-- The connective that a token stands for. -/
def connectiveOf (m : Mark) : Connective :=
  if m.kind = .symbol .and then .and else .or

/-- A connective and the term behind it. -/
def joinedTerm (nested : SpanReader Condition) (outer : Mark) :
    SpanReader (Connective × Condition) := do
  let m ← advance
  let right ← term nested outer
  return (connectiveOf m, right)

/-- Terms and connectives inside the parenthesis `outer`. -/
def terms (nested : SpanReader Condition) (outer : Mark) : SpanReader Condition := do
  let first ← term nested outer
  let later ← many isConnective fun _ => joinedTerm nested outer
  return joinLeft first later

/-- A condition in parentheses, in which parentheses nest less than `bound` deep. -/
def conditionWithin : Nat → SpanReader Condition
  | 0 => do
    let m ← peek
    refuse m (pure (.unexpected m.kind (.symbol .leftParen)))
  | bound + 1 => do
    let opening ← consume (.symbol .leftParen)
    let condition ← terms (conditionWithin bound) opening
    let _ ← close (.symbol .rightParen) opening
    return condition

/-- A condition in parentheses. -/
def condition : SpanReader Condition := do
  conditionWithin (← get).ahead.length

/-! ## Agreement -/

section Agreement

variable {src : String} {stop : Token} {s : ReadState}

theorem depthAfter_eq {stops : Kind → Bool} {depth : Nat} {k : Kind}
    (hends : Run.ends stops depth k = false) (hfew : depth + 1 < countLimit) :
    depthAfter depth k = .ok (Run.depthAfter depth k) := by
  unfold depthAfter
  split
  · exact Checked.countUp_eq hfew
  · -- outside all parentheses, this parenthesis would have ended the run
    cases depth with
    | zero => simp [Run.ends] at hends
    | succ depth => rfl
  · unfold Run.depthAfter
    split
    · contradiction
    · contradiction
    · rfl

theorem depthAfter_le (depth : Nat) (k : Kind) : Run.depthAfter depth k ≤ depth + 1 := by
  unfold Run.depthAfter
  split <;> omega

/-- **Parentheses are counted without a fault**, where tokens are no more than can be counted. -/
theorem cut_marks (stops : Kind → Bool) {depth : Nat} {ts : List Token}
    (hfew : depth + ts.length < countLimit) :
    cut stops depth (ts.map Token.mark) =
      .ok ((Run.spanRun stops depth ts).1.map Token.mark,
        (Run.spanRun stops depth ts).2.map Token.mark) := by
  induction ts generalizing depth with
  | nil => rfl
  | cons t ts ih =>
    rw [List.length_cons] at hfew
    rw [List.map_cons, cut, Run.spanRun, Token.kind_mark]
    split
    · rfl
    · next hends =>
      have hinside := depthAfter_le depth t.kind
      rw [depthAfter_eq (Bool.not_eq_true _ ▸ hends) (by omega)]
      change (cut stops (Run.depthAfter depth t.kind) (ts.map Token.mark) >>= _) = _
      rw [ih (by omega)]
      rfl

/-- A run is cut off what is ahead. -/
theorem agrees_cut (stops : Kind → Bool) {ts : List Token} (hs : SoundTokens src ts) :
    Same src (check (cut stops 0 (ts.map Token.mark)))
      (pure ((Run.spanRun stops 0 ts).1.map Token.mark,
        (Run.spanRun stops 0 ts).2.map Token.mark)) :=
  agrees_check (cut_marks stops (by rw [Nat.zero_add]; exact hs.few))

theorem sound_of_mem_spanRun (stops : Kind → Bool) {ts : List Token} (hs : SoundTokens src ts) :
    ∀ t ∈ (Run.spanRun stops 0 ts).1, t.Sound src := by
  intro t ht
  refine hs.sound t ?_
  rw [← Run.spanRun_append stops 0 ts]
  exact List.mem_append_left _ ht

theorem agrees_run (stops : Kind → Bool) (opening : Token) :
    Same src (run stops opening.mark) (Reader.run stops opening) := by
  intro stop s hstop hs
  have hwords := agrees_mapM fun t ht => agrees_literal (sound_of_mem_spanRun stops hs t ht)
  refine AgreesAt.get <| (agrees_cut stops hs stop s hstop hs).bind_left fun _ =>
    (hwords stop s hstop hs).bind_left fun _ => Agrees.behindSetAhead
      ((agrees_ensureOpen opening).bind fun _ _ => agrees_peek.bind fun t _ => ?_) hstop hs
      (Reader.spanRun_suffix stops s.ahead)
  rw [Token.kind_mark]
  cases t.kind with
  | error cause => exact agrees_fail t _
  | _ => exact same_pure rfl

/-! ### Tests -/

theorem agrees_comparator (subject : Subject) :
    Same src (comparator subject) (Reader.comparator subject) := by
  refine agrees_peek.bind fun t ht => ?_
  rw [Token.kind_mark]
  cases comparator? subject t.kind with
  | some c => exact agrees_advance.bind fun _ _ => same_pure rfl
  | none => exact agrees_refuseText ht

theorem agrees_flagValue : Same src flagValue Reader.flagValue := by
  refine agrees_peek.bind fun t ht => ?_
  split
  · next hkind => rw [← Token.kind_mark, hkind]; exact agrees_advance.bind fun _ _ => same_pure rfl
  · next hkind => rw [← Token.kind_mark, hkind]; exact agrees_advance.bind fun _ _ => same_pure rfl
  · next hkind => rw [← Token.kind_mark, hkind]; exact agrees_fail t _
  · next hkind => rw [← Token.kind_mark, hkind]; exact agrees_fail t _
  · next hkind => rw [← Token.kind_mark, hkind]; exact agrees_fail t _
  · split <;> first | contradiction | exact (agrees_literal ht).bind_left fun _ => agrees_fail t _

theorem agrees_varValue (outer : Token) :
    Same src (varValue outer.mark) (Reader.varValue outer) :=
  agrees_peek.bind fun t _ => (agrees_run _ outer).bind fun _ _ =>
    .ite (agrees_fail t _) (same_pure rfl)

theorem agrees_operand (subject : Subject) (keyword outer : Token) :
    Same src (operand subject keyword.mark outer.mark) (Reader.operand subject keyword outer) := by
  have hrest (text : String) : Same src
      (consume (.symbol .rightParen) >>= fun _ => pure text)
      (Reader.consume (.symbol .rightParen) >>= fun _ => pure text) :=
    (agrees_consume _).bind fun _ _ => same_pure rfl
  exact (agrees_close _ outer).bind fun opening _ => (agrees_run _ opening).bind fun text _ =>
    .ite (agrees_fail_bind keyword _) (hrest text)

theorem agrees_test (outer : Token) : Same src (test outer.mark) (Reader.test outer) := by
  refine agrees_advance.bind fun keyword _ => (agrees_operand _ keyword outer).bind fun _ _ =>
    (agrees_ensureOpen outer).bind fun _ _ => (agrees_comparator _).bind fun _ _ =>
      (agrees_ensureOpen outer).bind fun _ _ => ?_
  rw [show subjectOf keyword.mark = Reader.subjectOf keyword from rfl]
  cases Reader.subjectOf keyword with
  | flag => exact agrees_flagValue.bind fun _ _ => same_pure rfl
  | var => exact (agrees_varValue outer).bind fun _ _ => same_pure rfl

/-! ### Terms and parentheses -/

section Nested

variable {nested : SpanReader Condition} {nested' : Reader Condition}

theorem agrees_term (h : Same src nested nested') (outer : Token) :
    Same src (term nested outer.mark) (Reader.term nested' outer) := by
  refine (agrees_ensureOpen outer).bind fun _ _ => agrees_peek.bind fun t ht => ?_
  split
  · next hkind => rw [← Token.kind_mark, hkind]; exact h
  · next hkind => rw [← Token.kind_mark, hkind]; exact same_map Condition.test (agrees_test outer)
  · next hkind => rw [← Token.kind_mark, hkind]; exact same_map Condition.test (agrees_test outer)
  · split <;> first | contradiction | exact agrees_refuseText ht

theorem agrees_joinedTerm (h : Same src nested nested') (outer : Token) :
    Same src (joinedTerm nested outer.mark) (Reader.joinedTerm nested' outer) :=
  agrees_advance.bind fun _ _ => (agrees_term h outer).bind fun _ _ => same_pure rfl

theorem agrees_terms (h : Same src nested nested') (outer : Token) :
    Same src (terms nested outer.mark) (Reader.terms nested' outer) :=
  (agrees_term h outer).bind fun _ _ => (same_many fun _ => agrees_joinedTerm h outer).bind
    fun _ _ => same_pure rfl

end Nested

theorem agrees_conditionWithin (bound : Nat) :
    Same src (conditionWithin bound) (Reader.conditionWithin bound) := by
  induction bound with
  | zero => exact agrees_peek.bind fun t _ => agrees_refuse (same_pure rfl)
  | succ bound ih =>
    exact (agrees_consume _).bind fun opening _ => (agrees_terms ih opening).bind fun _ _ =>
      (agrees_close _ opening).bind fun _ _ => same_pure rfl

theorem agrees_condition : Same src condition Reader.condition :=
  agrees_ahead agrees_conditionWithin

end Agreement

end EventScript.SpanReader
