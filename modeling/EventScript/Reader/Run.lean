import EventScript.Reader.Basic

/-!
# Runs of tokens

Operands, values and command arguments are not understood, only delimited: each is a run of tokens
in which parentheses are balanced. `spanRun` cuts off the longest such run. It ends at a
parenthesis that closes nothing, at an error token, or at the first token outside all parentheses
that the caller names.

A run is kept as the text of its tokens, joined by single spaces (`joined`).

Results:
* `spanRun_append`: cutting off a run loses no token.
* `ends_of_spanRun_rest`: the token behind a run, if there is one, ends it.
-/

namespace EventScript

namespace Run

/-- Whether a run ends in front of a token of kind `k`, inside of `depth` parentheses. -/
def ends (stops : Kind → Bool) (depth : Nat) (k : Kind) : Bool :=
  k.isError || (depth == 0 && (k == .symbol .rightParen || stops k))

/-- The number of open parentheses behind a token of kind `k`. -/
def depthAfter (depth : Nat) : Kind → Nat
  | .symbol .leftParen => depth + 1
  | .symbol .rightParen => depth - 1
  | _ => depth

/-- Splits off the run that `ts` starts with, inside of `depth` parentheses. -/
def spanRun (stops : Kind → Bool) (depth : Nat) : List Token → List Token × List Token
  | [] => ([], [])
  | t :: ts =>
    if ends stops depth t.kind then ([], t :: ts)
    else
      let (run, rest) := spanRun stops (depthAfter depth t.kind) ts
      (t :: run, rest)

theorem spanRun_append (stops : Kind → Bool) (depth : Nat) (ts : List Token) :
    (spanRun stops depth ts).1 ++ (spanRun stops depth ts).2 = ts := by
  induction ts generalizing depth with
  | nil => rfl
  | cons t ts ih =>
    unfold spanRun
    split
    · rfl
    · exact congrArg (t :: ·) (ih _)

/-- The number of open parentheses behind `ts`. -/
def depthBehind (depth : Nat) (ts : List Token) : Nat :=
  ts.foldl (fun d t => depthAfter d t.kind) depth

theorem ends_of_spanRun_rest (stops : Kind → Bool) (depth : Nat) (ts : List Token) {t : Token}
    {later : List Token} (h : (spanRun stops depth ts).2 = t :: later) :
    ends stops (depthBehind depth (spanRun stops depth ts).1) t.kind = true := by
  induction ts generalizing depth with
  | nil => exact absurd h (by simp [spanRun])
  | cons u ts ih =>
    unfold spanRun at h ⊢
    split at h
    · next hu =>
      obtain ⟨rfl, rfl⟩ := List.cons.inj h
      rw [if_pos hu]
      exact hu
    · next hu =>
      rw [if_neg hu]
      exact ih (depthAfter depth u.kind) h

/-- The words of a run, joined by single spaces. -/
def joined (words : List String) : String :=
  " ".intercalate words

end Run

namespace Reader

/-- Takes the run ahead and gives its text. The text may not end behind it, which would leave
`opening` without its closing delimiter, and no error token may end it. -/
def run (stops : Kind → Bool) (opening : Token) : Reader String := do
  let (words, rest) := Run.spanRun stops 0 (← get).ahead
  modify fun s => { s with ahead := rest }
  ensureOpen opening
  let t ← peek
  match t.kind with
  | .error cause => fail t (.lexical cause)
  | _ => return Run.joined (words.map Token.text)

end Reader
end EventScript
