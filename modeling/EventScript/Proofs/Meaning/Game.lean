import EventScript.Condition

/-!
# The game

Neither a source text nor an assembly file says what a flag is or what a command does. `Game` takes
that as given: a game answers questions about its state and carries commands out. What can be seen
of a run is the list of its events, and these are what two meanings of a script have to agree in.

Results: `Test.query_negated` and `Test.holds_negated`, by which a test may be turned round.
-/

namespace EventScript

universe u

/-- What a test asks. -/
inductive Query where
  | flag (name : String)
  | comparison (operand value : String)
deriving DecidableEq

/-- A game whose states are of type `σ`. -/
structure Game (σ : Type u) where
  /-- Whether a flag is set. -/
  flag : σ → String → Bool
  /-- How an operand compares with a value. -/
  compare : σ → String → String → Ordering
  /-- The state behind a command. -/
  perform : String → List String → σ → σ

/-- What can be seen of a run. -/
inductive Event where
  | asked (query : Query)
  | performed (command : String) (args : List String)
deriving DecidableEq

namespace Comparator

/-- Whether the comparator holds if the comparison comes out as `o`. -/
def holds : Comparator → Ordering → Bool
  | .equal, o => o == .eq
  | .notEqual, o => o != .eq
  | .less, o => o == .lt
  | .lessEqual, o => o != .gt
  | .greater, o => o == .gt
  | .greaterEqual, o => o != .lt

theorem holds_negated (c : Comparator) (o : Ordering) : c.negated.holds o = !c.holds o := by
  cases c <;> cases o <;> rfl

end Comparator

namespace Test

variable {σ : Type u}

/-- What the test asks. -/
def query (t : Test) : Query :=
  match t.subject with
  | .flag => .flag t.operand
  | .var => .comparison t.operand t.value

/-- Whether the test holds. A flag is compared for equality, whatever the comparator. -/
def holds (g : Game σ) (s : σ) (t : Test) : Bool :=
  match t.subject with
  | .flag => g.flag s t.operand == (t.value == flagSet)
  | .var => t.comparator.holds (g.compare s t.operand t.value)

theorem query_negated (t : Test) : t.negated.query = t.query := by
  obtain ⟨subject, operand, comparator, value⟩ := t
  cases subject with
  | flag => rfl
  | var => rfl

theorem holds_negated (g : Game σ) (s : σ) (t : Test) : t.negated.holds g s = !t.holds g s := by
  obtain ⟨subject, operand, comparator, value⟩ := t
  cases subject with
  | var => exact comparator.holds_negated _
  | flag =>
    by_cases hset : value = flagSet
    · simp [negated, holds, hset, flagSet, flagClear]
    · have hclear : (value == flagSet) = false := by simpa using hset
      simp [negated, holds, hset, hclear]

end Test
end EventScript
