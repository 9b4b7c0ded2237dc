import EventScript.Assembly.Item

/-!
# Lowering steps

A program is lowered into steps: the items to write, and in between what is worth noting and where
lowering cannot go on. The steps are then carried out one after the other up to the first that
fails, and what was carried out until then is all that takes effect.

A step also fails if its item defines a name that is defined already. The error is placed at the
owner of the item, which is the declaration that the item belongs to.

Results:
* `exists_carryOut_fst_append`: what is carried out is a first part of the steps.
* `carryOut_fst_of_failure_eq_none`: without a failure all steps are carried out.
-/

namespace EventScript

/-- Why a program cannot be lowered, where the user is to blame. -/
inductive LoweringError where
  /-- A jump whose target is not known or not around it. -/
  | unresolvedTarget (kind : JumpKind)
  | duplicateText (name : String)
  | duplicateLabel (name : String)
deriving DecidableEq

/-- What the user is told. -/
def LoweringError.message : LoweringError → String
  | .unresolvedTarget kind => "`" ++ kind.display ++ "` has no resolved target"
  | .duplicateText name => "text '" ++ name ++ "' is defined more than once"
  | .duplicateLabel name => "label '" ++ name ++ "' is defined more than once"

/-- Why lowering stops. -/
inductive LoweringFailure where
  | error (error : Located LoweringError)
  /-- A text or map scripts declaration inside a body. No source text reads as such a program. -/
  | misplacedDeclaration
deriving DecidableEq

/-- One step of lowering. -/
inductive Step where
  /-- A label has been named; it is placed by a later step. -/
  | allocate (label : String)
  /-- A map script that is written in place becomes a script of this name. -/
  | promote (script : String)
  /-- The next item of the output, and the declaration that it belongs to. -/
  | emit (item : Item) (owner : Span)
  | fail (failure : LoweringFailure)
deriving DecidableEq

namespace Step

/-- The item that a step adds to the output. -/
def item? : Step → Option Item
  | .emit item _ => some item
  | _ => none

/-- The label that a step names. -/
def allocated? : Step → Option String
  | .allocate label => some label
  | _ => none

end Step

namespace Lowering

/-- The items that steps add to the output. -/
def items (steps : List Step) : List Item :=
  steps.filterMap Step.item?

/-- Number of labels that steps name. -/
def allocations (steps : List Step) : Nat :=
  (steps.filterMap Step.allocated?).length

/-- The failure of a step behind which `defined` are the names in use. -/
def failure? (defined : List String) : Step → Option LoweringFailure
  | .fail failure => some failure
  | .emit item owner =>
    match item.definedName? with
    | some name =>
      if name ∈ defined then some (.error ⟨owner, .duplicateLabel name⟩) else none
    | none => none
  | _ => none

/-- The names in use behind a step. -/
def definedAfter (defined : List String) (s : Step) : List String :=
  match s.item? with
  | some item => item.definedName?.toList ++ defined
  | none => defined

/-- Carries steps out up to the first that fails: the steps carried out, and the failure. -/
def carryOut (defined : List String) : List Step → List Step × Option LoweringFailure
  | [] => ([], none)
  | s :: later =>
    match failure? defined s with
    | some failure => ([], some failure)
    | none =>
      let (done, failure) := carryOut (definedAfter defined s) later
      (s :: done, failure)

theorem exists_carryOut_fst_append (defined : List String) (steps : List Step) :
    ∃ rest, (carryOut defined steps).1 ++ rest = steps := by
  induction steps generalizing defined with
  | nil => exact ⟨[], rfl⟩
  | cons s later ih =>
    unfold carryOut
    split
    · exact ⟨s :: later, rfl⟩
    · obtain ⟨rest, h⟩ := ih (definedAfter defined s)
      exact ⟨rest, congrArg (s :: ·) h⟩

theorem carryOut_fst_of_failure_eq_none (defined : List String) (steps : List Step)
    (h : (carryOut defined steps).2 = none) : (carryOut defined steps).1 = steps := by
  induction steps generalizing defined with
  | nil => rfl
  | cons s later ih =>
    unfold carryOut at h ⊢
    split at h
    · exact absurd h (by simp)
    · exact congrArg (s :: ·) (ih _ h)

end Lowering
end EventScript
