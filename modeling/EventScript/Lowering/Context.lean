import EventScript.Lowering.Step

/-!
# What lowering keeps track of

Lowering a statement takes the context and gives steps. The context says which script is being
lowered, which declaration owns what is defined, how many labels were named, and where the jumps
of each construct go.
-/

namespace EventScript

/-- Where the jumps of a loop or switch go. -/
structure Exits where
  onLeave : String
  /-- A switch has no such place. -/
  onAgain : Option String

/-- The place that a jump goes to. -/
def Exits.of (x : Exits) : JumpKind → Option String
  | .leave => some x.onLeave
  | .again => x.onAgain

namespace Lowering

/-- What lowering keeps track of. -/
structure Context where
  /-- The script that generated labels are named after. -/
  script : String
  /-- The declaration that owns what is defined. -/
  origin : Span
  /-- The number of labels named so far, in this program or before it. -/
  labels : Nat
  /-- The exits of the constructs met so far, the last one first. -/
  exits : List (ConstructId × Exits)

end Lowering

/-- Lowers part of a program. -/
abbrev Lowering (α : Type) : Type :=
  StateM Lowering.Context α

namespace Lowering

/-- The context at the start of a program, when `labels` labels were named before. -/
def Context.initial (labels : Nat) : Context :=
  ⟨"", .nowhere, labels, []⟩

/-- The generated label of number `n` in a script. -/
def labelName (script : String) (n : Nat) : String :=
  script ++ "_" ++ toString n

/-- Names a new label. -/
def freshLabel : Lowering String :=
  modifyGet fun c => (labelName c.script (c.labels + 1), { c with labels := c.labels + 1 })

/-- Makes `owner` the declaration that owns what is defined from here on. -/
def setOrigin (owner : Span) : Lowering PUnit :=
  modify fun c => { c with origin := owner }

/-- Goes on in another script. -/
def enterScript (name : String) (owner : Span) : Lowering PUnit :=
  modify fun c => { c with script := name, origin := owner }

/-- Notes where the jumps of a construct go. -/
def setExits (id : ConstructId) (exits : Exits) : Lowering PUnit :=
  modify fun c => { c with exits := (id, exits) :: c.exits }

/-- The place that a jump to the construct `target` goes to. -/
def Context.exit? (c : Context) (kind : JumpKind) (target : Option ConstructId) : Option String := do
  let id ← target
  let exits ← c.exits.lookup id
  exits.of kind

/-! ## Single items -/

/-- Adds an item. -/
def emit (item : Item) : Lowering (List Step) := do
  return [.emit item (← get).origin]

/-- Places a generated label. -/
def placeLabel (name : String) : Lowering (List Step) :=
  emit (.label name .fileLocal)

/-- Jumps to a label. -/
def goto (target : String) : Lowering (List Step) :=
  emit (.goto target)

/-- Lowers a `break` or `continue`, which fails unless its target is known. -/
def jump (kind : JumpKind) (target : Option ConstructId) (span : Span) : Lowering (List Step) := do
  match (← get).exit? kind target with
  | some label => goto label
  | none => return [.fail (.error ⟨span, .unresolvedTarget kind⟩)]

/-! ## Conditions -/

/-- The outcome of an operand that settles the whole condition: `&&` is settled by the first
operand that fails, `||` by the first that holds. -/
def settledBy : Connective → Bool
  | .and => false
  | .or => true

/-- Goes to `target` if the condition comes out as `jumpWhen`, and on with what follows if not.
Operands are tested from left to right, for as long as the outcome is open. -/
def branch (jumpWhen : Bool) (target : String) : Condition → Lowering (List Step)
  | .test t => emit (.branch (if jumpWhen then t else t.negated) target)
  | .join left connective right => do
    if jumpWhen = settledBy connective then
      let l ← branch jumpWhen target left
      let r ← branch jumpWhen target right
      return l ++ r
    else
      let skip ← freshLabel
      let l ← branch (settledBy connective) skip left
      let r ← branch jumpWhen target right
      let behind ← placeLabel skip
      return .allocate skip :: l ++ r ++ behind

end Lowering
end EventScript
