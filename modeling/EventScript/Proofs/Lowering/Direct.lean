import EventScript.Lowering.Program

/-!
# Lowering with the exits at hand

`Statement.lower` looks up where a jump goes in a table that every loop and switch adds to, and
counts labels in its state. Here the same steps are given by plain recursion: a construct hands the
places its jumps go to down to the statements inside of it (`Surroundings`), and the label numbers
of a statement follow from how many labels the ones before it take (`Statement.labels`).

* `Condition.steps`: the steps of a condition, and `Condition.skips` for its labels.
* `Statement.steps`: the steps of a statement of a body.
* `Piece`: what the top level of a program comes to, scripts and single items, and `Piece.steps`.
* `Program.directSteps`: the steps of a program.

A declaration has no place in a body and no steps there.
-/

namespace EventScript

open Lowering

/-! ## What surrounds a statement -/

/-- The script that a statement belongs to, its owner, and where the jumps in it go. -/
structure Surroundings where
  script : String
  owner : Span
  onLeave : Option String
  onAgain : Option String

namespace Surroundings

/-- Directly inside a script. -/
def ofScript (script : String) (owner : Span) : Surroundings :=
  ⟨script, owner, none, none⟩

/-- Inside a loop that ends at `finish` and tests its condition at `test`. -/
def inLoop (w : Surroundings) (test finish : String) : Surroundings :=
  { w with onLeave := some finish, onAgain := some test }

/-- Inside a switch that ends at `finish`. -/
def inSwitch (w : Surroundings) (finish : String) : Surroundings :=
  { w with onLeave := some finish }

/-- Where a jump goes. -/
def exit (w : Surroundings) : JumpKind → Option String
  | .leave => w.onLeave
  | .again => w.onAgain

/-- The generated label of number `n`. -/
def label (w : Surroundings) (n : Nat) : String :=
  labelName w.script n

/-- The generated labels of the `k` numbers behind `n`. -/
def labelsFrom (w : Surroundings) (n k : Nat) : List String :=
  (List.range' (n + 1) k).map w.label

/-- An item that belongs to the owner of the script. -/
def item (w : Surroundings) (i : Item) : Step :=
  .emit i w.owner

/-- A generated label in its place. -/
def place (w : Surroundings) (name : String) : Step :=
  w.item (.label name .fileLocal)

/-- A jump to a label. -/
def goto (w : Surroundings) (name : String) : Step :=
  w.item (.goto name)

end Surroundings

/-! ## The items of steps -/

namespace Lowering

@[simp] theorem items_nil : items [] = [] := rfl

@[simp] theorem items_append (a b : List Step) : items (a ++ b) = items a ++ items b :=
  List.filterMap_append

@[simp] theorem items_allocate (label : String) (later : List Step) :
    items (.allocate label :: later) = items later := rfl

@[simp] theorem items_item (w : Surroundings) (i : Item) (later : List Step) :
    items (w.item i :: later) = i :: items later := rfl

@[simp] theorem items_place (w : Surroundings) (name : String) (later : List Step) :
    items (w.place name :: later) = .label name .fileLocal :: items later := rfl

@[simp] theorem items_map_allocate (labels : List String) :
    items (labels.map .allocate) = [] := by
  induction labels with
  | nil => rfl
  | cons label later ih => exact ih

end Lowering

/-! ## Conditions -/

namespace Condition

/-- Number of labels that it takes to jump when the condition comes out as `jumpWhen`. -/
def skips (jumpWhen : Bool) : Condition → Nat
  | .test _ => 0
  | .join l c r =>
    if jumpWhen = settledBy c then l.skips jumpWhen + r.skips jumpWhen
    else 1 + l.skips (settledBy c) + r.skips jumpWhen

/-- The steps that go to `target` when the condition comes out as `jumpWhen`, behind `n` labels. -/
def steps (w : Surroundings) (jumpWhen : Bool) (target : String) (n : Nat) :
    Condition → List Step
  | .test t => [w.item (.branch (if jumpWhen then t else t.negated) target)]
  | .join l c r =>
    if jumpWhen = settledBy c then
      l.steps w jumpWhen target n ++ r.steps w jumpWhen target (n + l.skips jumpWhen)
    else
      .allocate (w.label (n + 1)) :: l.steps w (settledBy c) (w.label (n + 1)) (n + 1)
        ++ r.steps w jumpWhen target (n + 1 + l.skips (settledBy c))
        ++ [w.place (w.label (n + 1))]

end Condition

/-! ## Parts of statements -/

/-- Number of labels that one part of a conditional takes in front of its body. -/
def partLabels (condition : Condition) (last : Bool) : Nat :=
  (if last then 0 else 1) + condition.skips false

/-- The steps of one part of a conditional with the body `inside`. -/
def partSteps (w : Surroundings) (n : Nat) (condition : Condition) (last : Bool) (finish : String)
    (inside : List Step) : List Step :=
  if last then condition.steps w false finish n ++ inside
  else
    .allocate (w.label (n + 1)) :: condition.steps w false (w.label (n + 1)) (n + 1) ++ inside
      ++ [w.goto finish, w.place (w.label (n + 1))]

/-- The test for a case of a switch. -/
def caseTestSteps (w : Surroundings) (operand : String) : CaseLabel × String → List Step
  | (.value v, label) => [w.item (.branch ⟨.var, operand, .equal, v⟩ label)]
  | (.default, _) => []

/-! ## Statements of a body -/

namespace Statement

mutual

/-- Number of labels that a statement takes. -/
def labels : Statement → Nat
  | .block ⟨body, _⟩ => labelsAll body
  | .conditional ⟨condition, ⟨body, _⟩⟩ elifs (some ⟨other, _⟩) _ =>
    1 + (partLabels condition false + labelsAll body) + labelsElifs true elifs + labelsAll other
  | .conditional ⟨condition, ⟨body, _⟩⟩ elifs none _ =>
    1 + (partLabels condition elifs.isEmpty + labelsAll body) + labelsElifs false elifs
  | .loop .testFirst _ ⟨condition, ⟨body, _⟩⟩ _ => 2 + condition.skips false + labelsAll body
  | .loop .testLast _ ⟨condition, ⟨body, _⟩⟩ _ => 3 + labelsAll body + condition.skips true
  | .switch _ _ cases _ => cases.length + 1 + labelsCases cases
  | _ => 0

/-- Number of labels that statements take. -/
def labelsAll : List Statement → Nat
  | [] => 0
  | s :: later => labels s + labelsAll later

/-- Number of labels that the later parts of a conditional take. -/
def labelsElifs (more : Bool) : List (Guarded Statement) → Nat
  | [] => 0
  | ⟨condition, ⟨body, _⟩⟩ :: later =>
    partLabels condition (later.isEmpty && !more) + labelsAll body + labelsElifs more later

/-- Number of labels that the bodies of cases take. -/
def labelsCases : List (Case Statement) → Nat
  | [] => 0
  | ⟨_, ⟨body, _⟩⟩ :: later => labelsAll body + labelsCases later

end

mutual

/-- The steps of a statement behind `n` labels. -/
def steps (w : Surroundings) (n : Nat) : Statement → List Step
  | .block ⟨body, _⟩ => stepsAll w n body
  | .command name args => [w.item (.command name.name args)]
  | .conditional ⟨condition, ⟨body, _⟩⟩ elifs (some ⟨other, _⟩) _ =>
    let finish := w.label (n + 1)
    let m := n + 1 + partLabels condition false
    .allocate finish
      :: partSteps w (n + 1) condition false finish (stepsAll w m body)
      ++ stepsElifs w finish true (m + labelsAll body) elifs
      ++ stepsAll w (m + labelsAll body + labelsElifs true elifs) other
      ++ [w.place finish]
  | .conditional ⟨condition, ⟨body, _⟩⟩ elifs none _ =>
    let finish := w.label (n + 1)
    let m := n + 1 + partLabels condition elifs.isEmpty
    .allocate finish
      :: partSteps w (n + 1) condition elifs.isEmpty finish (stepsAll w m body)
      ++ stepsElifs w finish false (m + labelsAll body) elifs
      ++ [w.place finish]
  | .loop .testFirst _ ⟨condition, ⟨body, _⟩⟩ _ =>
    let test := w.label (n + 1)
    let finish := w.label (n + 2)
    [.allocate test, .allocate finish, w.place test]
      ++ condition.steps w false finish (n + 2)
      ++ stepsAll (w.inLoop test finish) (n + 2 + condition.skips false) body
      ++ [w.goto test, w.place finish]
  | .loop .testLast _ ⟨condition, ⟨body, _⟩⟩ _ =>
    let top := w.label (n + 1)
    let test := w.label (n + 2)
    let finish := w.label (n + 3)
    [.allocate top, .allocate test, .allocate finish, w.place top]
      ++ stepsAll (w.inLoop test finish) (n + 3) body
      ++ [w.place test]
      ++ condition.steps w true top (n + 3 + labelsAll body)
      ++ [w.place finish]
  | .jump kind _ span =>
    match w.exit kind with
    | some label => [w.goto label]
    | none => [.fail (.error ⟨span, .unresolvedTarget kind⟩)]
  | .switch _ operand cases _ =>
    let labels := w.labelsFrom n cases.length
    let finish := w.label (n + cases.length + 1)
    let keys := (cases.map (·.label)).zip labels
    labels.map .allocate ++ [.allocate finish]
      ++ keys.flatMap (caseTestSteps w operand)
      ++ [w.goto (fallback finish keys)]
      ++ stepsCases (w.inSwitch finish) finish (n + cases.length + 1) labels cases
      ++ [w.place finish]
  | _ => []

/-- The steps of statements, one after the other. -/
def stepsAll (w : Surroundings) (n : Nat) : List Statement → List Step
  | [] => []
  | s :: later => steps w n s ++ stepsAll w (n + labels s) later

/-- The steps of the later parts of a conditional; `more` tells whether an `else` part follows. -/
def stepsElifs (w : Surroundings) (finish : String) (more : Bool) (n : Nat) :
    List (Guarded Statement) → List Step
  | [] => []
  | ⟨condition, ⟨body, _⟩⟩ :: later =>
    let last := later.isEmpty && !more
    let m := n + partLabels condition last
    partSteps w n condition last finish (stepsAll w m body)
      ++ stepsElifs w finish more (m + labelsAll body) later

/-- The steps of the bodies of cases, each under its label. -/
def stepsCases (w : Surroundings) (finish : String) (n : Nat) :
    List String → List (Case Statement) → List Step
  | label :: labels, ⟨_, ⟨body, _⟩⟩ :: later =>
    w.place label :: stepsAll w n body ++ [w.goto finish]
      ++ stepsCases w finish (n + labelsAll body) labels later
  | _, _ => []

end

/-- The first part of a conditional is lowered like the later ones. -/
theorem steps_conditional_none (w : Surroundings) (n : Nat) (first : Guarded Statement)
    (elifs : List (Guarded Statement)) (span : Span) :
    steps w n (.conditional first elifs none span) =
      .allocate (w.label (n + 1))
        :: (stepsElifs w (w.label (n + 1)) false (n + 1) (first :: elifs)
          ++ [w.place (w.label (n + 1))]) := by
  simp [steps, stepsElifs]

theorem steps_conditional_some (w : Surroundings) (n : Nat) (first : Guarded Statement)
    (elifs : List (Guarded Statement)) (other : Block Statement) (span : Span) :
    steps w n (.conditional first elifs (some other) span) =
      .allocate (w.label (n + 1))
        :: (stepsElifs w (w.label (n + 1)) true (n + 1) (first :: elifs)
          ++ (stepsAll w (n + 1 + labelsElifs true (first :: elifs)) other.statements
            ++ [w.place (w.label (n + 1))])) := by
  simp [steps, stepsElifs, labelsElifs, Nat.add_assoc]

end Statement

/-! ## The top level -/

/-- A script of a program. One that was written in place of its name is `promoted`. -/
structure Script where
  name : String
  scope : Scope
  owner : Span
  promoted : Bool
  body : List Statement

namespace Script

/-- The surroundings of the statements of the script. -/
def surroundings (s : Script) : Surroundings :=
  .ofScript s.name s.owner

/-- The label of the script and the steps of its body. -/
def opening (s : Script) (n : Nat) : List Step :=
  s.surroundings.item (.label s.name s.scope) :: Statement.stepsAll s.surroundings n s.body

/-- The steps of the script behind `n` labels. -/
def steps (s : Script) (n : Nat) : List Step :=
  if leaves (s.opening n) then s.opening n
  else s.opening n ++ [s.surroundings.item (.command "end" [])]

end Script

/-- What a declaration comes to: scripts, and items that stand on their own. An item without an
owner belongs to the last declaration that was met. -/
inductive Piece where
  | script (script : Script)
  | item (item : Item) (owner : Option Span)

/-- The script that a body written in place of a name becomes. -/
def Lowering.Promoted.script (p : Promoted) : Script :=
  ⟨p.name, .fileLocal, p.owner, true, p.body⟩

/-- What a map scripts declaration and its tables say, without the scripts. -/
def tablePieces (name : Ident) (scope : Scope) (entries : List (MapEntry Statement))
    (tables : List (MapTable Statement)) : List Piece :=
  let map := name.name
  let rows := entries.map (entryRow map) ++ tables.map (tableRow map)
  .item (.data map scope (.mapScripts rows)) (some name.span) :: tables.map fun t =>
    let table := triggerName map t.trigger.name
    .item (.data table .fileLocal (.table (compareRows table 0 t.rows))) (some t.trigger.span)

/-- The scripts that a map scripts declaration has written in place, entries before tables. -/
def promotedScripts (map : String) (entries : List (MapEntry Statement))
    (tables : List (MapTable Statement)) : List Script :=
  (entries.flatMap (promotedEntry map) ++ tables.flatMap (promotedTable map)).map Promoted.script

/-- The pieces of a declaration. A text has none, since all texts come last. -/
def Statement.pieces : Statement → List Piece
  | .script name scope body => [.script ⟨name.name, scope, name.span, false, body.statements⟩]
  | .raw content scope _ => [.item (.raw content scope) none]
  | .movement name steps scope =>
    [.item (.data name.name scope (.movement steps)) (some name.span)]
  | .mart name items scope => [.item (.data name.name scope (.mart items)) (some name.span)]
  | .mapScripts name scope entries tables =>
    tablePieces name scope entries tables
      ++ (promotedScripts name.name entries tables).map .script
  | _ => []

namespace Piece

/-- The steps of a piece behind `n` labels, when `owner` is the last declaration that was met. -/
def steps (owner : Span) (n : Nat) : Piece → List Step
  | .script s => if s.promoted then .promote s.name :: s.steps n else s.steps n
  | .item i own => [.emit i (own.getD owner)]

/-- Number of labels that a piece takes. -/
def labels : Piece → Nat
  | .script s => Statement.labelsAll s.body
  | .item .. => 0

/-- The last declaration that was met behind a piece. -/
def lastOwner (owner : Span) : Piece → Span
  | .script s => s.owner
  | .item _ own => own.getD owner

end Piece

/-- The steps of pieces, one after the other. -/
def pieceSteps (owner : Span) (n : Nat) : List Piece → List Step
  | [] => []
  | p :: later => p.steps owner n ++ pieceSteps (p.lastOwner owner) (n + p.labels) later

/-- Number of labels that pieces take. -/
def pieceLabels : List Piece → Nat
  | [] => 0
  | p :: later => p.labels + pieceLabels later

namespace Program

/-- The pieces of a program. -/
def pieces (p : Program) : List Piece :=
  p.statements.flatMap Statement.pieces

/-- The scripts of a program, those written in place of their names included. -/
def scripts (p : Program) : List Script :=
  p.pieces.filterMap fun
    | .script s => some s
    | .item .. => none

/-- The steps of a program behind `n` labels. -/
def directSteps (p : Program) (n : Nat) : List Step :=
  pieceSteps .nowhere n p.pieces ++ Lowering.texts (p.statements.filterMap declaredText?) p.texts

end Program
end EventScript
