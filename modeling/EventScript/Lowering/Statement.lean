import EventScript.Lowering.Context

/-!
# Lowering statements

Structured control flow becomes labels and jumps. Each construct has a shape of its own, in which
the bodies stand where they are lowered:

* a conditional: each condition jumps to the next part if it fails, and each body but the last
  jumps to the end;
* a loop that tests first: the test, the body, a jump back to the test;
* a loop that tests last: the body, the test, which jumps back to the body;
* a switch: a test for each case, a jump to the default case or to the end, then the bodies, each
  of which jumps to the end.

A script starts with its label and ends with `end`, unless control leaves it there anyway.
-/

namespace EventScript

namespace Lowering

/-! ## Shapes -/

/-- Whether control leaves behind the last item of `steps`. -/
def leaves (steps : List Step) : Bool :=
  (items steps).getLast?.any Item.leaves

/-- The shape of a script; `owner` is the declaration that makes it a script. -/
def script (name : String) (scope : Scope) (owner : Span) (body : Lowering (List Step)) :
    Lowering (List Step) := do
  enterScript name owner
  let start ← emit (.label name scope)
  let inside ← body
  let steps := start ++ inside
  if leaves steps then
    return steps
  else
    return steps ++ (← emit (.command "end" []))

/-- The shape of one part of a conditional. The last part goes on at the end of the conditional by
itself, and its condition jumps there if it fails. -/
def part (condition : Condition) (last : Bool) (finish : String) (body : Lowering (List Step)) :
    Lowering (List Step) := do
  if last then
    let test ← branch false finish condition
    let inside ← body
    return test ++ inside
  else
    let next ← freshLabel
    let test ← branch false next condition
    let inside ← body
    let away ← goto finish
    let behind ← placeLabel next
    return .allocate next :: test ++ inside ++ away ++ behind

/-- The shape of a loop that tests its condition first. -/
def whileLoop (id : ConstructId) (condition : Condition) (body : Lowering (List Step)) :
    Lowering (List Step) := do
  let test ← freshLabel
  let finish ← freshLabel
  setExits id ⟨finish, some test⟩
  let start ← placeLabel test
  let check ← branch false finish condition
  let inside ← body
  let back ← goto test
  let behind ← placeLabel finish
  return .allocate test :: .allocate finish :: start ++ check ++ inside ++ back ++ behind

/-- The shape of a loop that tests its condition last. -/
def doLoop (id : ConstructId) (condition : Condition) (body : Lowering (List Step)) :
    Lowering (List Step) := do
  let top ← freshLabel
  let test ← freshLabel
  let finish ← freshLabel
  setExits id ⟨finish, some test⟩
  let start ← placeLabel top
  let inside ← body
  let again ← placeLabel test
  let check ← branch true top condition
  let behind ← placeLabel finish
  return .allocate top :: .allocate test :: .allocate finish ::
    start ++ inside ++ again ++ check ++ behind

/-- Lowers a loop by its style. -/
def loop : LoopStyle → ConstructId → Condition → Lowering (List Step) → Lowering (List Step)
  | .testFirst => whileLoop
  | .testLast => doLoop

/-- The test for a case of a switch over `operand`; the default case has none. -/
def caseTest (operand label : String) : CaseLabel → Lowering (List Step)
  | .value v => emit (.branch ⟨.var, operand, .equal, v⟩ label)
  | .default => return []

/-- The tests for the cases of a switch, each jumping to the label of its case. -/
def caseTests (operand : String) : List (CaseLabel × String) → Lowering (List Step)
  | [] => return []
  | (key, label) :: later => do
    let test ← caseTest operand label key
    let others ← caseTests operand later
    return test ++ others

/-- Where a switch goes if no value applies: to its last default case, or to the end. -/
def fallback (finish : String) (cases : List (CaseLabel × String)) : String :=
  cases.foldl (fun found (key, label) => if key = .default then label else found) finish

/-- The shape of a switch. `bodies` lowers the bodies of the cases, given the labels of the cases
and the end of the switch. -/
def switch (id : ConstructId) (operand : String) (keys : List CaseLabel)
    (bodies : String → List String → Lowering (List Step)) : Lowering (List Step) := do
  let labels ← keys.mapM fun _ => freshLabel
  let finish ← freshLabel
  setExits id ⟨finish, none⟩
  let cases := keys.zip labels
  let tests ← caseTests operand cases
  let other ← goto (fallback finish cases)
  let inside ← bodies finish labels
  let behind ← placeLabel finish
  return labels.map .allocate ++ .allocate finish :: tests ++ other ++ inside ++ behind

/-- The shape of one case: its label, its body, and a jump to the end of the switch. -/
def caseBody (label finish : String) (body : Lowering (List Step)) : Lowering (List Step) := do
  let start ← placeLabel label
  let inside ← body
  let away ← goto finish
  return start ++ inside ++ away

/-- A data block that a declaration owns. -/
def data (name : Ident) (scope : Scope) (payload : Payload) : Lowering (List Step) := do
  setOrigin name.span
  emit (.data name.name scope payload)

end Lowering

open Lowering

namespace Statement

mutual

/-- Lowers a statement of a body. -/
def lower : Statement → Lowering (List Step)
  | .script name scope ⟨body, _⟩ =>
    Lowering.script name.name scope name.span (lowerAll body)
  | .block ⟨body, _⟩ => lowerAll body
  | .command name args => emit (.command name.name args)
  | .raw content scope _ => emit (.raw content scope)
  | .text _ | .mapScripts .. => return [.fail .misplacedDeclaration]
  | .movement name steps scope => data name scope (.movement steps)
  | .mart name items scope => data name scope (.mart items)
  | .conditional ⟨condition, ⟨body, _⟩⟩ elifs (some ⟨other, _⟩) _ => do
    let finish ← freshLabel
    let first ← part condition false finish (lowerAll body)
    let later ← lowerElifs finish true elifs
    let otherwise ← lowerAll other
    let behind ← placeLabel finish
    return .allocate finish :: first ++ later ++ otherwise ++ behind
  | .conditional ⟨condition, ⟨body, _⟩⟩ elifs none _ => do
    let finish ← freshLabel
    let first ← part condition elifs.isEmpty finish (lowerAll body)
    let later ← lowerElifs finish false elifs
    let behind ← placeLabel finish
    return .allocate finish :: first ++ later ++ behind
  | .loop style id ⟨condition, ⟨body, _⟩⟩ _ => Lowering.loop style id condition (lowerAll body)
  | .jump kind target span => Lowering.jump kind target span
  | .switch id operand cases _ =>
    Lowering.switch id operand (cases.map (·.label)) fun finish labels =>
      lowerCases finish labels cases

/-- Lowers statements, one after the other. -/
def lowerAll : List Statement → Lowering (List Step)
  | [] => return []
  | s :: later => do
    let first ← lower s
    let others ← lowerAll later
    return first ++ others

/-- Lowers the later parts of a conditional; `more` tells whether an `else` part follows them. -/
def lowerElifs (finish : String) (more : Bool) :
    List (Guarded Statement) → Lowering (List Step)
  | [] => return []
  | ⟨condition, ⟨body, _⟩⟩ :: later => do
    let first ← part condition (later.isEmpty && !more) finish (lowerAll body)
    let others ← lowerElifs finish more later
    return first ++ others

/-- Lowers the bodies of cases, each under its label. -/
def lowerCases (finish : String) : List String → List (Case Statement) → Lowering (List Step)
  | label :: labels, ⟨_, ⟨body, _⟩⟩ :: later => do
    let first ← caseBody label finish (lowerAll body)
    let others ← lowerCases finish labels later
    return first ++ others
  | _, _ => return []

end

end Statement
end EventScript
