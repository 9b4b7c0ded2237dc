import EventScript.Lowering.Statement

/-!
# Lowering programs

The declarations of a program are lowered in their order, but for texts: these follow behind
everything else, first those that are declared, then those that were taken out of commands.

Map scripts become a list of rows, a table for each trigger that has one, and behind these a script
for each body that is written in place. Such a script is named after the map and its trigger, and
in a table also after the number of its row.
-/

namespace EventScript

namespace Lowering

/-! ## Map scripts -/

/-- A body written in place of a map script's name, under the name it gets as a script. -/
structure Promoted where
  name : String
  /-- The trigger, which owns the script. -/
  owner : Span
  body : List Statement

/-- The name of the script or table that belongs to a trigger. -/
def triggerName (owner trigger : String) : String :=
  owner ++ "_" ++ trigger

/-- The name of the script that belongs to row `index` of a table. -/
def rowName (table : String) (index : Nat) : String :=
  table ++ "_" ++ toString index

/-- The name of a map script's target, which is `generated` for a body written in place. -/
def targetName (generated : String) : Target Statement → String
  | .symbol name => name.name
  | .inline _ => generated

/-- The script that a target is promoted to, if it is written in place. -/
def promotedTarget (generated : String) (owner : Span) : Target Statement → List Promoted
  | .symbol _ => []
  | .inline body => [⟨generated, owner, body.statements⟩]

/-- The row of a simple entry in the map script list of `map`. -/
def entryRow (map : String) (e : MapEntry Statement) : TriggerRow :=
  ⟨e.trigger.name, targetName (triggerName map e.trigger.name) e.target⟩

/-- The row of a table in the map script list of `map`. -/
def tableRow (map : String) (t : MapTable Statement) : TriggerRow :=
  ⟨t.trigger.name, triggerName map t.trigger.name⟩

/-- The rows of a table, from row `index` on. -/
def compareRows (table : String) (index : Nat) : List (MapRow Statement) → List CompareRow
  | [] => []
  | r :: later =>
    ⟨r.condition, r.value, targetName (rowName table index) r.target⟩
      :: compareRows table (index + 1) later

/-- The script that a simple entry is promoted to. -/
def promotedEntry (map : String) (e : MapEntry Statement) : List Promoted :=
  promotedTarget (triggerName map e.trigger.name) e.trigger.span e.target

/-- The scripts that the rows of a table are promoted to, from row `index` on. -/
def promotedRows (table : String) (owner : Span) (index : Nat) :
    List (MapRow Statement) → List Promoted
  | [] => []
  | r :: later =>
    promotedTarget (rowName table index) owner r.target
      ++ promotedRows table owner (index + 1) later

/-- The scripts that a table is promoted to. -/
def promotedTable (map : String) (t : MapTable Statement) : List Promoted :=
  promotedRows (triggerName map t.trigger.name) t.trigger.span 0 t.rows

/-- The data block of a table. -/
def tableBlock (map : String) (t : MapTable Statement) : Lowering (List Step) :=
  data ⟨triggerName map t.trigger.name, t.trigger.span⟩ .fileLocal
    (.table (compareRows (triggerName map t.trigger.name) 0 t.rows))

/-- A script that was written in place of its name. -/
def promotedScript (p : Promoted) : Lowering (List Step) := do
  let steps ← script p.name .fileLocal p.owner (Statement.lowerAll p.body)
  return .promote p.name :: steps

/-- Lowers a map scripts declaration. -/
def mapScripts (name : Ident) (scope : Scope) (entries : List (MapEntry Statement))
    (tables : List (MapTable Statement)) : Lowering (List Step) := do
  let map := name.name
  let rows := entries.map (entryRow map) ++ tables.map (tableRow map)
  let promoted := entries.flatMap (promotedEntry map) ++ tables.flatMap (promotedTable map)
  let list ← data name scope (.mapScripts rows)
  let blocks ← tables.mapM (tableBlock map)
  let scripts ← promoted.mapM promotedScript
  return list ++ blocks.flatten ++ scripts.flatten

/-! ## Texts -/

/-- The data block of a text. -/
def textItem (t : Text) : Item :=
  .data t.name.name t.scope (.text t.value t.directive)

/-- The data blocks of declared texts; `earlier` are the names of those before. -/
def declaredTexts (earlier : List String) : List Text → List Step
  | [] => []
  | t :: later =>
    if t.name.name ∈ earlier then
      [.fail (.error ⟨t.name.span, .duplicateText t.name.name⟩)]
    else
      .emit (textItem t) t.name.span :: declaredTexts (t.name.name :: earlier) later

/-- The data block of a text of the pool. A declared text of its name is at fault. -/
def pooledText (declared : List Text) (t : Text) : Step :=
  match declared.find? (·.name.name == t.name.name) with
  | some d => .fail (.error ⟨d.name.span, .duplicateText t.name.name⟩)
  | none => .emit (textItem t) t.name.span

/-- The data blocks of all texts. -/
def texts (declared pool : List Text) : List Step :=
  declaredTexts [] declared ++ pool.map (pooledText declared)

/-! ## Whole programs -/

/-- Lowers a statement of the top level; declared texts come later. -/
def topLevel : Statement → Lowering (List Step)
  | .text _ => return []
  | .mapScripts name scope entries tables => mapScripts name scope entries tables
  | s => s.lower

/-- The text that a statement declares. -/
def declaredText? : Statement → Option Text
  | .text t => some t
  | _ => none

/-- All steps of a program. -/
def steps (p : Program) : Lowering (List Step) := do
  let declarations ← p.statements.mapM topLevel
  return declarations.flatten ++ texts (p.statements.filterMap declaredText?) p.texts

end Lowering

/-- What came of lowering a program. -/
structure Lowered where
  /-- The steps that were carried out. -/
  done : List Step
  /-- What stopped them, if anything did. -/
  failure : Option LoweringFailure
  session : Session

namespace Program

/-- Lowers a program. Labels named before a failure stay named. -/
def lower (p : Program) (session : Session) : Lowered :=
  let steps := ((Lowering.steps p).run (.initial session.labels)).1
  let (done, failure) := Lowering.carryOut [] steps
  ⟨done, failure, { session with labels := session.labels + Lowering.allocations done }⟩

end Program
end EventScript
