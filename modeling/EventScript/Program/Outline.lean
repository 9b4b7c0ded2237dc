import EventScript.Program.Basic
import EventScript.Text.Quoted

/-!
# Outlines of programs

The outline of a program shows its tree, one node a line, each level indented by two spaces. The
texts of the pool follow under a heading of their own, which is left out if there are none. Raw
texts and text values are quoted; names, arguments, operands and values stand as they are.

`Statement.outline depth` gives the lines of one statement that stands `depth` levels deep, and
`Program.outline` writes the lines of a whole program.
-/

namespace EventScript

namespace Outline

/-- A line of an outline: how deep it stands, and what it says. -/
structure Line where
  depth : Nat
  text : String
deriving DecidableEq

/-- Number of spaces in front of a line. -/
def Line.indent (l : Line) : Nat :=
  2 * l.depth

/-- A line as it is written. -/
def Line.written (l : Line) : String :=
  String.ofList (List.replicate l.indent ' ') ++ l.text ++ "\n"

/-- One line for each word. -/
def words (depth : Nat) (texts : List String) : List Line :=
  texts.map fun text => ⟨depth, text⟩

/-- The number of the construct that a jump goes to; unknown before jumps are bound. -/
def jumpTarget : Option ConstructId → String
  | some id => id.display
  | none => "?"

/-- A command with its arguments. -/
def command (name : String) (args : List String) : String :=
  if args.isEmpty then name else name ++ "(" ++ ", ".intercalate args ++ ")"

/-- What selects a case. -/
def caseLabel : CaseLabel → String
  | .value v => "case " ++ v
  | .default => "default"

/-- The heading of a loop, by its style. -/
def loopHeading : LoopStyle → String
  | .testFirst => "while"
  | .testLast => "do-while"

/-- A text of the pool or of a declaration, after whatever introduces it. -/
def text (t : Text) : String :=
  t.name.name ++ " (" ++ t.scope.display ++ ")"
    ++ (match t.directive with
        | some d => " " ++ d
        | none => "")
    ++ " " ++ quoted t.value

end Outline

open Outline

namespace Statement

mutual

/-- The lines of a statement that stands `depth` levels deep. -/
def outline (depth : Nat) : Statement → List Line
  | .script name scope ⟨body, _⟩ =>
    ⟨depth, "script " ++ name.name ++ " (" ++ scope.display ++ ")"⟩ :: outlines (depth + 1) body
  | .block ⟨body, _⟩ => ⟨depth, "block"⟩ :: outlines (depth + 1) body
  | .command name args => [⟨depth, "command " ++ Outline.command name.name args⟩]
  | .raw content scope _ => [⟨depth, "raw (" ++ scope.display ++ ") " ++ quoted content⟩]
  | .text content => [⟨depth, "text " ++ Outline.text content⟩]
  | .movement name steps scope =>
    ⟨depth, "movement " ++ name.name ++ " (" ++ scope.display ++ ")"⟩ :: words (depth + 1) steps
  | .mart name items scope =>
    ⟨depth, "mart " ++ name.name ++ " (" ++ scope.display ++ ")"⟩ :: words (depth + 1) items
  | .conditional ⟨condition, ⟨body, _⟩⟩ elifs otherwise _ =>
    ⟨depth, "if"⟩ :: ⟨depth + 1, "condition " ++ condition.display⟩ :: outlines (depth + 2) body
      ++ outlineGuarded (depth + 1) elifs
      ++ match otherwise with
        | some ⟨other, _⟩ => ⟨depth + 1, "else"⟩ :: outlines (depth + 2) other
        | none => []
  | .loop style id ⟨condition, ⟨body, _⟩⟩ _ =>
    ⟨depth, loopHeading style ++ " " ++ id.display⟩ ::
      ⟨depth + 1, "condition " ++ condition.display⟩ :: outlines (depth + 2) body
  | .jump kind target _ => [⟨depth, kind.display ++ " -> " ++ jumpTarget target⟩]
  | .switch id operand cases _ =>
    ⟨depth, "switch " ++ id.display ++ " var(" ++ operand ++ ")"⟩ :: outlineCases (depth + 1) cases
  | .mapScripts name scope entries tables =>
    ⟨depth, "mapscripts " ++ name.name ++ " (" ++ scope.display ++ ")"⟩ ::
      outlineEntries (depth + 1) entries ++ outlineTables (depth + 1) tables

/-- The lines of statements, one after the other. -/
def outlines (depth : Nat) : List Statement → List Line
  | [] => []
  | s :: later => outline depth s ++ outlines depth later

/-- The lines of guarded blocks, each under its condition. -/
def outlineGuarded (depth : Nat) : List (Guarded Statement) → List Line
  | [] => []
  | ⟨condition, ⟨body, _⟩⟩ :: later =>
    ⟨depth, "condition " ++ condition.display⟩ :: outlines (depth + 1) body
      ++ outlineGuarded depth later

/-- The lines of a switch's cases. -/
def outlineCases (depth : Nat) : List (Case Statement) → List Line
  | [] => []
  | ⟨label, ⟨body, _⟩⟩ :: later =>
    ⟨depth, caseLabel label⟩ :: outlines (depth + 1) body ++ outlineCases depth later

/-- The lines of simple map script entries. -/
def outlineEntries (depth : Nat) : List (MapEntry Statement) → List Line
  | [] => []
  | ⟨trigger, .symbol name⟩ :: later =>
    ⟨depth, trigger.name ++ " -> " ++ name.name⟩ :: outlineEntries depth later
  | ⟨trigger, .inline ⟨body, _⟩⟩ :: later =>
    ⟨depth, trigger.name⟩ :: outlines (depth + 1) body ++ outlineEntries depth later

/-- The lines of a table's rows. -/
def outlineRows (depth : Nat) : List (MapRow Statement) → List Line
  | [] => []
  | ⟨condition, value, .symbol name⟩ :: later =>
    ⟨depth, condition ++ ", " ++ value ++ " -> " ++ name.name⟩ :: outlineRows depth later
  | ⟨condition, value, .inline ⟨body, _⟩⟩ :: later =>
    ⟨depth, condition ++ ", " ++ value⟩ :: outlines (depth + 1) body ++ outlineRows depth later

/-- The lines of map script tables. -/
def outlineTables (depth : Nat) : List (MapTable Statement) → List Line
  | [] => []
  | ⟨trigger, rows⟩ :: later =>
    ⟨depth, "table " ++ trigger.name⟩ :: outlineRows (depth + 1) rows
      ++ outlineTables depth later

end

end Statement

namespace Program

/-- The lines of the text pool under their heading. -/
def outlineTexts (texts : List Text) : List Line :=
  if texts.isEmpty then []
  else ⟨0, "texts"⟩ :: texts.map fun t => ⟨1, Outline.text t⟩

/-- The lines of the outline of a whole program. -/
def outlineLines (p : Program) : List Line :=
  Statement.outlines 0 p.statements ++ outlineTexts p.texts

/-- The outline of a whole program. -/
def outline (p : Program) : String :=
  String.join (p.outlineLines.map Line.written)

end Program
end EventScript
