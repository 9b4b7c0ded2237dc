import EventScript.Assembly.Item

/-!
# The text of an assembly file

`Item.render` writes one item and `Assembly.render` a whole file. An item is one line, or some lines
for a test of a variable and for a data block; all but labels and raw text are indented by a tab.

`opensSection` decides where a blank line goes: in front of every data block, raw text and global
label, and in front of a file-local label that control cannot fall into.
-/

namespace EventScript

namespace Assembly

/-- An indented line. -/
def line (text : String) : String :=
  "\t" ++ text ++ "\n"

/-- The line of a label; two colons make it visible to other files. -/
def labelLine (name : String) : Scope → String
  | .global => name ++ "::\n"
  | .fileLocal => name ++ ":\n"

/-- The jump that goes where a comparison came out as `c` says. -/
def comparisonJump : Comparator → String
  | .equal => "goto_if_eq"
  | .notEqual => "goto_if_ne"
  | .less => "goto_if_lt"
  | .lessEqual => "goto_if_le"
  | .greater => "goto_if_gt"
  | .greaterEqual => "goto_if_ge"

/-- The jump that goes where a flag is as `value` says; what is not the value of a set flag is
taken for that of a clear one. -/
def flagJump (value : String) : String :=
  if value = Test.flagSet then "goto_if_set" else "goto_if_unset"

/-- A jump that depends on a test. A variable takes two lines, since comparing and jumping are
two instructions. -/
def branchLines (t : Test) (target : String) : String :=
  match t.subject with
  | .flag => line (flagJump t.value ++ " " ++ t.operand ++ ", " ++ target)
  | .var =>
    line ("compare " ++ t.operand ++ ", " ++ t.value)
      ++ line (comparisonJump t.comparator ++ " " ++ target)

/-- The row of a map script list. -/
def triggerRow (r : TriggerRow) : String :=
  line ("map_script " ++ r.trigger ++ ", " ++ r.target)

/-- The row of a map script table. -/
def compareRow (r : CompareRow) : String :=
  line ("map_script_2 " ++ r.condition ++ ", " ++ r.value ++ ", " ++ r.target)

/-- The quoted form in which a text is assembled: the dollar sign ends it. -/
def textLiteral (value : String) : String :=
  "\"" ++ value ++ "$\""

/-- The lines of a data block behind its label; each kind of list has an end mark of its own. -/
def payloadLines : Payload → String
  | .text value directive => line ("." ++ directive.getD "string" ++ " " ++ textLiteral value)
  | .movement steps => String.join (steps.map line) ++ line "step_end"
  | .mart items =>
    String.join (items.map fun i => line (".2byte " ++ i)) ++ line ".2byte ITEM_NONE"
  | .mapScripts rows => String.join (rows.map triggerRow) ++ line ".byte 0"
  | .table rows => String.join (rows.map compareRow) ++ line ".2byte 0"

/-- What stands in front of the label of a data block: lists of goods are read in units of two
bytes and start at an even address. -/
def alignment : Payload → String
  | .mart _ => line ".align 2"
  | _ => ""

end Assembly

open Assembly

namespace Item

/-- The lines of one item. -/
def render : Item → String
  | .label name scope => labelLine name scope
  | .command name args =>
    line (if args.isEmpty then name else name ++ " " ++ ", ".intercalate args)
  | .goto target => line ("goto " ++ target)
  | .branch test target => branchLines test target
  | .raw content _ => content ++ "\n"
  | .data name scope content => alignment content ++ labelLine name scope ++ payloadLines content

/-- Whether a blank line stands between two neighbouring items. -/
def opensSection (previous item : Item) : Bool :=
  match item with
  | .data .. | .raw .. | .label _ .global => true
  | .label _ .fileLocal =>
    match previous with
    | .data .. | .raw .. => true
    | _ => previous.leaves
  | _ => false

end Item

namespace Assembly

/-- The blank line in front of `item`, if it opens a section behind `previous`. -/
def separator (previous item : Item) : String :=
  if previous.opensSection item then "\n" else ""

/-- The text of the items that follow `previous`. -/
def renderAfter (previous : Item) : List Item → String
  | [] => ""
  | i :: later => separator previous i ++ i.render ++ renderAfter i later

/-- The text of a whole file. -/
def render : List Item → String
  | [] => ""
  | i :: later => i.render ++ renderAfter i later

end Assembly
end EventScript
