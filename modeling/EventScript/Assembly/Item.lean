import EventScript.Condition
import EventScript.Program.Basic

/-!
# The items of an assembly file

A lowered program is a flat list of items: labels, commands, the two jumps of the machine, raw
text and data blocks. `Item.definedName?` is the name that an item defines, and `Item.leaves` says
after which items control does not go on with the next one.
-/

namespace EventScript

/-- A row of a map script list. -/
structure TriggerRow where
  trigger : String
  target : String
deriving DecidableEq

/-- A row of a map script table. -/
structure CompareRow where
  condition : String
  value : String
  target : String
deriving DecidableEq

/-- What a data block holds. -/
inductive Payload where
  | text (value : String) (directive : Option String)
  | movement (steps : List String)
  | mart (items : List String)
  | mapScripts (rows : List TriggerRow)
  | table (rows : List CompareRow)
deriving DecidableEq

/-- One item of an assembly file. -/
inductive Item where
  | label (name : String) (scope : Scope)
  | command (name : String) (args : List String)
  | goto (target : String)
  /-- Goes to `target` if the test holds, and on with the next item if not. -/
  | branch (test : Test) (target : String)
  | raw (content : String) (scope : Scope)
  | data (name : String) (scope : Scope) (payload : Payload)
deriving DecidableEq

namespace Item

/-- The name that the item defines. -/
def definedName? : Item → Option String
  | .label name _ => some name
  | .data name _ _ => some name
  | _ => none

/-- Whether a command hands control to some other place, so that what follows it is not run. -/
def leavingCommand (name : String) : Bool :=
  name == "end" || name == "return" || name == "goto"

/-- Whether control leaves the script at this item. -/
def leaves : Item → Bool
  | .goto _ => true
  | .command name _ => leavingCommand name
  | _ => false

end Item
end EventScript
