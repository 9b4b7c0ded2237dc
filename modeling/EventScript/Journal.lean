/-!
# The journal of a compilation

Notes on what the phases of a compilation did, for whoever wants to follow them. They bear no part
in the result. `Note.phase` and `Note.level` say who made a note and how fine a detail it is.
-/

namespace EventScript

/-- The phases that make notes. -/
inductive Phase where
  | reading
  | scoping
  | lowering
deriving DecidableEq

/-- How fine a detail a note is. -/
inductive Level where
  /-- A summary of a phase. -/
  | debug
  /-- A single event. -/
  | trace
deriving DecidableEq

/-- What is worth noting. -/
inductive Note where
  | lexed (tokens : Nat)
  | parsed (statements texts : Nat)
  | resolved (jumps : Nat)
  | allocated (label : String)
  | promoted (script : String)
  | emitted (items : Nat)
deriving DecidableEq

namespace Note

/-- The phase that makes a note. -/
def phase : Note → Phase
  | .lexed _ | .parsed .. => .reading
  | .resolved _ => .scoping
  | .allocated _ | .promoted _ | .emitted _ => .lowering

/-- How fine a detail a note is. -/
def level : Note → Level
  | .allocated _ | .promoted _ => .trace
  | _ => .debug

/-- The note in words. -/
def message : Note → String
  | .lexed tokens => "lexed " ++ toString tokens ++ " tokens"
  | .parsed statements texts =>
    "parsed " ++ toString statements ++ " top-level statements and " ++ toString texts
      ++ " implicit texts"
  | .resolved jumps => "resolved " ++ toString jumps ++ " jumps"
  | .allocated label => "allocated label " ++ label
  | .promoted script => "promoting inline map script " ++ script
  | .emitted items => "emitted " ++ toString items ++ " units"

end Note
end EventScript
