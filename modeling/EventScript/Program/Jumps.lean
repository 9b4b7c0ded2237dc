import EventScript.Program.Basic

/-!
# Binding jumps

A `break` leaves the innermost loop or switch around it, and a `continue` goes on with the
innermost loop; a switch in between does not count for the latter. `Program.bindJumps` writes the
construct that a jump goes to into the jump and changes nothing else.

`Program.jumpSites` lists the jumps of a program, each with the construct found for it. A jump that
nothing encloses is an error (`Program.unboundJumps`) and keeps the target it had.

Both walk a program the same way, and both take what encloses a statement from outside, so that
what one statement encloses is out of sight for the next.
-/

namespace EventScript

/-- The constructs that a jump at some place of a program can go to. -/
structure Enclosing where
  /-- The innermost loop or switch. -/
  breakable : Option ConstructId
  /-- The innermost loop. -/
  continuable : Option ConstructId

namespace Enclosing

/-- Outside of every loop and switch. -/
def outermost : Enclosing :=
  ⟨none, none⟩

/-- Directly inside the loop `id`, whatever encloses that. -/
def loop (id : ConstructId) : Enclosing :=
  ⟨some id, some id⟩

/-- Inside the switch `id`. -/
def insideSwitch (e : Enclosing) (id : ConstructId) : Enclosing :=
  ⟨some id, e.continuable⟩

/-- The construct that a jump goes to. -/
def target (e : Enclosing) : JumpKind → Option ConstructId
  | .leave => e.breakable
  | .again => e.continuable

end Enclosing

/-- A jump of a program, and the construct that encloses it in the way its kind asks for. -/
structure JumpSite where
  kind : JumpKind
  span : Span
  target : Option ConstructId
deriving DecidableEq

/-- A jump that no construct encloses. -/
structure UnboundJump where
  kind : JumpKind
deriving DecidableEq

/-- What a user is told about a jump that nothing encloses. -/
def UnboundJump.message (u : UnboundJump) : String :=
  match u.kind with
  | .leave => "`break` must be used inside a loop or switch"
  | .again => "`continue` must be used inside a loop"

namespace Statement

/-! ## Writing the targets -/

mutual

/-- The statement with the targets of its jumps filled in. -/
def bindJumps (e : Enclosing) : Statement → Statement
  | .script name scope ⟨body, span⟩ => .script name scope ⟨bindAll e body, span⟩
  | .block ⟨body, span⟩ => .block ⟨bindAll e body, span⟩
  | .command name args => .command name args
  | .raw content scope span => .raw content scope span
  | .text content => .text content
  | .movement name steps scope => .movement name steps scope
  | .mart name items scope => .mart name items scope
  | .conditional ⟨condition, ⟨body, bodySpan⟩⟩ elifs (some ⟨other, otherSpan⟩) span =>
    .conditional ⟨condition, ⟨bindAll e body, bodySpan⟩⟩ (bindGuarded e elifs)
      (some ⟨bindAll e other, otherSpan⟩) span
  | .conditional ⟨condition, ⟨body, bodySpan⟩⟩ elifs none span =>
    .conditional ⟨condition, ⟨bindAll e body, bodySpan⟩⟩ (bindGuarded e elifs) none span
  | .loop style id ⟨condition, ⟨body, bodySpan⟩⟩ span =>
    .loop style id ⟨condition, ⟨bindAll (.loop id) body, bodySpan⟩⟩ span
  | .jump kind target span => .jump kind (e.target kind <|> target) span
  | .switch id operand cases span =>
    .switch id operand (bindCases (e.insideSwitch id) cases) span
  | .mapScripts name scope entries tables =>
    .mapScripts name scope (bindEntries e entries) (bindTables e tables)

/-- `bindJumps` on each statement of a list. -/
def bindAll (e : Enclosing) : List Statement → List Statement
  | [] => []
  | s :: later => bindJumps e s :: bindAll e later

/-- `bindJumps` on the bodies of guarded blocks. -/
def bindGuarded (e : Enclosing) : List (Guarded Statement) → List (Guarded Statement)
  | [] => []
  | ⟨condition, ⟨body, span⟩⟩ :: later =>
    ⟨condition, ⟨bindAll e body, span⟩⟩ :: bindGuarded e later

/-- `bindJumps` on the bodies of cases. -/
def bindCases (e : Enclosing) : List (Case Statement) → List (Case Statement)
  | [] => []
  | ⟨label, ⟨body, span⟩⟩ :: later => ⟨label, ⟨bindAll e body, span⟩⟩ :: bindCases e later

/-- `bindJumps` on the bodies written in place of simple map script entries. -/
def bindEntries (e : Enclosing) : List (MapEntry Statement) → List (MapEntry Statement)
  | [] => []
  | ⟨trigger, .symbol name⟩ :: later => ⟨trigger, .symbol name⟩ :: bindEntries e later
  | ⟨trigger, .inline ⟨body, span⟩⟩ :: later =>
    ⟨trigger, .inline ⟨bindAll e body, span⟩⟩ :: bindEntries e later

/-- `bindJumps` on the bodies written in place of table rows. -/
def bindRows (e : Enclosing) : List (MapRow Statement) → List (MapRow Statement)
  | [] => []
  | ⟨condition, value, .symbol name⟩ :: later =>
    ⟨condition, value, .symbol name⟩ :: bindRows e later
  | ⟨condition, value, .inline ⟨body, span⟩⟩ :: later =>
    ⟨condition, value, .inline ⟨bindAll e body, span⟩⟩ :: bindRows e later

/-- `bindJumps` on the rows of map script tables. -/
def bindTables (e : Enclosing) : List (MapTable Statement) → List (MapTable Statement)
  | [] => []
  | ⟨trigger, rows⟩ :: later => ⟨trigger, bindRows e rows⟩ :: bindTables e later

end

/-! ## Listing the jumps -/

mutual

/-- The jumps of a statement, in the order in which they are met: the parts of a conditional as
they stand, and the simple entries of map scripts before their tables. -/
def jumpSites (e : Enclosing) : Statement → List JumpSite
  | .script _ _ ⟨body, _⟩ => sitesAll e body
  | .block ⟨body, _⟩ => sitesAll e body
  | .command .. | .raw .. | .text .. | .movement .. | .mart .. => []
  | .conditional ⟨_, ⟨body, _⟩⟩ elifs (some ⟨other, _⟩) _ =>
    sitesAll e body ++ sitesGuarded e elifs ++ sitesAll e other
  | .conditional ⟨_, ⟨body, _⟩⟩ elifs none _ => sitesAll e body ++ sitesGuarded e elifs
  | .loop _ id ⟨_, ⟨body, _⟩⟩ _ => sitesAll (.loop id) body
  | .jump kind _ span => [⟨kind, span, e.target kind⟩]
  | .switch id _ cases _ => sitesCases (e.insideSwitch id) cases
  | .mapScripts _ _ entries tables => sitesEntries e entries ++ sitesTables e tables

/-- The jumps of statements, one after the other. -/
def sitesAll (e : Enclosing) : List Statement → List JumpSite
  | [] => []
  | s :: later => jumpSites e s ++ sitesAll e later

/-- The jumps in the bodies of guarded blocks. -/
def sitesGuarded (e : Enclosing) : List (Guarded Statement) → List JumpSite
  | [] => []
  | ⟨_, ⟨body, _⟩⟩ :: later => sitesAll e body ++ sitesGuarded e later

/-- The jumps in the bodies of cases. -/
def sitesCases (e : Enclosing) : List (Case Statement) → List JumpSite
  | [] => []
  | ⟨_, ⟨body, _⟩⟩ :: later => sitesAll e body ++ sitesCases e later

/-- The jumps in bodies written in place of simple map script entries. -/
def sitesEntries (e : Enclosing) : List (MapEntry Statement) → List JumpSite
  | [] => []
  | ⟨_, .symbol _⟩ :: later => sitesEntries e later
  | ⟨_, .inline ⟨body, _⟩⟩ :: later => sitesAll e body ++ sitesEntries e later

/-- The jumps in bodies written in place of table rows. -/
def sitesRows (e : Enclosing) : List (MapRow Statement) → List JumpSite
  | [] => []
  | ⟨_, _, .symbol _⟩ :: later => sitesRows e later
  | ⟨_, _, .inline ⟨body, _⟩⟩ :: later => sitesAll e body ++ sitesRows e later

/-- The jumps in the rows of map script tables. -/
def sitesTables (e : Enclosing) : List (MapTable Statement) → List JumpSite
  | [] => []
  | ⟨_, rows⟩ :: later => sitesRows e rows ++ sitesTables e later

end

end Statement

namespace Program

/-- The program with the targets of its jumps filled in. -/
def bindJumps (p : Program) : Program :=
  { p with statements := Statement.bindAll .outermost p.statements }

/-- The jumps of a program. -/
def jumpSites (p : Program) : List JumpSite :=
  Statement.sitesAll .outermost p.statements

/-- Number of jumps for which a construct is found. -/
def boundJumps (p : Program) : Nat :=
  p.jumpSites.countP fun site => site.target.isSome

/-- The jumps for which none is found. -/
def unboundJumps (p : Program) : List (Located UnboundJump) :=
  (p.jumpSites.filter fun site => site.target.isNone).map fun site => ⟨site.span, ⟨site.kind⟩⟩

end Program
end EventScript
