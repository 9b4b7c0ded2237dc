import EventScript.Program.Basic

/-!
# Statements inside statements

`Statement.contents` lists what a statement holds, in the order of a reading from front to back
(simple map script entries before tables), and gives each statement the loops and switches around
it. What a program says about its loops, switches and jumps is read off this one list:

* `constructs`: the numbers of the loops and switches;
* `jumps`: the jumps, each with what surrounds it, and `innermost` for where a jump belongs.

`InBody` and `IsDeclaration` are the two forms of a statement that has been read: what may stand in
a body, and what may stand at the top. `InBody` has one constructor for each kind of statement, so
that a proof about bodies is an induction on it.
-/

namespace EventScript

/-! ## Frames -/

/-- A loop or switch that surrounds some place of a program. -/
inductive Frame where
  | loop (id : ConstructId)
  | switch (id : ConstructId)
deriving DecidableEq

namespace Frame

/-- The number of the loop or switch. -/
def id : Frame → ConstructId
  | .loop id => id
  | .switch id => id

/-- Whether a jump can belong to the loop or switch: a `break` to both, a `continue` to loops. -/
def catches : JumpKind → Frame → Bool
  | .leave, _ => true
  | .again, .loop _ => true
  | .again, .switch _ => false

end Frame

/-- The loop or switch that a jump belongs to, among those around it, the innermost first. -/
def innermost (kind : JumpKind) (around : List Frame) : Option ConstructId :=
  (around.find? (Frame.catches kind)).map Frame.id

/-- A statement and the loops and switches around it, the innermost first. -/
structure Placed where
  around : List Frame
  statement : Statement

/-! ## Contents -/

namespace Statement

mutual

/-- The statements strictly inside a statement that `around` surrounds. -/
def contents (around : List Frame) : Statement → List Placed
  | .script _ _ ⟨body, _⟩ => contentsAll around body
  | .block ⟨body, _⟩ => contentsAll around body
  | .command .. | .raw .. | .text .. | .movement .. | .mart .. | .jump .. => []
  | .conditional ⟨_, ⟨body, _⟩⟩ elifs (some ⟨other, _⟩) _ =>
    contentsAll around body ++ contentsGuarded around elifs ++ contentsAll around other
  | .conditional ⟨_, ⟨body, _⟩⟩ elifs none _ =>
    contentsAll around body ++ contentsGuarded around elifs
  | .loop _ id ⟨_, ⟨body, _⟩⟩ _ => contentsAll (.loop id :: around) body
  | .switch id _ cases _ => contentsCases (.switch id :: around) cases
  | .mapScripts _ _ entries tables => contentsEntries around entries ++ contentsTables around tables

/-- Statements, each followed by what is inside of it. -/
def contentsAll (around : List Frame) : List Statement → List Placed
  | [] => []
  | s :: later => ⟨around, s⟩ :: contents around s ++ contentsAll around later

/-- The statements in the bodies of guarded blocks. -/
def contentsGuarded (around : List Frame) : List (Guarded Statement) → List Placed
  | [] => []
  | ⟨_, ⟨body, _⟩⟩ :: later => contentsAll around body ++ contentsGuarded around later

/-- The statements in the bodies of cases. -/
def contentsCases (around : List Frame) : List (Case Statement) → List Placed
  | [] => []
  | ⟨_, ⟨body, _⟩⟩ :: later => contentsAll around body ++ contentsCases around later

/-- The statements in bodies written in place of simple map script entries. -/
def contentsEntries (around : List Frame) : List (MapEntry Statement) → List Placed
  | [] => []
  | ⟨_, .symbol _⟩ :: later => contentsEntries around later
  | ⟨_, .inline ⟨body, _⟩⟩ :: later => contentsAll around body ++ contentsEntries around later

/-- The statements in bodies written in place of table rows. -/
def contentsRows (around : List Frame) : List (MapRow Statement) → List Placed
  | [] => []
  | ⟨_, _, .symbol _⟩ :: later => contentsRows around later
  | ⟨_, _, .inline ⟨body, _⟩⟩ :: later => contentsAll around body ++ contentsRows around later

/-- The statements in the rows of map script tables. -/
def contentsTables (around : List Frame) : List (MapTable Statement) → List Placed
  | [] => []
  | ⟨_, rows⟩ :: later => contentsRows around rows ++ contentsTables around later

end

/-- A statement, followed by what is inside of it. -/
def withContents (around : List Frame) (s : Statement) : List Placed :=
  ⟨around, s⟩ :: contents around s

/-- The number of a loop or switch. -/
def construct? : Statement → Option ConstructId
  | .loop _ id _ _ => some id
  | .switch id _ _ _ => some id
  | _ => none

end Statement

/-- All statements of a program, at every depth. -/
def Program.contents (p : Program) : List Placed :=
  Statement.contentsAll [] p.statements

/-! ## Constructs -/

/-- The numbers of the loops and switches among statements. -/
def constructs (placed : List Placed) : List ConstructId :=
  placed.filterMap fun x => x.statement.construct?

@[simp] theorem constructs_cons (x : Placed) (later : List Placed) :
    constructs (x :: later) = x.statement.construct?.toList ++ constructs later := by
  unfold constructs
  cases h : x.statement.construct? <;> simp [h]

@[simp] theorem constructs_append (a b : List Placed) :
    constructs (a ++ b) = constructs a ++ constructs b :=
  List.filterMap_append

/-! ## Jumps -/

/-- A jump of a program and what surrounds it. -/
structure PlacedJump where
  kind : JumpKind
  target : Option ConstructId
  span : Span
  around : List Frame
deriving DecidableEq

/-- The jump that a statement is. -/
def Placed.jump? : Placed → Option PlacedJump
  | ⟨around, .jump kind target span⟩ => some ⟨kind, target, span, around⟩
  | _ => none

/-- The jumps among statements. -/
def jumps (placed : List Placed) : List PlacedJump :=
  placed.filterMap Placed.jump?

@[simp] theorem jumps_nil : jumps [] = [] := rfl

@[simp] theorem jumps_cons (x : Placed) (later : List Placed) :
    jumps (x :: later) = x.jump?.toList ++ jumps later := by
  unfold jumps
  cases h : x.jump? <;> simp [h]

@[simp] theorem jumps_append (a b : List Placed) : jumps (a ++ b) = jumps a ++ jumps b :=
  List.filterMap_append

theorem jumps_flatMap {α : Type} (as : List α) (inner : α → List Placed) :
    jumps (as.flatMap inner) = as.flatMap fun a => jumps (inner a) :=
  List.filterMap_flatMap

namespace PlacedJump

/-- The loop or switch that the jump belongs to. -/
def home (j : PlacedJump) : Option ConstructId :=
  innermost j.kind j.around

/-- The jump with its target set to where it belongs. -/
def bound (j : PlacedJump) : PlacedJump :=
  { j with target := j.home }

end PlacedJump

/-! ## The form of what is read -/

/-- A statement that may stand in a body, with no targets in its jumps. -/
inductive InBody : Statement → Prop
  | block {body : List Statement} {span : Span} (hbody : ∀ s ∈ body, InBody s) :
      InBody (.block ⟨body, span⟩)
  | command {name : Ident} {args : List String} : InBody (.command name args)
  | conditional {condition : Condition} {body : List Statement} {bodySpan span : Span}
      {elifs : List (Guarded Statement)} (hbody : ∀ s ∈ body, InBody s)
      (helifs : ∀ g ∈ elifs, ∀ s ∈ g.body.statements, InBody s) :
      InBody (.conditional ⟨condition, ⟨body, bodySpan⟩⟩ elifs none span)
  | conditionalElse {condition : Condition} {body other : List Statement}
      {bodySpan otherSpan span : Span} {elifs : List (Guarded Statement)}
      (hbody : ∀ s ∈ body, InBody s)
      (helifs : ∀ g ∈ elifs, ∀ s ∈ g.body.statements, InBody s)
      (hother : ∀ s ∈ other, InBody s) :
      InBody (.conditional ⟨condition, ⟨body, bodySpan⟩⟩ elifs (some ⟨other, otherSpan⟩) span)
  | loop {style : LoopStyle} {id : ConstructId} {condition : Condition} {body : List Statement}
      {bodySpan span : Span} (hbody : ∀ s ∈ body, InBody s) :
      InBody (.loop style id ⟨condition, ⟨body, bodySpan⟩⟩ span)
  | jump {kind : JumpKind} {span : Span} : InBody (.jump kind none span)
  | switch {id : ConstructId} {operand : String} {cases : List (Case Statement)} {span : Span}
      (hcases : ∀ c ∈ cases, ∀ s ∈ c.body.statements, InBody s) :
      InBody (.switch id operand cases span)

/-- Whether what a map script runs is of the form of a body, if it is written in place. -/
def Target.InBody (t : Target Statement) : Prop :=
  ∀ body, t = .inline body → ∀ s ∈ body.statements, EventScript.InBody s

/-- A statement that may stand at the top of a program. -/
inductive IsDeclaration : Statement → Prop
  | script {name : Ident} {scope : Scope} {body : List Statement} {span : Span}
      (hbody : ∀ s ∈ body, InBody s) : IsDeclaration (.script name scope ⟨body, span⟩)
  | raw {content : String} {scope : Scope} {span : Span} : IsDeclaration (.raw content scope span)
  | text {content : Text} : IsDeclaration (.text content)
  | movement {name : Ident} {steps : List String} {scope : Scope} :
      IsDeclaration (.movement name steps scope)
  | mart {name : Ident} {items : List String} {scope : Scope} :
      IsDeclaration (.mart name items scope)
  | mapScripts {name : Ident} {scope : Scope} {entries : List (MapEntry Statement)}
      {tables : List (MapTable Statement)} (hentries : ∀ e ∈ entries, e.target.InBody)
      (htables : ∀ t ∈ tables, ∀ r ∈ t.rows, r.target.InBody) :
      IsDeclaration (.mapScripts name scope entries tables)

end EventScript
