import EventScript.Condition
import EventScript.Session
import EventScript.Span

/-!
# Programs

The structured form of a source text. A `Program` is a list of statements and the pool of texts
that were written inside command arguments.

One type of statement serves both levels. What is read from a source text has declarations
(scripts, raw text, texts, movements, marts and map scripts) at the top level and everything else
inside bodies, but a program that is built by other means may mix the two.

Everything that can hold statements is a structure over the type of its statements, so that
`Statement` is one recursive type and a pass over programs is one family of structural recursions:
one function for each list that a statement can hold.
-/

namespace EventScript

/-- A name and the place where it is written. -/
structure Ident where
  name : String
  span : Span
deriving DecidableEq

/-- Who can see a label: every file, or only the file that defines it. -/
inductive Scope where
  | global
  | fileLocal
deriving DecidableEq

/-- How a source text writes a scope. -/
def Scope.display : Scope → String
  | .global => "global"
  | .fileLocal => "local"

/-- A text that the game can show. A text taken out of a command bears the span of its literal. -/
structure Text where
  name : Ident
  value : String
  /-- The directive that encodes the text, where it is not the usual one. -/
  directive : Option String
  scope : Scope
deriving DecidableEq

/-- Statements between braces; the span is that of whatever opens them. -/
structure Block (σ : Type) where
  statements : List σ
  span : Span
deriving DecidableEq

/-- A condition and the block that runs when it holds. -/
structure Guarded (σ : Type) where
  condition : Condition
  body : Block σ
deriving DecidableEq

/-- What selects a case of a switch. -/
inductive CaseLabel where
  | value (text : String)
  | default
deriving DecidableEq

/-- One case of a switch. -/
structure Case (σ : Type) where
  label : CaseLabel
  body : Block σ
deriving DecidableEq

/-- What a map script runs: a script by name, or one written in place. -/
inductive Target (σ : Type) where
  | symbol (name : Ident)
  | inline (body : Block σ)
deriving DecidableEq

/-- A map script that its trigger runs unconditionally. -/
structure MapEntry (σ : Type) where
  trigger : Ident
  target : Target σ
deriving DecidableEq

/-- A row of a map script table; it runs when `condition` equals `value`. -/
structure MapRow (σ : Type) where
  condition : String
  value : String
  target : Target σ
deriving DecidableEq

/-- A map script whose trigger runs the first row that applies. -/
structure MapTable (σ : Type) where
  trigger : Ident
  rows : List (MapRow σ)
deriving DecidableEq

/-- Where a loop tests its condition: before its body, or behind it. -/
inductive LoopStyle where
  | testFirst
  | testLast
deriving DecidableEq

/-- The two jumps that a script can write. -/
inductive JumpKind where
  | leave
  | again
deriving DecidableEq

/-- How a source text writes a jump. -/
def JumpKind.display : JumpKind → String
  | .leave => "break"
  | .again => "continue"

/-- A statement of the script language. -/
inductive Statement where
  | script (name : Ident) (scope : Scope) (body : Block Statement)
  | block (body : Block Statement)
  | command (name : Ident) (args : List String)
  | raw (content : String) (scope : Scope) (span : Span)
  | text (content : Text)
  | movement (name : Ident) (steps : List String) (scope : Scope)
  | mart (name : Ident) (items : List String) (scope : Scope)
  | conditional (first : Guarded Statement) (elifs : List (Guarded Statement))
      (otherwise : Option (Block Statement)) (span : Span)
  | loop (style : LoopStyle) (id : ConstructId) (guarded : Guarded Statement) (span : Span)
  | jump (kind : JumpKind) (target : Option ConstructId) (span : Span)
  | switch (id : ConstructId) (operand : String) (cases : List (Case Statement)) (span : Span)
  | mapScripts (name : Ident) (scope : Scope) (entries : List (MapEntry Statement))
      (tables : List (MapTable Statement))

/-- A structured source text. -/
structure Program where
  statements : List Statement
  /-- Texts taken out of command arguments, in the order in which they were found. -/
  texts : List Text

end EventScript
