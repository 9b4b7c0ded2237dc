import EventScript.Diagnostic
import EventScript.Journal
import EventScript.Lowering.Program
import EventScript.Reader.Program

/-!
# Compiling

The three phases of a compilation, each as a function that gives a `Report`: what came of it, the
session with all that was handed out, and notes on what was done. `parse` runs the first two and
`compile` all three; a phase that fails keeps the later ones from running.
-/

namespace EventScript

/-- Why a phase gives no result. -/
inductive Failure where
  | diagnostics (found : List Diagnostic)
  /-- The program has a text or map scripts declaration inside a body. -/
  | misplacedDeclaration
deriving DecidableEq

/-- What came of a phase, or of some in a row. -/
structure Report (α : Type) where
  outcome : Except Failure α
  session : Session
  journal : List Note

/-- Runs the next phase on the result, if there is one. -/
def Report.andThen {α β : Type} (r : Report α) (next : α → Session → Report β) : Report β :=
  match r.outcome with
  | .ok a =>
    let later := next a r.session
    { later with journal := r.journal ++ later.journal }
  | .error failure => ⟨.error failure, r.session, r.journal⟩

/-- Reads a program from a source text. Jumps are not bound yet. -/
def readProgram (src : String) (session : Session) : Report Program :=
  let lexed := lex src
  let start : List Note := [.lexed lexed.all.length]
  match Program.ofLexed lexed session with
  | (.ok p, session) => ⟨.ok p, session, start ++ [.parsed p.statements.length p.texts.length]⟩
  | (.error es, session) => ⟨.error (.diagnostics (es.map .reading)), session, start⟩

/-- Binds the jumps of a program. -/
def bindProgram (p : Program) (session : Session) : Report Program :=
  let journal := [.resolved p.boundJumps]
  if p.unboundJumps.isEmpty then ⟨.ok p.bindJumps, session, journal⟩
  else ⟨.error (.diagnostics (p.unboundJumps.map .scoping)), session, journal⟩

/-- The note that a step leaves. -/
def Step.note? : Step → Option Note
  | .allocate label => some (.allocated label)
  | .promote script => some (.promoted script)
  | _ => none

/-- Lowers a program to the items of an assembly file. -/
def lowerProgram (p : Program) (session : Session) : Report (List Item) :=
  let lowered := p.lower session
  let notes := lowered.done.filterMap Step.note?
  match lowered.failure with
  | none =>
    let items := Lowering.items lowered.done
    ⟨.ok items, lowered.session, notes ++ [.emitted items.length]⟩
  | some (.error e) => ⟨.error (.diagnostics [.lowering e]), lowered.session, notes⟩
  | some .misplacedDeclaration => ⟨.error .misplacedDeclaration, lowered.session, notes⟩

/-- Reads a program and binds its jumps. -/
def parse (src : String) (session : Session) : Report Program :=
  (readProgram src session).andThen bindProgram

/-- Compiles a source text to the items of an assembly file. -/
def compile (src : String) (session : Session) : Report (List Item) :=
  (parse src session).andThen lowerProgram

end EventScript
