import EventScript.Lowering.Step
import EventScript.Program.Jumps
import EventScript.Reader.Error

/-!
# Diagnostics

What a user is told about a source text that does not compile, whichever phase found it.
-/

namespace EventScript

/-- A complaint about a source text. -/
inductive Diagnostic where
  | reading (error : Located SyntaxError)
  | scoping (error : Located UnboundJump)
  | lowering (error : Located LoweringError)
deriving DecidableEq

namespace Diagnostic

/-- The part of the source text that the complaint is about. -/
def span : Diagnostic → Span
  | .reading e => e.span
  | .scoping e => e.span
  | .lowering e => e.span

/-- The complaint in words, with its line in front. -/
def report : Diagnostic → String
  | .reading e => e.report SyntaxError.message
  | .scoping e => e.report UnboundJump.message
  | .lowering e => e.report LoweringError.message

end Diagnostic
end EventScript
