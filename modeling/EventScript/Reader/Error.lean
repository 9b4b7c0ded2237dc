import EventScript.Condition
import EventScript.Token.Kind

/-!
# What can be wrong with the structure of a source text

One constructor for each cause, and `SyntaxError.message`, which words it.
-/

namespace EventScript

/-- Why a source text is no program. -/
inductive SyntaxError where
  /-- A token that starts no top-level statement. -/
  | invalidTopLevel (actual : String)
  /-- A token that starts no statement of a body. -/
  | invalidStatement (actual : String)
  | unexpected (actual expected : Kind)
  | unexpectedAny (actual : Kind) (expected : List Kind)
  | invalidScope (word : String)
  | unterminatedBlock
  | unterminatedParen
  | unterminatedTable
  | unterminatedArguments (command : String)
  /-- A token that starts no part of a condition. -/
  | invalidTerm (actual : String)
  | missingOperand (subject : Subject)
  | invalidComparator (subject : Subject) (actual : String)
  | missingValue (subject : Subject)
  | invalidFlagValue (actual : String)
  | duplicateDefault
  | duplicateCase (value : String)
  | missingCaseValue
  | missingRowValue
  | invalidRepeatCount
  /-- Text that is no proper token. -/
  | lexical (cause : LexicalError)
deriving DecidableEq

namespace SyntaxError

/-- The comparators that a test of this subject may use, as a message lists them. -/
def allowedComparators : Subject → String
  | .flag => "Only '==' is allowed."
  | .var => "Only '==', '!=', '<', '<=', '>' and '>=' are allowed."

/-- What the user is told. -/
def message : SyntaxError → String
  | .invalidTopLevel actual => "could not parse top-level statement for '" ++ actual ++ "'"
  | .invalidStatement actual => "could not parse statement for '" ++ actual ++ "'"
  | .unexpected actual expected =>
    "expected token " ++ expected.display ++ ", but got " ++ actual.display
  | .unexpectedAny actual expected =>
    "expected one of " ++ ", ".intercalate (expected.map Kind.display) ++ ", but got "
      ++ actual.display
  | .invalidScope word =>
    "invalid scope '" ++ word ++ "'. Only 'global' and 'local' are allowed"
  | .unterminatedBlock => "missing closing curly brace for block statement"
  | .unterminatedParen => "missing closing parenthesis"
  | .unterminatedTable => "missing closing bracket for map script table"
  | .unterminatedArguments command => "missing closing parenthesis for command '" ++ command ++ "'"
  | .invalidTerm actual =>
    "invalid condition '" ++ actual ++ "', expected `flag(...)` or `var(...)`"
  | .missingOperand subject => "missing value for " ++ subject.display ++ " operator"
  | .invalidComparator subject actual =>
    "invalid condition operator '" ++ actual ++ "'. " ++ allowedComparators subject
  | .missingValue subject => "missing comparison value for " ++ subject.display ++ " operator"
  | .invalidFlagValue actual =>
    "invalid flag comparison value '" ++ actual ++ "'. Only 'TRUE' and 'FALSE' are allowed"
  | .duplicateDefault => "multiple `default` cases found in switch statement"
  | .duplicateCase value => "duplicate switch case '" ++ value ++ "'"
  | .missingCaseValue => "missing value for switch case"
  | .missingRowValue => "map script table rows need a condition and a value"
  | .invalidRepeatCount => "invalid movement repeat count, expected a number up to 255"
  | .lexical cause => cause.display

end SyntaxError
end EventScript
