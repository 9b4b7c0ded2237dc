/-!
# Conditions

A `Condition` joins tests by "and" and "or". A `Test` asks whether a flag is set or how a variable
compares with a value; operands and values are text that only the game's assembler understands.

`Test.negated` is the test that holds exactly when the given one does not. A flag test is negated
in its value, since flags are only ever compared for equality; a variable test in its comparator.

Result: `Comparator.negated_negated`, and with it `Test.negated_negated` for the tests that a
source text can express.
-/

namespace EventScript

/-- What a test looks at. -/
inductive Subject where
  | flag
  | var
deriving DecidableEq

/-- How a source text writes a subject. -/
def Subject.display : Subject → String
  | .flag => "flag"
  | .var => "var"

/-- How a test relates its operand to its value. -/
inductive Comparator where
  | equal | notEqual | less | lessEqual | greater | greaterEqual
deriving DecidableEq

namespace Comparator

/-- How a source text writes a comparator. -/
def display : Comparator → String
  | .equal => "=="
  | .notEqual => "!="
  | .less => "<"
  | .lessEqual => "<="
  | .greater => ">"
  | .greaterEqual => ">="

/-- The comparator that holds between two numbers exactly when `c` does not. -/
def negated : Comparator → Comparator
  | .equal => .notEqual
  | .notEqual => .equal
  | .less => .greaterEqual
  | .lessEqual => .greater
  | .greater => .lessEqual
  | .greaterEqual => .less

theorem negated_negated (c : Comparator) : c.negated.negated = c := by
  cases c <;> rfl

end Comparator

/-- One test of the game's state. -/
structure Test where
  subject : Subject
  operand : String
  comparator : Comparator
  value : String
deriving DecidableEq

namespace Test

/-- The value of a flag that is set. -/
def flagSet : String :=
  "TRUE"

/-- The value of a flag that is not set. -/
def flagClear : String :=
  "FALSE"

/-- The test that holds exactly when `t` does not. -/
def negated (t : Test) : Test :=
  match t.subject with
  | .flag => { t with value := if t.value = flagSet then flagClear else flagSet }
  | .var => { t with comparator := t.comparator.negated }

theorem negated_negated (t : Test)
    (h : t.subject = .flag → t.value = flagSet ∨ t.value = flagClear) :
    t.negated.negated = t := by
  obtain ⟨subject, operand, comparator, value⟩ := t
  cases subject with
  | flag =>
    rcases h rfl with rfl | rfl
    · rfl
    · rfl
  | var => simp [negated, Comparator.negated_negated]

/-- The test as a source text writes it. -/
def display (t : Test) : String :=
  t.subject.display ++ "(" ++ t.operand ++ ") " ++ t.comparator.display ++ " " ++ t.value

end Test

/-- How two conditions are joined. -/
inductive Connective where
  | and
  | or
deriving DecidableEq

/-- How a source text writes a connective. -/
def Connective.display : Connective → String
  | .and => "&&"
  | .or => "||"

/-- A boolean expression over tests. -/
inductive Condition where
  | test (test : Test)
  | join (left : Condition) (connective : Connective) (right : Condition)
deriving DecidableEq

/-- The condition as a source text writes it, with every joined part in parentheses. -/
def Condition.display : Condition → String
  | .test t => t.display
  | .join l c r => "(" ++ l.display ++ ") " ++ c.display ++ " (" ++ r.display ++ ")"

end EventScript
