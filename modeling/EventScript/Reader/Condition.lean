import EventScript.Reader.Run

/-!
# Reading conditions

A condition stands in parentheses. Inside, terms are joined by `&&` and `||`, which bind equally
and group from the left; a term is a test or a condition in parentheses of its own. If the text
ends inside a condition, the innermost open parenthesis is reported.
-/

namespace EventScript.Reader

/-! ## Tests -/

/-- The comparator that a token of kind `k` stands for, if a test of the subject may use it. -/
def comparator? (subject : Subject) (k : Kind) : Option Comparator :=
  match subject, k with
  | _, .symbol .equal => some .equal
  | .var, .symbol .notEqual => some .notEqual
  | .var, .symbol .less => some .less
  | .var, .symbol .lessEqual => some .lessEqual
  | .var, .symbol .greater => some .greater
  | .var, .symbol .greaterEqual => some .greaterEqual
  | _, _ => none

/-- Whether a token of kind `k` joins two terms. -/
def isConnective (k : Kind) : Bool :=
  k == .symbol .and || k == .symbol .or

/-- The comparator of a test. -/
def comparator (subject : Subject) : Reader Comparator := do
  let t ← peek
  match comparator? subject t.kind with
  | some c =>
    let _ ← advance
    return c
  | none => refuse t (.invalidComparator subject t.text)

/-- The value that a flag is compared with. -/
def flagValue : Reader String := do
  let t ← peek
  match t.kind with
  | .keyword .trueWord =>
    let _ ← advance
    return Test.flagSet
  | .keyword .falseWord =>
    let _ ← advance
    return Test.flagClear
  | .symbol .rightParen | .symbol .and | .symbol .or => fail t (.missingValue .flag)
  | _ => fail t (.invalidFlagValue t.text)

/-- The value that a variable is compared with. -/
def varValue (outer : Token) : Reader String := do
  let t ← peek
  let value ← run isConnective outer
  if value = "" then fail t (.missingValue .var) else return value

/-- What stands in parentheses behind `flag` or `var`; `keyword` is that word. -/
def operand (subject : Subject) (keyword outer : Token) : Reader String := do
  let opening ← close (.symbol .leftParen) outer
  let text ← run (fun _ => false) opening
  if text = "" then fail keyword (.missingOperand subject)
  let _ ← consume (.symbol .rightParen)
  return text

/-- The subject that a keyword names; anything but `flag` is taken for `var`. -/
def subjectOf (keyword : Token) : Subject :=
  if keyword.kind = .keyword .flag then .flag else .var

/-- A test inside the parenthesis `outer`. -/
def test (outer : Token) : Reader Test := do
  let keyword ← advance
  let subject := subjectOf keyword
  let operand ← operand subject keyword outer
  ensureOpen outer
  let comparator ← comparator subject
  ensureOpen outer
  let value ← match subject with
    | .flag => flagValue
    | .var => varValue outer
  return ⟨subject, operand, comparator, value⟩

/-! ## Terms and parentheses -/

/-- A term inside the parenthesis `outer`; `nested` reads a condition in parentheses. -/
def term (nested : Reader Condition) (outer : Token) : Reader Condition := do
  ensureOpen outer
  let t ← peek
  match t.kind with
  | .symbol .leftParen => nested
  | .keyword .flag | .keyword .var => return .test (← test outer)
  | _ => refuse t (.invalidTerm t.text)

/-- The connective that a token stands for; anything but `&&` is taken for `||`. -/
def connectiveOf (t : Token) : Connective :=
  if t.kind = .symbol .and then .and else .or

/-- A connective and the term behind it. -/
def joinedTerm (nested : Reader Condition) (outer : Token) : Reader (Connective × Condition) := do
  let t ← advance
  let right ← term nested outer
  return (connectiveOf t, right)

/-- Joins terms from the left. -/
def joinLeft (first : Condition) (later : List (Connective × Condition)) : Condition :=
  later.foldl (fun left (connective, right) => .join left connective right) first

/-- Terms and connectives inside the parenthesis `outer`. -/
def terms (nested : Reader Condition) (outer : Token) : Reader Condition := do
  let first ← term nested outer
  let later ← many isConnective fun _ => joinedTerm nested outer
  return joinLeft first later

/-- A condition in parentheses, in which parentheses nest less than `bound` deep. -/
def conditionWithin : Nat → Reader Condition
  | 0 => do
    let t ← peek
    refuse t (.unexpected t.kind (.symbol .leftParen))
  | bound + 1 => do
    let opening ← consume (.symbol .leftParen)
    let condition ← terms (conditionWithin bound) opening
    let _ ← close (.symbol .rightParen) opening
    return condition

/-- A condition in parentheses. Each nested parenthesis is a token, so their depth stays below the
number of tokens ahead. -/
def condition : Reader Condition := do
  conditionWithin (← get).ahead.length

end EventScript.Reader
