import EventScript.Reader.Condition

/-!
# Reading statements

The statements of a body, up to a block. `statementBy nested` reads one statement, given how to
read the statements inside of it; `statement` ties the knot.

A string among the arguments of a command is moved into the text pool, and the name it gets stands
in its place.
-/

namespace EventScript.Reader

/-! ## Commands -/

/-- Hands out the number of a loop or switch. -/
def nextConstruct : Reader ConstructId :=
  modifyGet fun s => (s.session.nextConstruct.1, { s with session := s.session.nextConstruct.2 })

/-- Moves a string into the text pool and gives the name of the text. -/
def poolText (t : Token) : Reader String :=
  modifyGet fun s =>
    let (name, session) := s.session.nextText
    let text : Text := ⟨⟨name, t.span⟩, t.unquoted, none, .fileLocal⟩
    (name, { s with session := session, texts := s.texts ++ [text] })

/-- What stands for a token in an argument: a string by the name of its text, all else as it is
written. The kind is kept. -/
def argumentWord (t : Token) : Reader (Kind × String) := do
  if t.kind = .string then
    let name ← poolText t
    return (t.kind, name)
  else
    return (t.kind, t.text)

/-- Splits words at the commas outside all parentheses; `depth` parentheses are open in front. -/
def splitWords (depth : Nat) : List (Kind × String) → List (List String)
  | [] => [[]]
  | (k, word) :: later =>
    if k = .symbol .comma ∧ depth = 0 then [] :: splitWords depth later
    else
      match splitWords (Run.depthAfter depth k) later with
      | [] => [[word]]
      | first :: others => (word :: first) :: others

/-- The arguments that words make up: none at all for no words, and else one more than there are
commas outside all parentheses. -/
def argumentsOf (words : List (Kind × String)) : List String :=
  if words.isEmpty then [] else (splitWords 0 words).map Run.joined

/-- The arguments of the command `name`, from behind the opening parenthesis. They end at the
parenthesis that closes it. -/
def arguments (name : Ident) : Reader (List String) := do
  let (tokens, rest) := Run.spanRun (fun _ => false) 0 (← get).ahead
  let words ← tokens.mapM argumentWord
  modify fun s => { s with ahead := rest }
  let t ← advance
  match t.kind with
  | .endOfInput => throw ⟨name.span, .unterminatedArguments name.name⟩
  | .error cause => fail t (.lexical cause)
  | _ => return argumentsOf words

/-- A command, with its arguments in parentheses if it has any. -/
def command : Reader Statement := do
  let name ← identifier
  let args ← if ← take (.symbol .leftParen) then arguments name else pure []
  let _ ← take (.symbol .semicolon)
  return .command name args

/-! ## Jumps -/

/-- A jump, whose target is not known at this point. -/
def jump (kind : JumpKind) : Reader Statement := do
  let keyword ← advance
  let _ ← take (.symbol .semicolon)
  return .jump kind none keyword.span

/-! ## Blocks, conditionals and loops -/

/-- Statements between braces. -/
def block (nested : Reader Statement) : Reader (Block Statement) := do
  let opening ← consume (.symbol .leftBrace)
  let statements ← manyUntil (.symbol .rightBrace) opening fun _ => nested
  return ⟨statements, opening.span⟩

/-- A condition in parentheses and a block. -/
def guarded (nested : Reader Statement) : Reader (Guarded Statement) := do
  let condition ← condition
  let body ← block nested
  return ⟨condition, body⟩

/-- A conditional with any number of `elif` parts, and an `else` part or none. -/
def conditional (nested : Reader Statement) : Reader Statement := do
  let keyword ← consume (.keyword .ifWord)
  let first ← guarded nested
  let elifs ← many (· == .keyword .elif) fun _ => do
    let _ ← advance
    guarded nested
  let otherwise ← if ← take (.keyword .elseWord) then some <$> block nested else pure none
  return .conditional first elifs otherwise keyword.span

/-- A loop that tests its condition first. -/
def whileLoop (nested : Reader Statement) : Reader Statement := do
  let keyword ← consume (.keyword .whileWord)
  let id ← nextConstruct
  let guarded ← guarded nested
  return .loop .testFirst id guarded keyword.span

/-- A loop that tests its condition last. -/
def doLoop (nested : Reader Statement) : Reader Statement := do
  let keyword ← consume (.keyword .doWord)
  let id ← nextConstruct
  let body ← block nested
  let _ ← consume (.keyword .whileWord)
  let condition ← condition
  let _ ← take (.symbol .semicolon)
  return .loop .testLast id ⟨condition, body⟩ keyword.span

/-! ## Switches -/

/-- The label of a case inside the brace `opening`, behind the cases `earlier`. -/
def caseLabel (opening : Token) (earlier : List (Case Statement)) : Reader CaseLabel := do
  let t ← peek
  match t.kind with
  | .keyword .case =>
    let _ ← advance
    let value ← run (· == .symbol .colon) opening
    if value = "" then fail t .missingCaseValue
    if earlier.any (·.label == .value value) then fail t (.duplicateCase value)
    return .value value
  | .keyword .default =>
    let _ ← advance
    if earlier.any (·.label == .default) then fail t .duplicateDefault
    return .default
  | _ =>
    refuse t (.unexpectedAny t.kind [.keyword .case, .keyword .default, .symbol .rightBrace])

/-- Whether the statements of a case go on at a token of kind `k`. -/
def inCase : Kind → Bool
  | .keyword .case | .keyword .default | .symbol .rightBrace | .endOfInput => false
  | _ => true

/-- A case inside the brace `opening`, behind the cases `earlier`. Its block is placed at the
keyword, since it has no brace of its own. -/
def switchCase (nested : Reader Statement) (opening : Token) (earlier : List (Case Statement)) :
    Reader (Case Statement) := do
  let keyword ← peek
  let label ← caseLabel opening earlier
  let _ ← consume (.symbol .colon)
  let statements ← many inCase fun _ => nested
  return ⟨label, ⟨statements, keyword.span⟩⟩

/-- A switch over a variable. -/
def switch (nested : Reader Statement) : Reader Statement := do
  let keyword ← consume (.keyword .switch)
  let id ← nextConstruct
  let outer ← consume (.symbol .leftParen)
  ensureOpen outer
  let var ← consume (.keyword .var)
  let operand ← operand .var var outer
  let _ ← close (.symbol .rightParen) outer
  let opening ← consume (.symbol .leftBrace)
  let cases ← manyUntil (.symbol .rightBrace) opening (switchCase nested opening)
  return .switch id operand cases keyword.span

/-! ## All statements of a body -/

/-- One statement of a body; `nested` reads the statements inside of it. -/
def statementBy (nested : Reader Statement) : Reader Statement := do
  let t ← peek
  match t.kind with
  | .identifier => command
  | .keyword .ifWord => conditional nested
  | .keyword .whileWord => whileLoop nested
  | .keyword .doWord => doLoop nested
  | .keyword .switch => switch nested
  | .keyword .breakWord => jump .leave
  | .keyword .continueWord => jump .again
  | .symbol .leftBrace => .block <$> block nested
  | _ => refuse t (.invalidStatement t.text)

/-- One statement of a body, in which statements nest less than `bound` deep. -/
def statementWithin : Nat → Reader Statement
  | 0 => do
    let t ← peek
    refuse t (.invalidStatement t.text)
  | bound + 1 => statementBy (statementWithin bound)

/-- One statement of a body. Whatever holds statements takes a token before the first of them, so
their depth stays below the number of tokens ahead. -/
def statement : Reader Statement := do
  statementWithin (← get).ahead.length

end EventScript.Reader
