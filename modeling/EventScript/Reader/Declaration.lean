import EventScript.Reader.Statement

/-!
# Reading declarations

The statements of the top level: scripts, raw text, texts, movements, marts and map scripts. Where
a declaration may name its scope in parentheses, leaving that out means global for scripts and map
scripts and file-local for data.
-/

namespace EventScript.Reader

/-! ## Parts of declarations -/

/-- The scope that a word names. -/
def scopeOf? (word : String) : Option Scope :=
  if word = "global" then some .global else if word = "local" then some .fileLocal else none

/-- A scope in parentheses; `usual` if there is none. -/
def scope (usual : Scope) : Reader Scope := do
  if ← take (.symbol .leftParen) then
    let word ← identifier
    match scopeOf? word.name with
    | some scope =>
      let _ ← consume (.symbol .rightParen)
      return scope
    | none => throw ⟨word.span, .invalidScope word.name⟩
  else
    return usual

/-- A block of the script language. -/
def body : Reader (Block Statement) :=
  block statement

/-! ## Scripts and raw text -/

/-- A script. -/
def script : Reader Statement := do
  let _ ← consume (.keyword .script)
  let scope ← scope .global
  let name ← identifier
  let body ← body
  return .script name scope body

/-- A raw text of the given scope. -/
def raw (scope : Scope) : Reader Statement := do
  let keyword ← advance
  let content ← consume .rawString
  return .raw content.unquoted scope keyword.span

/-! ## Data -/

/-- A text: the directive that encodes it, if it names one, and strings that are joined. -/
def text : Reader Statement := do
  let _ ← consume (.keyword .text)
  let scope ← scope .fileLocal
  let name ← identifier
  let opening ← consume (.symbol .leftBrace)
  let directive ← if (← peek).kind = .identifier then
      let t ← advance
      pure (some t.text)
    else
      pure none
  let first ← consume .string
  let later ← many (· == .string) fun _ => advance
  let _ ← close (.symbol .rightBrace) opening
  return .text ⟨name, String.join ((first :: later).map Token.unquoted), directive, scope⟩

/-- The largest number of times that a movement may repeat a step. -/
def maxRepeatCount : Nat :=
  255

/-- The number that decimal digits write; `none` for any other text. -/
def decimal? (digits : String) : Option Nat :=
  if digits.toList.all Char.isDigit && digits != "" then
    some (digits.toList.foldl (fun n c => 10 * n + (c.toNat - '0'.toNat)) 0)
  else
    none

/-- How often a step is repeated, behind the star. -/
def repeatCount : Reader Nat := do
  let t ← consume .number
  match decimal? t.text with
  | some n => if n ≤ maxRepeatCount then return n else fail t .invalidRepeatCount
  | none => fail t .invalidRepeatCount

/-- A step of a movement as often as it is to be made, and the comma behind it if there is one. -/
def step : Reader (List String) := do
  let name ← identifier
  let count ← if ← take (.symbol .star) then repeatCount else pure 1
  let _ ← take (.symbol .comma)
  return List.replicate count name.name

/-- A movement. -/
def movement : Reader Statement := do
  let _ ← consume (.keyword .movement)
  let scope ← scope .fileLocal
  let name ← identifier
  let opening ← consume (.symbol .leftBrace)
  let steps ← manyUntil (.symbol .rightBrace) opening fun _ => step
  return .movement name steps.flatten scope

/-- An item of a mart, and the comma behind it if there is one. -/
def item : Reader String := do
  let name ← identifier
  let _ ← take (.symbol .comma)
  return name.name

/-- A mart. -/
def mart : Reader Statement := do
  let _ ← consume (.keyword .mart)
  let scope ← scope .fileLocal
  let name ← identifier
  let opening ← consume (.symbol .leftBrace)
  let items ← manyUntil (.symbol .rightBrace) opening fun _ => item
  return .mart name items scope

/-! ## Map scripts -/

/-- What a map script runs: the name of a script behind a colon, or a block. -/
def target : Reader (Target Statement) := do
  let t ← peek
  match t.kind with
  | .symbol .colon =>
    let _ ← advance
    .symbol <$> identifier
  | .symbol .leftBrace => .inline <$> body
  | _ => refuse t (.unexpectedAny t.kind [.symbol .colon, .symbol .leftBrace])

/-- Whether the value of a table row ends at a token of kind `k`. -/
def endsRowValue (k : Kind) : Bool :=
  k == .symbol .colon || k == .symbol .leftBrace

/-- A row of the table that `opening` opens. -/
def row (opening : Token) : Reader (MapRow Statement) := do
  let t ← peek
  let condition ← run (· == .symbol .comma) opening
  let _ ← consume (.symbol .comma)
  let value ← run endsRowValue opening
  if condition = "" ∨ value = "" then fail t .missingRowValue
  let target ← target
  return ⟨condition, value, target⟩

/-- A part of a map scripts declaration. -/
inductive Member where
  | entry (entry : MapEntry Statement)
  | table (table : MapTable Statement)

/-- The simple entry that a part is. -/
def Member.entry? : Member → Option (MapEntry Statement)
  | .entry e => some e
  | .table _ => none

/-- The table that a part is. -/
def Member.table? : Member → Option (MapTable Statement)
  | .entry _ => none
  | .table t => some t

/-- A trigger with what it runs, or with a table. -/
def member : Reader Member := do
  let trigger ← identifier
  let t ← peek
  if t.kind = .symbol .leftBracket then
    let opening ← advance
    let rows ← manyUntil (.symbol .rightBracket) opening fun _ => row opening
    return .table ⟨trigger, rows⟩
  else
    let target ← target
    return .entry ⟨trigger, target⟩

/-- Map scripts; simple entries and tables are kept apart. -/
def mapScripts : Reader Statement := do
  let _ ← consume (.keyword .mapScripts)
  let scope ← scope .global
  let name ← identifier
  let opening ← consume (.symbol .leftBrace)
  let members ← manyUntil (.symbol .rightBrace) opening fun _ => member
  return .mapScripts name scope (members.filterMap Member.entry?) (members.filterMap Member.table?)

/-! ## All declarations -/

/-- One statement of the top level. -/
def declaration : Reader Statement := do
  let t ← peek
  match t.kind with
  | .keyword .script => script
  | .keyword .raw => raw .fileLocal
  | .keyword .rawGlobal => raw .global
  | .keyword .text => text
  | .keyword .movement => movement
  | .keyword .mart => mart
  | .keyword .mapScripts => mapScripts
  | _ => refuse t (.invalidTopLevel t.text)

end EventScript.Reader
