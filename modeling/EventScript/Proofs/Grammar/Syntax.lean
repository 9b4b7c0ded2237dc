import EventScript.Proofs.Grammar.Phrase
import EventScript.Reader.Declaration

/-!
# The grammar of source texts

The documented grammar, one phrase for each of its rules; the rule stands above the phrase. Beside
the tokens a phrase says what they derive, and under which side conditions.

What the grammar calls `tokens` is a run in which parentheses are balanced. A run ends in front of
its delimiter: a right parenthesis that closes nothing or, outside all parentheses, a token that the
rule names (`Balanced`).

Two rules refer to themselves, those of conditions and of statements. Each is a function of the
phrase for what is nested, and its phrase is the least one that the rule keeps (`condition_eq`,
`statement_eq`).

The rules from table rows up take what the condition of a row may be as a parameter. In the
documented grammar it is any run (`documented`). In the strict one it is not empty, and no row
starts with the bracket that ends its table (`strict`).
-/

namespace EventScript.Grammar

open Phrase

/-! ## Runs -/

/-- Whether a run may hold a token of this kind that is no parenthesis. -/
def isWord : Kind → Bool
  | .symbol .leftParen | .symbol .rightParen | .endOfInput | .error _ => false
  | _ => true

/-- Behind `depth` open parentheses, tokens of these kinds close all of them and leave none open.
Outside all parentheses, none is of a kind that `stops` accepts. -/
inductive Balanced (stops : Kind → Bool) : Nat → List Kind → Prop
  | done : Balanced stops 0 []
  | opening {depth : Nat} {ks : List Kind} (later : Balanced stops (depth + 1) ks) :
      Balanced stops depth (.symbol .leftParen :: ks)
  | closing {depth : Nat} {ks : List Kind} (later : Balanced stops depth ks) :
      Balanced stops (depth + 1) (.symbol .rightParen :: ks)
  | word {depth : Nat} {k : Kind} {ks : List Kind} (hword : isWord k = true)
      (hstop : depth = 0 → stops k = false) (later : Balanced stops depth ks) :
      Balanced stops depth (k :: ks)

/-- A run as a text: `tokens`, up to a delimiter that `stops` accepts. -/
def tokens (stops : Kind → Bool) : Phrase String where
  Derives s text s' := ∃ run, Balanced stops 0 (run.map Token.kind) ∧
    s = { s' with ahead := run ++ s'.ahead } ∧ text = Run.joined (run.map Token.text)
  suffix := by
    rintro s text s' ⟨run, -, h, -⟩
    rw [h]
    exact List.suffix_append _ _

/-- A run that may not be empty. -/
def someTokens (stops : Kind → Bool) : Phrase String := do
  let text ← tokens stops
  require (text ≠ "")
  return text

/-- `ID` -/
def name : Phrase Ident := do
  let t ← token .identifier
  return ⟨t.text, t.span⟩

/-! ## Conditions -/

/-- `'(' tokens ')'` -/
def operand : Phrase String := do
  let _ ← token (.symbol .leftParen)
  let text ← someTokens fun _ => false
  let _ ← token (.symbol .rightParen)
  return text

/-- `sign`, which stands for `c` -/
def comparison (sign : Symbol) (c : Comparator) : Phrase Comparator := do
  let _ ← token (.symbol sign)
  return c

/-- `'=='` for a flag, and `'==' | '!=' | '<' | '<=' | '>' | '>='` for a variable -/
def comparator : Subject → Phrase Comparator
  | .flag => oneOf [comparison .equal .equal]
  | .var => oneOf [comparison .equal .equal, comparison .notEqual .notEqual,
      comparison .less .less, comparison .lessEqual .lessEqual,
      comparison .greater .greater, comparison .greaterEqual .greaterEqual]

/-- `flag '(' tokens ')' '==' (TRUE | FALSE)` -/
def flagTest : Phrase Test := do
  let _ ← token (.keyword .flag)
  let operand ← operand
  let comparator ← comparator .flag
  let value ← oneOf [
    token (.keyword .trueWord) >>= fun _ => pure "TRUE",
    token (.keyword .falseWord) >>= fun _ => pure "FALSE"]
  return ⟨.flag, operand, comparator, value⟩

/-- `var '(' tokens ')' ('==' | '!=' | '<' | '<=' | '>' | '>=') tokens` -/
def varTest : Phrase Test := do
  let _ ← token (.keyword .var)
  let operand ← operand
  let comparator ← comparator .var
  let value ← someTokens fun k => k == .symbol .and || k == .symbol .or
  return ⟨.var, operand, comparator, value⟩

/-- `term ::= '(' bool ')' | flag … | var …` -/
def term (nested : Phrase Condition) : Phrase Condition :=
  oneOf [nested, .test <$> flagTest, .test <$> varTest]

/-- `'&&' | '||'` -/
def connective : Phrase Connective :=
  oneOf [
    token (.symbol .and) >>= fun _ => pure .and,
    token (.symbol .or) >>= fun _ => pure .or]

/-- `('&&' | '||') term` -/
def joinedTerm (nested : Phrase Condition) : Phrase (Connective × Condition) := do
  let connective ← connective
  let right ← term nested
  return (connective, right)

/-- `bool ::= term (('&&' | '||') term)*`. Both connectives group from the left. -/
def bool (nested : Phrase Condition) : Phrase Condition := do
  let first ← term nested
  let later ← many fun _ => joinedTerm nested
  return later.foldl (fun left (connective, right) => .join left connective right) first

/-- `'(' bool ')'`, given what stands for `'(' bool ')'` inside of it. -/
def conditionBy (nested : Phrase Condition) : Phrase Condition := do
  let _ ← token (.symbol .leftParen)
  let c ← bool nested
  let _ ← token (.symbol .rightParen)
  return c

/-- What has a derivation of finite depth by `conditionBy`. -/
inductive IsCondition : ReadState → Condition → ReadState → Prop
  | intro {s s' : ReadState} {c : Condition} (nested : Phrase Condition)
      (hnested : ∀ s c s', nested.Derives s c s' → IsCondition s c s')
      (h : (conditionBy nested).Derives s c s') : IsCondition s c s'

/-- `'(' bool ')'` -/
def condition : Phrase Condition where
  Derives := IsCondition
  suffix := by
    rintro s c s' ⟨nested, -, h⟩
    exact (conditionBy nested).suffix h

/-! ## Commands and jumps -/

/-- The texts pooled so far, and what names the next one. -/
structure Pool where
  session : Session
  texts : List Text

/-- The pool of a state. -/
def poolOf (s : ReadState) : Pool :=
  ⟨s.session, s.texts⟩

/-- What a token puts into an argument: a string is pooled and stands as the name of its text, all
else stands as it is written. -/
def wordOf (p : Pool) (t : Token) : String × Pool :=
  if t.kind = .string then
    let (name, session) := p.session.nextText
    let text : Text := ⟨⟨name, t.span⟩, t.unquoted, none, .fileLocal⟩
    (name, ⟨session, p.texts ++ [text]⟩)
  else
    (t.text, p)

/-- What tokens put into an argument, one after the other. -/
def wordsOf (p : Pool) : List Token → List String × Pool
  | [] => ([], p)
  | t :: ts => ((wordOf p t).1 :: (wordsOf (wordOf p t).2 ts).1, (wordsOf (wordOf p t).2 ts).2)

/-- An argument: a run up to a comma. -/
def argument : Phrase String where
  Derives s text s' := ∃ run, Balanced (· == .symbol .comma) 0 (run.map Token.kind) ∧
    s.ahead = run ++ s'.ahead ∧ text = Run.joined (wordsOf (poolOf s) run).1 ∧
      poolOf s' = (wordsOf (poolOf s) run).2
  suffix := by
    rintro s text s' ⟨run, -, h, -⟩
    rw [h]
    exact List.suffix_append _ _

/-- `arg (',' arg)*`. Every comma delimits an argument, even if it is empty. -/
def arguments : Phrase (List String) := do
  let first ← argument
  let later ← many fun _ => token (.symbol .comma) >>= fun _ => argument
  return first :: later

/-- `args`. No tokens are no argument at all. -/
def args : Phrase (List String) :=
  oneOf [pure [], nonempty arguments]

/-- `ID ['(' args ')'] [';']` -/
def command : Phrase Statement := do
  let name ← name
  let args ← optionally (do
    let _ ← token (.symbol .leftParen)
    let args ← args
    let _ ← token (.symbol .rightParen)
    return args) []
  let _ ← present (.symbol .semicolon)
  return .command name args

/-- `word [';']`, which is a jump of the given kind. -/
def jump (word : Keyword) (kind : JumpKind) : Phrase Statement := do
  let keyword ← token (.keyword word)
  let _ ← present (.symbol .semicolon)
  return .jump kind none keyword.span

/-! ## Statements that hold others -/

/-- Loops and switches are numbered as they start. -/
def number : Phrase ConstructId where
  Derives s id s' :=
    id = s.session.nextConstruct.1 ∧ s' = { s with session := s.session.nextConstruct.2 }
  suffix := by
    rintro s id _ ⟨-, rfl⟩
    exact List.suffix_rfl

section Nested

variable (nested : Phrase Statement)

/-- `block ::= '{' stmt* '}'` -/
def block : Phrase (Block Statement) := do
  let opening ← token (.symbol .leftBrace)
  let statements ← manyUntil (fun _ => nested) (.symbol .rightBrace)
  return ⟨statements, opening.span⟩

/-- `'(' bool ')' block` -/
def guarded : Phrase (Guarded Statement) := do
  let condition ← condition
  let body ← block nested
  return ⟨condition, body⟩

/-- `if '(' bool ')' block (elif '(' bool ')' block)* [else block]` -/
def conditional : Phrase Statement := do
  let keyword ← token (.keyword .ifWord)
  let first ← guarded nested
  let elifs ← many fun _ => token (.keyword .elif) >>= fun _ => guarded nested
  let otherwise ← optionally (token (.keyword .elseWord) >>= fun _ => some <$> block nested) none
  return .conditional first elifs otherwise keyword.span

/-- `while '(' bool ')' block` -/
def whileLoop : Phrase Statement := do
  let keyword ← token (.keyword .whileWord)
  let id ← number
  let guarded ← guarded nested
  return .loop .testFirst id guarded keyword.span

/-- `do block while '(' bool ')' [';']` -/
def doLoop : Phrase Statement := do
  let keyword ← token (.keyword .doWord)
  let id ← number
  let body ← block nested
  let _ ← token (.keyword .whileWord)
  let condition ← condition
  let _ ← present (.symbol .semicolon)
  return .loop .testLast id ⟨condition, body⟩ keyword.span

/-- `case tokens | default`, and the token it starts with -/
def caseLabel : Phrase (CaseLabel × Token) :=
  oneOf [
    do
      let keyword ← token (.keyword .case)
      let value ← someTokens (· == .symbol .colon)
      return (.value value, keyword),
    do
      let keyword ← token (.keyword .default)
      return (.default, keyword)]

/-- `case tokens ':' stmt* | default ':' stmt*`. No label repeats one of the cases before. -/
def switchCase (earlier : List (Case Statement)) : Phrase (Case Statement) := do
  let (label, keyword) ← caseLabel
  require (∀ c ∈ earlier, c.label ≠ label)
  let _ ← token (.symbol .colon)
  let statements ← many fun _ => nested
  return ⟨label, ⟨statements, keyword.span⟩⟩

/-- `switch '(' var '(' tokens ')' ')' '{' (case … | default …)* '}'` -/
def switch : Phrase Statement := do
  let keyword ← token (.keyword .switch)
  let id ← number
  let _ ← token (.symbol .leftParen)
  let _ ← token (.keyword .var)
  let operand ← operand
  let _ ← token (.symbol .rightParen)
  let _ ← token (.symbol .leftBrace)
  let cases ← manyUntil (switchCase nested) (.symbol .rightBrace)
  return .switch id operand cases keyword.span

/-- `stmt ::= ID … | if … | while … | do … | switch … | break … | continue … | block`, given what
stands for `stmt` inside of it. -/
def statementBy : Phrase Statement :=
  oneOf [command, conditional nested, whileLoop nested, doLoop nested, switch nested,
    jump .breakWord .leave, jump .continueWord .again, .block <$> block nested]

end Nested

/-- What has a derivation of finite depth by `statementBy`. -/
inductive IsStatement : ReadState → Statement → ReadState → Prop
  | intro {s s' : ReadState} {a : Statement} (nested : Phrase Statement)
      (hnested : ∀ s a s', nested.Derives s a s' → IsStatement s a s')
      (h : (statementBy nested).Derives s a s') : IsStatement s a s'

/-- `stmt` -/
def statement : Phrase Statement where
  Derives := IsStatement
  suffix := by
    rintro s a s' ⟨nested, -, h⟩
    exact (statementBy nested).suffix h

/-! ## Declarations -/

/-- `scope ::= '(' ('global' | 'local') ')'`, where it may be left out -/
def scope (usual : Scope) : Phrase Scope :=
  optionally (do
    let _ ← token (.symbol .leftParen)
    let word ← name
    let scope ← given (Reader.scopeOf? word.name)
    let _ ← token (.symbol .rightParen)
    return scope) usual

/-- `script ::= 'script' scope? ID block` -/
def script : Phrase Statement := do
  let _ ← token (.keyword .script)
  let scope ← scope .global
  let name ← name
  let body ← block statement
  return .script name scope body

/-- `raw ::= ('raw' | 'rawglobal') RAWSTRING`, for one of the two words -/
def raw (word : Keyword) (scope : Scope) : Phrase Statement := do
  let keyword ← token (.keyword word)
  let content ← token .rawString
  return .raw content.unquoted scope keyword.span

/-- `text ::= 'text' scope? ID '{' ID? STRING+ '}'` -/
def text : Phrase Statement := do
  let _ ← token (.keyword .text)
  let scope ← scope .fileLocal
  let name ← name
  let _ ← token (.symbol .leftBrace)
  let directive ← optionally (token .identifier >>= fun t => pure (some t.text)) none
  let first ← token .string
  let later ← many fun _ => token .string
  let _ ← token (.symbol .rightBrace)
  return .text ⟨name, String.join ((first :: later).map Token.unquoted), directive, scope⟩

/-- `NUMBER`, in decimal and at most 255 -/
def repeatCount : Phrase Nat := do
  let t ← token .number
  let n ← given (Reader.decimal? t.text)
  require (n ≤ 255)
  return n

/-- `ID ['*' NUMBER] [',']`, as often as the step is made -/
def step : Phrase (List String) := do
  let name ← name
  let count ← optionally (token (.symbol .star) >>= fun _ => repeatCount) 1
  let _ ← present (.symbol .comma)
  return List.replicate count name.name

/-- `movement ::= 'movement' scope? ID '{' (ID ['*' NUMBER] [','])* '}'` -/
def movement : Phrase Statement := do
  let _ ← token (.keyword .movement)
  let scope ← scope .fileLocal
  let name ← name
  let _ ← token (.symbol .leftBrace)
  let steps ← manyUntil (fun _ => step) (.symbol .rightBrace)
  return .movement name steps.flatten scope

/-- `ID [',']` -/
def item : Phrase String := do
  let name ← name
  let _ ← present (.symbol .comma)
  return name.name

/-- `mart ::= 'mart' scope? ID '{' (ID [','])* '}'` -/
def mart : Phrase Statement := do
  let _ ← token (.keyword .mart)
  let scope ← scope .fileLocal
  let name ← name
  let _ ← token (.symbol .leftBrace)
  let items ← manyUntil (fun _ => item) (.symbol .rightBrace)
  return .mart name items scope

/-! ## Map scripts -/

/-- `':' ID | block` -/
def target : Phrase (Target Statement) :=
  oneOf [token (.symbol .colon) >>= fun _ => .symbol <$> name, .inline <$> block statement]

/-- `entry ::= ID (':' ID | block)` -/
def entry : Phrase Reader.Member := do
  let trigger ← name
  let target ← target
  return .entry ⟨trigger, target⟩

section Rows

variable (condition : Phrase String)

/-- `tokens ',' tokens (':' ID | block)`, the first of the two given by `condition` -/
def row : Phrase (MapRow Statement) := do
  let condition ← condition
  let _ ← token (.symbol .comma)
  let value ← someTokens fun k => k == .symbol .colon || k == .symbol .leftBrace
  let target ← target
  return ⟨condition, value, target⟩

/-- `table ::= ID '[' (tokens ',' tokens (':' ID | block))* ']'` -/
def table : Phrase Reader.Member := do
  let trigger ← name
  let _ ← token (.symbol .leftBracket)
  let rows ← manyUntil (fun _ => row condition) (.symbol .rightBracket)
  return .table ⟨trigger, rows⟩

/-- `mapscripts ::= 'mapscripts' scope? ID '{' (entry | table)* '}'`. Entries and tables are kept
apart. -/
def mapScripts : Phrase Statement := do
  let _ ← token (.keyword .mapScripts)
  let scope ← scope .global
  let name ← name
  let _ ← token (.symbol .leftBrace)
  let members ← manyUntil (fun _ => oneOf [entry, table condition]) (.symbol .rightBrace)
  return .mapScripts name scope (members.filterMap Reader.Member.entry?)
    (members.filterMap Reader.Member.table?)

/-! ## Programs -/

/-- `top ::= script | raw | text | movement | mart | mapscripts` -/
def declaration : Phrase Statement :=
  oneOf [script, raw .raw .fileLocal, raw .rawGlobal .global, text, movement, mart,
    mapScripts condition]

/-- `program ::= top*` -/
def program : Phrase (List Statement) :=
  many fun _ => declaration condition

end Rows

/-- The documented grammar, in which the condition of a row is any run up to a comma. -/
def documented : Phrase (List Statement) :=
  program (tokens (· == .symbol .comma))

/-- The next token is not of kind `k`. -/
def notAhead (k : Kind) : Phrase Unit where
  Derives s _ s' := (∃ t later, s.ahead = t :: later ∧ t.kind ≠ k) ∧ s' = s
  suffix := by
    rintro s _ _ ⟨-, rfl⟩
    exact List.suffix_rfl

/-- The condition of a row where a right bracket always ends the table. -/
def rowCondition : Phrase String := do
  notAhead (.symbol .rightBracket)
  someTokens (· == .symbol .comma)

/-- The grammar in which the condition of a row is a `rowCondition`. -/
def strict : Phrase (List Statement) :=
  program rowCondition

end EventScript.Grammar
