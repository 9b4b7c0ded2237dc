import EventScript.Token.Basic

/-!
# Cutting a source text into tokens

`lex` cuts a text into tokens, each the longest that its first character allows. White space and
comments are tokens too, and text that fits no kind becomes an error token, so every text can be
cut. The character U+0000 stands for the end of the text wherever it is met: inside quotes it
leaves them open, and between two tokens it ends the reading.

The work has two layers. `scan` finds where the token ends that starts with a given character, and
`lexFrom` repeats that and keeps account of offsets and lines, which are numbers without a bound
here. `Checked.lexFrom` cuts in the same places and counts lines with 32 bits.

Results:
* `scan_tail_append_rest`: cutting loses no character and moves none.
* `length_rest_scan_le`: what stands behind a token is no longer than what stands behind its first
  character, so the reading ends.
-/

namespace EventScript

/-- Where a token ends: its kind, its characters behind the first one, and the text behind it. -/
structure Cut where
  kind : Kind
  tail : List Char
  rest : List Char
deriving DecidableEq

namespace Cut

/-- Takes in one more character, before those that the token has behind its first one. -/
def push (c : Char) (t : Cut) : Cut :=
  { t with tail := c :: t.tail }

/-- All characters of a cut in order. -/
def whole (t : Cut) : List Char :=
  t.tail ++ t.rest

theorem whole_push (c : Char) (t : Cut) : (t.push c).whole = c :: t.whole := rfl

end Cut

/-- A text cut into tokens: all tokens before the end, and the token that marks the end. -/
structure Lexed where
  tokens : List Token
  stop : Token
deriving DecidableEq

namespace Lexer

/-! ## Character classes -/

/-- The character that stands for the end of the text. -/
def endMark : Char :=
  '\x00'

/-- Words start with a letter of the English alphabet or an underscore. -/
def isWordStart (c : Char) : Bool :=
  c.isAlpha || c == '_'

/-- Words go on with letters, digits and underscores. -/
def isWordPart (c : Char) : Bool :=
  c.isAlphanum || c == '_'

/-- The digits of a number in base sixteen. -/
def isHexDigit (c : Char) : Bool :=
  c.isDigit || ('a' ≤ c && c ≤ 'f') || ('A' ≤ c && c ≤ 'F')

/-- Space, tab, line feed, form feed and carriage return. -/
def isBlank (c : Char) : Bool :=
  c == ' ' || c == '\t' || c == '\n' || c == '\x0c' || c == '\r'

/-- A comment runs up to the end of its line. -/
def inComment (c : Char) : Bool :=
  c != '\n' && c != endMark

/-! ## Finding the end of one token -/

/-- A token that ends with its first character. -/
def single (kind : Kind) (cs : List Char) : Cut :=
  ⟨kind, [], cs⟩

/-- A token that goes on for as long as the characters pass `inside`. -/
def run (kind : Kind) (inside : Char → Bool) (cs : List Char) : Cut :=
  ⟨kind, cs.takeWhile inside, cs.dropWhile inside⟩

/-- A token of kind `double` if `second` follows at once, and one of kind `alone` if not. -/
def pair (second : Char) (double alone : Kind) (cs : List Char) : Cut :=
  if cs.head? = some second then ⟨double, [second], cs.tail⟩ else single alone cs

/-- The rest of a string. A backslash takes the next character with it, so that an escaped quote
does not close the string; escapes stay as they are written. -/
def stringTail (escaped : Bool) : List Char → Cut
  | [] => ⟨.error .unclosedString, [], []⟩
  | c :: cs =>
    if c = endMark then ⟨.error .unclosedString, [c], cs⟩
    else if escaped then Cut.push c (stringTail false cs)
    else if c = '"' then ⟨.string, [c], cs⟩
    else Cut.push c (stringTail (c == '\\') cs)

/-- The rest of a raw string, which has no escapes. -/
def rawStringTail : List Char → Cut
  | [] => ⟨.error .unclosedRawString, [], []⟩
  | c :: cs =>
    if c = endMark then ⟨.error .unclosedRawString, [c], cs⟩
    else if c = '\x60' then ⟨.rawString, [c], cs⟩
    else Cut.push c (rawStringTail cs)

/-- The rest of a number: decimal digits, or after a leading 0 the letter x and any count of
digits in base sixteen. -/
def numberTail (first : Char) (cs : List Char) : Cut :=
  match cs with
  | c :: ds =>
    if first = '0' ∧ (c = 'x' ∨ c = 'X') then Cut.push c (run .number isHexDigit ds)
    else run .number Char.isDigit cs
  | [] => single .number cs

/-- The kind of a word: a keyword if it spells one, and else an identifier. -/
def wordKind (word : List Char) : Kind :=
  match Keyword.ofSpelling? (String.ofList word) with
  | some k => .keyword k
  | none => .identifier

/-- The rest of a keyword or identifier. -/
def wordTail (first : Char) (cs : List Char) : Cut :=
  run (wordKind (first :: cs.takeWhile isWordPart)) isWordPart cs

/-- Finds the end of the token that starts with `first` and goes on in `cs`. -/
def scan (first : Char) (cs : List Char) : Cut :=
  match first with
  | '(' => single (.symbol .leftParen) cs
  | ')' => single (.symbol .rightParen) cs
  | '{' => single (.symbol .leftBrace) cs
  | '}' => single (.symbol .rightBrace) cs
  | '[' => single (.symbol .leftBracket) cs
  | ']' => single (.symbol .rightBracket) cs
  | ',' => single (.symbol .comma) cs
  | ':' => single (.symbol .colon) cs
  | ';' => single (.symbol .semicolon) cs
  | '.' => single (.symbol .dot) cs
  | '+' => single (.symbol .plus) cs
  | '-' => single (.symbol .minus) cs
  | '*' => single (.symbol .star) cs
  | '/' =>
    if cs.head? = some '/' then run .comment inComment cs else single (.symbol .slash) cs
  | '#' => run .comment inComment cs
  | '|' => pair '|' (.symbol .or) (.symbol .pipe) cs
  | '&' => pair '&' (.symbol .and) (.symbol .ampersand) cs
  | '=' => pair '=' (.symbol .equal) (.error .unexpectedCharacter) cs
  | '!' => pair '=' (.symbol .notEqual) (.symbol .bang) cs
  | '<' => pair '=' (.symbol .lessEqual) (.symbol .less) cs
  | '>' => pair '=' (.symbol .greaterEqual) (.symbol .greater) cs
  | '"' => stringTail false cs
  | '\x60' => rawStringTail cs
  | c =>
    if isWordStart c then wordTail c cs
    else if c.isDigit then numberTail c cs
    else if isBlank c then run .whitespace isBlank cs
    else single (.error .unexpectedCharacter) cs

/-! ## Cutting loses nothing -/

theorem whole_single (kind : Kind) (cs : List Char) : (single kind cs).whole = cs := rfl

theorem whole_run (kind : Kind) (inside : Char → Bool) (cs : List Char) :
    (run kind inside cs).whole = cs :=
  List.takeWhile_append_dropWhile

theorem whole_pair (second : Char) (double alone : Kind) (cs : List Char) :
    (pair second double alone cs).whole = cs := by
  cases cs with
  | nil => rfl
  | cons c cs =>
    unfold pair
    split
    · next h =>
      obtain rfl : c = second := Option.some.inj h
      rfl
    · rfl

theorem whole_stringTail (escaped : Bool) (cs : List Char) :
    (stringTail escaped cs).whole = cs := by
  induction cs generalizing escaped with
  | nil => rfl
  | cons c cs ih =>
    unfold stringTail
    split
    · rfl
    · split
      · rw [Cut.whole_push, ih]
      · split
        · rfl
        · rw [Cut.whole_push, ih]

theorem whole_rawStringTail (cs : List Char) : (rawStringTail cs).whole = cs := by
  induction cs with
  | nil => rfl
  | cons c cs ih =>
    unfold rawStringTail
    split
    · rfl
    · split
      · rfl
      · rw [Cut.whole_push, ih]

theorem whole_numberTail (first : Char) (cs : List Char) :
    (numberTail first cs).whole = cs := by
  cases cs with
  | nil => rfl
  | cons c ds =>
    simp only [numberTail]
    split
    · rw [Cut.whole_push, whole_run]
    · rw [whole_run]

theorem scan_tail_append_rest (first : Char) (cs : List Char) :
    (scan first cs).tail ++ (scan first cs).rest = cs := by
  change (scan first cs).whole = cs
  unfold scan
  repeat' split
  all_goals
    simp only [whole_single, whole_run, whole_pair, whole_stringTail, whole_rawStringTail,
      whole_numberTail, wordTail]

theorem length_rest_scan_le (first : Char) (cs : List Char) :
    (scan first cs).rest.length ≤ cs.length := by
  have h := congrArg List.length (scan_tail_append_rest first cs)
  rw [List.length_append] at h
  omega

/-! ## Cutting a whole text -/

/-- Cuts `cs`, which stands at byte `start` and starts in line `line`. -/
def lexFrom (start line : Nat) (cs : List Char) : Lexed :=
  match cs with
  | [] => ⟨[], ⟨.endOfInput, "", start, line⟩⟩
  | c :: cs =>
    if c = endMark then ⟨[], ⟨.endOfInput, String.ofList [c], start, line⟩⟩
    else
      let cut := scan c cs
      let token : Token := ⟨cut.kind, String.ofList (c :: cut.tail), start, line⟩
      let later :=
        lexFrom token.span.stop (line + Token.lineFeeds (c :: cut.tail)) cut.rest
      ⟨token :: later.tokens, later.stop⟩
termination_by cs.length
decreasing_by
  have := length_rest_scan_le c cs
  simp only [List.length_cons]
  omega

end Lexer

/-- Cuts a source text into tokens. -/
def lex (src : String) : Lexed :=
  Lexer.lexFrom 0 1 src.toList

namespace Lexed

/-- All tokens in order, the end token last. -/
def all (l : Lexed) : List Token :=
  l.tokens ++ [l.stop]

/-- The tokens that carry meaning. -/
def meaningful (l : Lexed) : List Token :=
  l.tokens.filter fun t => !t.kind.isTrivia

end Lexed
end EventScript
