/-!
# Kinds of tokens

The vocabulary of the script language: its keywords, its symbols, and the kinds of token that a
source text is cut into.

* `Keyword.spelling` and `Symbol.spelling` give the one way each is written;
  `Keyword.ofSpelling?` reads a keyword back.
* `Kind.name` is the word that token listings use for a kind, and `Kind.ofName?` reads it back.
* `Kind.display` is how a message to the user refers to a kind.

Results:
* `Keyword.ofSpelling?_spelling`: every keyword is read back from its spelling, so no two share
  one.
* `Kind.ofName?_name`: every kind is read back from its name.
-/

namespace EventScript

/-- A reserved word. -/
inductive Keyword where
  | script | raw | rawGlobal | text | movement | mart | mapScripts
  | ifWord | elif | elseWord | whileWord | doWord | switch | case | default
  | breakWord | continueWord | flag | var | trueWord | falseWord
deriving DecidableEq

namespace Keyword

/-- Every keyword once. -/
def all : List Keyword :=
  [.script, .raw, .rawGlobal, .text, .movement, .mart, .mapScripts, .ifWord, .elif, .elseWord,
    .whileWord, .doWord, .switch, .case, .default, .breakWord, .continueWord, .flag, .var,
    .trueWord, .falseWord]

/-- How a keyword is written; the two truth values are in capitals. -/
def spelling : Keyword → String
  | .script => "script"
  | .raw => "raw"
  | .rawGlobal => "rawglobal"
  | .text => "text"
  | .movement => "movement"
  | .mart => "mart"
  | .mapScripts => "mapscripts"
  | .ifWord => "if"
  | .elif => "elif"
  | .elseWord => "else"
  | .whileWord => "while"
  | .doWord => "do"
  | .switch => "switch"
  | .case => "case"
  | .default => "default"
  | .breakWord => "break"
  | .continueWord => "continue"
  | .flag => "flag"
  | .var => "var"
  | .trueWord => "TRUE"
  | .falseWord => "FALSE"

/-- The name of a keyword in token listings. -/
def name : Keyword → String
  | .script => "Script"
  | .raw => "Raw"
  | .rawGlobal => "RawGlobal"
  | .text => "Text"
  | .movement => "Movement"
  | .mart => "Mart"
  | .mapScripts => "MapScripts"
  | .ifWord => "If"
  | .elif => "Elif"
  | .elseWord => "Else"
  | .whileWord => "While"
  | .doWord => "Do"
  | .switch => "Switch"
  | .case => "Case"
  | .default => "Default"
  | .breakWord => "Break"
  | .continueWord => "Continue"
  | .flag => "Flag"
  | .var => "Var"
  | .trueWord => "True"
  | .falseWord => "False"

/-- The keyword that `word` spells, if it spells one. -/
def ofSpelling? (word : String) : Option Keyword :=
  all.find? fun k => k.spelling == word

theorem ofSpelling?_spelling (k : Keyword) : ofSpelling? k.spelling = some k := by
  cases k <;> decide +kernel

/-- Whether a top-level statement may start with this keyword. -/
def startsTopLevel : Keyword → Bool
  | .script | .raw | .rawGlobal | .text | .movement | .mart | .mapScripts => true
  | _ => false

end Keyword

/-- A delimiter or operator sign. -/
inductive Symbol where
  | leftParen | rightParen | leftBrace | rightBrace | leftBracket | rightBracket
  | comma | colon | semicolon | dot | plus | minus | star | slash | pipe | ampersand | bang
  | equal | notEqual | less | lessEqual | greater | greaterEqual | and | or
deriving DecidableEq

namespace Symbol

/-- Every symbol once. -/
def all : List Symbol :=
  [.leftParen, .rightParen, .leftBrace, .rightBrace, .leftBracket, .rightBracket, .comma, .colon,
    .semicolon, .dot, .plus, .minus, .star, .slash, .pipe, .ampersand, .bang, .equal, .notEqual,
    .less, .lessEqual, .greater, .greaterEqual, .and, .or]

/-- How a symbol is written. -/
def spelling : Symbol → String
  | .leftParen => "("
  | .rightParen => ")"
  | .leftBrace => "\x7b"
  | .rightBrace => "\x7d"
  | .leftBracket => "["
  | .rightBracket => "]"
  | .comma => ","
  | .colon => ":"
  | .semicolon => ";"
  | .dot => "."
  | .plus => "+"
  | .minus => "-"
  | .star => "*"
  | .slash => "/"
  | .pipe => "|"
  | .ampersand => "&"
  | .bang => "!"
  | .equal => "=="
  | .notEqual => "!="
  | .less => "<"
  | .lessEqual => "<="
  | .greater => ">"
  | .greaterEqual => ">="
  | .and => "&&"
  | .or => "||"

/-- The name of a symbol in token listings. -/
def name : Symbol → String
  | .leftParen => "LParen"
  | .rightParen => "RParen"
  | .leftBrace => "LBrace"
  | .rightBrace => "RBrace"
  | .leftBracket => "LBracket"
  | .rightBracket => "RBracket"
  | .comma => "Comma"
  | .colon => "Colon"
  | .semicolon => "Semicolon"
  | .dot => "Dot"
  | .plus => "Plus"
  | .minus => "Minus"
  | .star => "Star"
  | .slash => "Slash"
  | .pipe => "Pipe"
  | .ampersand => "Ampersand"
  | .bang => "Bang"
  | .equal => "Eq"
  | .notEqual => "NotEq"
  | .less => "Less"
  | .lessEqual => "LessEq"
  | .greater => "Greater"
  | .greaterEqual => "GreaterEq"
  | .and => "And"
  | .or => "Or"

end Symbol

/-- What is wrong with a piece of source text that is no proper token. -/
inductive LexicalError where
  | unexpectedCharacter
  | unclosedString
  | unclosedRawString
deriving DecidableEq

namespace LexicalError

/-- Every lexical error once. -/
def all : List LexicalError :=
  [.unexpectedCharacter, .unclosedString, .unclosedRawString]

/-- The name of a lexical error in token listings. -/
def name : LexicalError → String
  | .unexpectedCharacter => "ErrorUnexpectedChar"
  | .unclosedString => "ErrorUnclosedString"
  | .unclosedRawString => "ErrorUnclosedRawString"

/-- How a message refers to a lexical error. -/
def display : LexicalError → String
  | .unexpectedCharacter => "unexpected character"
  | .unclosedString => "unclosed string"
  | .unclosedRawString => "unclosed raw string"

end LexicalError

/-- The kind of a token. -/
inductive Kind where
  | keyword (word : Keyword)
  | symbol (sign : Symbol)
  | identifier
  | number
  | string
  | rawString
  | whitespace
  | comment
  | endOfInput
  | error (cause : LexicalError)
deriving DecidableEq

namespace Kind

/-- Every kind once. -/
def all : List Kind :=
  Keyword.all.map .keyword ++ Symbol.all.map .symbol
    ++ [.identifier, .number, .string, .rawString, .whitespace, .comment, .endOfInput]
    ++ LexicalError.all.map .error

/-- The name of a kind in token listings. -/
def name : Kind → String
  | .keyword k => k.name
  | .symbol s => s.name
  | .identifier => "Identifier"
  | .number => "Number"
  | .string => "String"
  | .rawString => "RawString"
  | .whitespace => "Whitespace"
  | .comment => "Comment"
  | .endOfInput => "Eof"
  | .error e => e.name

/-- The kind that is listed as `word`, if there is one. -/
def ofName? (word : String) : Option Kind :=
  all.find? fun k => k.name == word

theorem ofName?_name (k : Kind) : ofName? k.name = some k := by
  cases k with
  | keyword k => cases k <;> decide +kernel
  | symbol s => cases s <;> decide +kernel
  | error e => cases e <;> decide +kernel
  | _ => decide +kernel

/-- How a message refers to a kind: what has one spelling is quoted, the rest is described. -/
def display : Kind → String
  | .keyword k => "`" ++ k.spelling ++ "`"
  | .symbol s => "`" ++ s.spelling ++ "`"
  | .identifier => "identifier"
  | .number => "number"
  | .string => "string"
  | .rawString => "raw string"
  | .whitespace => "whitespace"
  | .comment => "comment"
  | .endOfInput => "end of input"
  | .error e => e.display

/-- Whether tokens of this kind only lay the text out and carry no meaning. -/
def isTrivia : Kind → Bool
  | .whitespace | .comment => true
  | _ => false

/-- Whether this kind marks text that is no proper token. -/
def isError : Kind → Bool
  | .error _ => true
  | _ => false

/-- Whether a top-level statement may start with a token of this kind. -/
def startsTopLevel : Kind → Bool
  | .keyword k => k.startsTopLevel
  | _ => false

end Kind

end EventScript
