import EventScript.Span
import EventScript.Token.Kind

/-!
# Tokens

A `Token` is a piece of the source text with its kind and the place where it starts. It holds its
text itself, so that nothing behind the lexer needs to look into the source again; the span
follows from the text.
-/

namespace EventScript

/-- A piece of source text. -/
structure Token where
  kind : Kind
  /-- The characters of the token, exactly as written. -/
  text : String
  /-- Offset of the first byte. -/
  start : Nat
  /-- Line of the first character. -/
  line : Nat
deriving DecidableEq

namespace Token

/-- The part of the source that the token covers. -/
def span (t : Token) : Span :=
  ⟨t.start, t.text.utf8ByteSize, t.line⟩

/-- Tags `a` with the place of the token. -/
def locate {α : Type} (t : Token) (a : α) : Located α :=
  ⟨t.span, a⟩

/-- The text without its first and last character, which for a string or raw string are its
quotes. -/
def unquoted (t : Token) : String :=
  String.ofList t.text.toList.tail.dropLast

/-- What a token says beyond its kind: an identifier its name, a quoted text what stands between
the quotes. -/
def content? (t : Token) : Option String :=
  match t.kind with
  | .identifier => some t.text
  | .string | .rawString => some t.unquoted
  | _ => none

/-- The token in full, as token listings show it. -/
def detail (t : Token) : String :=
  "Token(" ++ t.kind.name ++ ", " ++ t.span.detail ++ ")"

/-- Number of line feeds in `cs`. -/
def lineFeeds (cs : List Char) : Nat :=
  cs.count '\n'

/-- Number of lines of a text. A line feed ends a line, so one at the very end opens no further
line, and a text without any characters still has one. -/
def lineCount (cs : List Char) : Nat :=
  match cs.getLast? with
  | none => 1
  | some '\n' => lineFeeds cs
  | some _ => lineFeeds cs + 1

/-- The empty token behind the last character of `src`, placed on its last line. -/
def endOf (src : String) : Token :=
  ⟨.endOfInput, "", src.utf8ByteSize, lineCount src.toList⟩

end Token

end EventScript
