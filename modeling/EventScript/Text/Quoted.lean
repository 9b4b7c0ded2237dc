import EventScript.Text.Unprintable

/-!
# Quoted texts

`quoted` writes a text between double quotes on one line. A quote, a backslash and the usual
control characters are escaped by a backslash and a letter, every other unprintable character by
its code point in base sixteen between braces, and all else stands as it is.
-/

namespace EventScript

/-- The written form of one character between quotes. -/
def quoteChar (c : Char) : List Char :=
  match c with
  | '"' => ['\\', '"']
  | '\\' => ['\\', '\\']
  | '\n' => ['\\', 'n']
  | '\r' => ['\\', 'r']
  | '\t' => ['\\', 't']
  | '\x00' => ['\\', '0']
  | c =>
    if isUnprintable c then ['\\', 'u', '{'] ++ Nat.toDigits 16 c.toNat ++ ['}']
    else [c]

/-- The text between double quotes, with all that would not show escaped. -/
def quoted (text : String) : String :=
  "\"" ++ String.ofList (text.toList.flatMap quoteChar) ++ "\""

end EventScript
