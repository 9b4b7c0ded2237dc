import EventScript.Program.Basic
import EventScript.Reader.Error
import EventScript.Token.Basic

/-!
# Reading tokens

A `Reader` reads part of a program from the tokens ahead. The token that marks the end of the text
is fixed for the whole reading and is what a reader meets when no token is ahead. A reader hands
out numbers and collects texts as it goes, and what it has handed out stays handed out if it fails.

A reader never sees white space or comments, and it meets an error token like any other; most
complaints about a token give way to the complaint that it is no proper token (`refuse`).

`many` is the only loop. Its bound is the number of tokens ahead: where each round takes at least
one token, none is ahead once the bound is used up.
-/

namespace EventScript

/-- What a reader changes. -/
structure ReadState where
  /-- The tokens not read so far, without the end token. -/
  ahead : List Token
  session : Session
  /-- The texts taken out of command arguments so far. -/
  texts : List Text

/-- Reads an `α` from the tokens ahead; the environment is the end token. -/
abbrev Reader (α : Type) : Type :=
  ReaderT Token (EStateM (Located SyntaxError) ReadState) α

namespace Reader

variable {α : Type}

/-! ## Single tokens -/

/-- The next token, which stays ahead. -/
def peek : Reader Token := do
  return (← get).ahead.headD (← read)

/-- Takes the next token. -/
def advance : Reader Token := do
  let t ← peek
  modify fun s => { s with ahead := s.ahead.tail }
  return t

/-- Fails at the token `t`. -/
def fail (t : Token) (e : SyntaxError) : Reader α :=
  throw (t.locate e)

/-- Fails at the token `t`, which does not fit: with `e`, or with the lexical error if the token
is one. -/
def refuse (t : Token) (e : SyntaxError) : Reader α :=
  match t.kind with
  | .error cause => fail t (.lexical cause)
  | _ => fail t e

/-- Takes the next token if it is of kind `k`, and tells whether it was. -/
def take (k : Kind) : Reader Bool := do
  if (← peek).kind = k then
    let _ ← advance
    return true
  else
    return false

/-- Takes the next token, which has to be of kind `k`. -/
def consume (k : Kind) : Reader Token := do
  let t ← peek
  if t.kind = k then advance else refuse t (.unexpected t.kind k)

/-- A name. -/
def identifier : Reader Ident := do
  let t ← consume .identifier
  return ⟨t.text, t.span⟩

/-! ## Delimiters -/

/-- What is missing when the text ends behind the opening delimiter `opening`. -/
def unterminated (opening : Token) : SyntaxError :=
  match opening.kind with
  | .symbol .leftParen => .unterminatedParen
  | .symbol .leftBracket => .unterminatedTable
  | _ => .unterminatedBlock

/-- Fails at `opening` if no token is ahead. -/
def ensureOpen (opening : Token) : Reader Unit := do
  if (← peek).kind = .endOfInput then fail opening (unterminated opening)

/-- Takes the delimiter `k`, which belongs to the opening delimiter `opening`. -/
def close (k : Kind) (opening : Token) : Reader Token := do
  ensureOpen opening
  consume k

/-! ## Repetition -/

/-- At most `bound` rounds of `many`, after those that gave `earlier`. -/
def manyWithin (goesOn : Kind → Bool) (item : List α → Reader α) :
    Nat → List α → Reader (List α)
  | 0, earlier => return earlier
  | bound + 1, earlier => do
    if goesOn (← peek).kind then
      let a ← item earlier
      manyWithin goesOn item bound (earlier ++ [a])
    else
      return earlier

/-- Reads items for as long as the next token is of a kind that `goesOn` accepts. Each item is
told those before it, in order. -/
def many (goesOn : Kind → Bool) (item : List α → Reader α) : Reader (List α) := do
  manyWithin goesOn item (← get).ahead.length []

/-- Reads items up to the delimiter `k`, which belongs to the opening delimiter `opening`, and
takes that delimiter. Each item is told those before it, in order. -/
def manyUntil (k : Kind) (opening : Token) (item : List α → Reader α) : Reader (List α) := do
  let items ← many (· != k) fun earlier => do
    ensureOpen opening
    item earlier
  let _ ← close k opening
  return items

end Reader
end EventScript
