import EventScript.Reader.Basic

/-!
# Reading from spans

A `Token` has its text with it, so that no reader looks into the source text again. Kept in memory a
token is less than that: a `Mark`, which is its kind and its span, and whoever needs its text cuts
it out of the source text. A `SpanReader` reads marks in this way, with numbers of 32 bits. It can
stop without an answer (`Fault`): a span may cover no whole characters, a token may be asked for a
content that its kind does not have, and a count may leave its range.

`Checked` holds the operations that may have no answer. The readers of marks are those of tokens in
all else, under the same names.
-/

namespace EventScript

/-! ## Faults -/

/-- Why a run stops without an answer. -/
inductive Fault where
  /-- The ends of a span are reversed, too far apart or no offsets. -/
  | span (start stop : Int)
  /-- The span does not cover whole characters of the source text. -/
  | slice (span : Span)
  /-- A content that only tokens of kind `expected` have is asked of another one. -/
  | content (expected actual : Kind)
  /-- A number leaves its range. -/
  | count
  /-- A declaration stands where no program has one. -/
  | unreachable
deriving DecidableEq

/-- Numbers that are counted up have 32 bits. -/
def countLimit : Nat :=
  UInt32.size

namespace Checked

/-- What an operation gives that may have nothing to give, which then is the fault `f`. -/
def orFault {α : Type} (o : Option α) (f : Fault) : Except Fault α :=
  match o with
  | some a => return a
  | none => throw f

/-- Makes sure that a token of kind `actual` is one of kind `expected`. -/
def expect (expected actual : Kind) : Except Fault Unit :=
  if actual = expected then return () else throw (.content expected actual)

/-- Cuts out the text that a span covers. -/
def slice (src : String) (span : Span) : Except Fault String :=
  orFault (span.slice? src) (.slice span)

/-- Takes one byte off a span at either end. -/
def inward (span : Span) : Except Fault Span :=
  orFault (span.shift? 1 (-1)) (.span (span.start + 1) (span.stop - 1))

/-- Counts one further. -/
def countUp (n : Nat) : Except Fault Nat :=
  if n + 1 < countLimit then return n + 1 else throw .count

/-- Counts one back. -/
def countDown : Nat → Except Fault Nat
  | 0 => throw .count
  | n + 1 => return n

theorem orFault_eq {α : Type} {o : Option α} {a : α} {f : Fault} (h : o = some a) :
    orFault o f = .ok a := by
  rw [h]
  rfl

theorem countUp_eq {n : Nat} (h : n + 1 < countLimit) : countUp n = .ok (n + 1) :=
  if_pos h

theorem countUp_eq_error {n : Nat} (h : countLimit ≤ n + 1) : countUp n = .error .count :=
  if_neg (Nat.not_lt.mpr h)

end Checked

/-- A token as it is kept: its text is left in the source text. -/
structure Mark where
  kind : Kind
  span : Span
deriving DecidableEq

/-- The token without its text. -/
def Token.mark (t : Token) : Mark :=
  ⟨t.kind, t.span⟩

@[simp] theorem Token.kind_mark (t : Token) : t.mark.kind = t.kind := rfl

@[simp] theorem Token.span_mark (t : Token) : t.mark.span = t.span := rfl

/-! ## Readers of marks -/

/-- What marks are read against: the source text, and the mark of its end. -/
structure Source where
  text : String
  stop : Mark

/-- What a reader of marks changes. -/
structure SpanState where
  ahead : List Mark
  session : Session
  texts : List Text

/-- How a reader of marks stops short of a result. -/
inductive Halt where
  | complaint (complaint : Located SyntaxError)
  | fault (fault : Fault)

/-- Reads an `α` from the marks ahead. -/
abbrev SpanReader (α : Type) : Type :=
  ReaderT Source (EStateM Halt SpanState) α

namespace SpanReader

variable {α : Type}

/-! ### Checks -/

/-- Goes on with what a check gives, or stops at its fault. -/
def check (e : Except Fault α) : SpanReader α :=
  match e with
  | .ok a => return a
  | .error f => throw (.fault f)

/-- Cuts out the text that a span covers. -/
def slice (span : Span) : SpanReader String := do
  check (Checked.slice (← read).text span)

/-- The text of a token, exactly as written. -/
def literal (m : Mark) : SpanReader String :=
  slice m.span

/-- The name that an identifier is. -/
def nameOf (m : Mark) : SpanReader String := do
  check (Checked.expect .identifier m.kind)
  literal m

/-- What stands between the quotes of a token of kind `k`. -/
def contentOf (k : Kind) (m : Mark) : SpanReader String := do
  check (Checked.expect k m.kind)
  let inner ← check (Checked.inward m.span)
  slice inner

/-! ### Single tokens -/

/-- The next token, which stays ahead. -/
def peek : SpanReader Mark := do
  return (← get).ahead.headD (← read).stop

/-- Takes the next token. -/
def advance : SpanReader Mark := do
  let m ← peek
  modify fun s => { s with ahead := s.ahead.tail }
  return m

/-- Complains about the token `m`. -/
def fail (m : Mark) (e : SyntaxError) : SpanReader α :=
  throw (.complaint ⟨m.span, e⟩)

/-- Complains about the token `m`, which does not fit: in the words of `e`, or with the lexical
error if the token is one. -/
def refuse (m : Mark) (e : SpanReader SyntaxError) : SpanReader α :=
  match m.kind with
  | .error cause => fail m (.lexical cause)
  | _ => do
    let e ← e
    fail m e

/-- Takes the next token if it is of kind `k`, and tells whether it was. -/
def take (k : Kind) : SpanReader Bool := do
  if (← peek).kind = k then
    let _ ← advance
    return true
  else
    return false

/-- Takes the next token, which has to be of kind `k`. -/
def consume (k : Kind) : SpanReader Mark := do
  let m ← peek
  if m.kind = k then advance else refuse m (pure (.unexpected m.kind k))

/-- A name. -/
def identifier : SpanReader Ident := do
  let m ← consume .identifier
  let name ← nameOf m
  return ⟨name, m.span⟩

/-! ### Delimiters and repetition -/

/-- What is missing when the text ends behind the opening delimiter `opening`. -/
def unterminated (opening : Mark) : SyntaxError :=
  match opening.kind with
  | .symbol .leftParen => .unterminatedParen
  | .symbol .leftBracket => .unterminatedTable
  | _ => .unterminatedBlock

/-- Complains about `opening` if no token is ahead. -/
def ensureOpen (opening : Mark) : SpanReader Unit := do
  if (← peek).kind = .endOfInput then fail opening (unterminated opening)

/-- Takes the delimiter `k`, which belongs to the opening delimiter `opening`. -/
def close (k : Kind) (opening : Mark) : SpanReader Mark := do
  ensureOpen opening
  consume k

/-- At most `bound` rounds of `many`, after those that gave `earlier`. -/
def manyWithin (goesOn : Kind → Bool) (item : List α → SpanReader α) :
    Nat → List α → SpanReader (List α)
  | 0, earlier => return earlier
  | bound + 1, earlier => do
    if goesOn (← peek).kind then
      let a ← item earlier
      manyWithin goesOn item bound (earlier ++ [a])
    else
      return earlier

/-- Reads items for as long as the next token is of a kind that `goesOn` accepts. -/
def many (goesOn : Kind → Bool) (item : List α → SpanReader α) : SpanReader (List α) := do
  manyWithin goesOn item (← get).ahead.length []

/-- Reads items up to the delimiter `k`, which belongs to `opening`, and takes that delimiter. -/
def manyUntil (k : Kind) (opening : Mark) (item : List α → SpanReader α) :
    SpanReader (List α) := do
  let items ← many (· != k) fun earlier => do
    ensureOpen opening
    item earlier
  let _ ← close k opening
  return items

end SpanReader

end EventScript
