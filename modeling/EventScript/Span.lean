/-!
# Spans of a source text

A `Span` is a run of bytes of the UTF-8 form of a source text, with the line on which it starts.
Lines count from 1 and offsets from 0. `Located` tags a value, most often an error, with the span
it is about.

Three operations can fail, and say so with `none`:
* `Span.between?` builds a span from its two ends;
* `Span.shift?` moves both ends, each by its own distance;
* `Span.slice?` reads the span's characters from a text.

Results:
* `between?_stop`: a span built from two ends starts and stops there.
* `byteCount_toList`: the bytes of a text are those of its characters.
* `dropBytes_append`, `takeBytes_append`: cutting at the end of a run of characters splits the
  text there.
-/

namespace EventScript

/-- A run of bytes in a source text, and the line on which it starts. -/
structure Span where
  start : Nat
  length : Nat
  line : Nat
deriving DecidableEq

/-- A value together with the part of the source it is about. -/
structure Located (α : Type) where
  span : Span
  value : α
deriving DecidableEq

namespace Span

/-- Offset of the first byte behind the span. -/
def stop (s : Span) : Nat :=
  s.start + s.length

/-- The span that stands for no place at all; its line is 0, which no text has. -/
def nowhere : Span :=
  ⟨0, 0, 0⟩

/-- Lengths are 32-bit numbers. -/
def lengthLimit : Nat :=
  UInt32.size

/-- Offsets are 64-bit numbers. -/
def offsetLimit : Nat :=
  UInt64.size

/-- The span from `start` to `stop`; `none` if the ends are reversed or too far apart. -/
def between? (start stop line : Nat) : Option Span :=
  if start ≤ stop ∧ stop - start < lengthLimit then some ⟨start, stop - start, line⟩ else none

theorem between?_stop {start stop line : Nat} {s : Span} (h : between? start stop line = some s) :
    s.start = start ∧ s.stop = stop ∧ s.line = line := by
  unfold between? at h
  split at h
  · obtain ⟨rfl⟩ := Option.some.inj h
    exact ⟨rfl, by simp only [Span.stop]; omega, rfl⟩
  · exact absurd h (by simp)

/-- An offset moved by a signed distance; `none` if it leaves the range of offsets. -/
def shiftOffset? (offset : Nat) (distance : Int) : Option Nat :=
  let moved := (offset : Int) + distance
  if 0 ≤ moved ∧ moved < offsetLimit then some moved.toNat else none

/-- Moves the start by `atStart` and the stop by `atStop`; the line stays. -/
def shift? (s : Span) (atStart atStop : Int) : Option Span := do
  let start ← shiftOffset? s.start atStart
  let stop ← shiftOffset? s.stop atStop
  between? start stop s.line

/-! ## Reading a span's characters -/

/-- The characters behind the first `n` bytes; `none` if these end inside a character or behind
the last one. -/
def dropBytes : List Char → Nat → Option (List Char)
  | cs, 0 => some cs
  | [], _ + 1 => none
  | c :: cs, n + 1 => if c.utf8Size ≤ n + 1 then dropBytes cs (n + 1 - c.utf8Size) else none

/-- The characters that make up the first `n` bytes; `none` if these end inside a character or
behind the last one. -/
def takeBytes : List Char → Nat → Option (List Char)
  | _, 0 => some []
  | [], _ + 1 => none
  | c :: cs, n + 1 =>
    if c.utf8Size ≤ n + 1 then (takeBytes cs (n + 1 - c.utf8Size)).map (c :: ·) else none

/-- Number of bytes in the UTF-8 form of `cs`. -/
def byteCount : List Char → Nat
  | [] => 0
  | c :: cs => c.utf8Size + byteCount cs

theorem byteCount_ofList (cs : List Char) : byteCount cs = (String.ofList cs).utf8ByteSize := by
  induction cs with
  | nil => rfl
  | cons c cs ih =>
    have happend : String.ofList (c :: cs) = String.singleton c ++ String.ofList cs := by
      rw [String.singleton_eq_ofList, ← String.ofList_append, List.singleton_append]
    rw [byteCount, ih, happend, String.utf8ByteSize_append, String.utf8ByteSize_singleton]

theorem byteCount_toList (s : String) : byteCount s.toList = s.utf8ByteSize := by
  rw [byteCount_ofList, String.ofList_toList]

theorem dropBytes_append (cs ds : List Char) :
    dropBytes (cs ++ ds) (byteCount cs) = some ds := by
  induction cs with
  | nil => cases ds <;> rfl
  | cons c cs ih =>
    have hpos := c.utf8Size_pos
    have hsum : byteCount (c :: cs) = c.utf8Size + byteCount cs := rfl
    obtain ⟨n, hn⟩ : ∃ n, byteCount (c :: cs) = n + 1 := ⟨byteCount (c :: cs) - 1, by omega⟩
    rw [hn, List.cons_append, dropBytes, if_pos (by omega)]
    rwa [show n + 1 - c.utf8Size = byteCount cs by omega]

theorem takeBytes_append (cs ds : List Char) :
    takeBytes (cs ++ ds) (byteCount cs) = some cs := by
  induction cs with
  | nil => cases ds <;> rfl
  | cons c cs ih =>
    have hpos := c.utf8Size_pos
    have hsum : byteCount (c :: cs) = c.utf8Size + byteCount cs := rfl
    obtain ⟨n, hn⟩ : ∃ n, byteCount (c :: cs) = n + 1 := ⟨byteCount (c :: cs) - 1, by omega⟩
    rw [hn, List.cons_append, takeBytes, if_pos (by omega),
      show n + 1 - c.utf8Size = byteCount cs by omega, ih]
    rfl

/-- The text that the span covers in `src`; `none` if an end lies inside a character or outside
the text. -/
def slice? (s : Span) (src : String) : Option String := do
  let behind ← dropBytes src.toList s.start
  let covered ← takeBytes behind s.length
  return String.ofList covered

/-! ## Written forms -/

/-- How a message names the place of a span. -/
def place (s : Span) : String :=
  "line " ++ toString s.line

/-- The span in full, as token listings show it. -/
def detail (s : Span) : String :=
  "Span(" ++ toString s.start ++ ".." ++ toString s.stop ++ ", " ++ s.place ++ ")"

end Span

namespace Located

/-- The message `text` with the place it is about in front. -/
def report {α : Type} (l : Located α) (text : α → String) : String :=
  l.span.place ++ ": " ++ text l.value

end Located

end EventScript
