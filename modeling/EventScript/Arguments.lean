import EventScript.CommandLine

/-!
# The arguments of a run

`INPUT [--emit asm|ast|tokens] [-o OUTPUT] [-v]`

The words may stand in any order, and one behind `--` is the input whatever it begins with. The
value of an option is the next word or stands in the same one, as in `--emit=ast`, `-o=FILE` and
`-oFILE`, and short options may share a word, as in `-vo FILE`. No argument is given twice, and no
value is empty.
-/

namespace EventScript

open CommandLine

/-- What a run is asked to do. -/
structure Arguments where
  input : String
  /-- The file for the output; standard output if there is none. -/
  output : Option String
  product : Product
  /-- Whether the notes on the phases are shown. -/
  verbose : Bool
deriving DecidableEq

namespace Arguments

/-- The options that have a value. -/
inductive Setting where
  | output
  | product

/-- The option of a long name. -/
def Setting.ofName? : String → Option Setting
  | "output" => some .output
  | "emit" => some .product
  | _ => none

/-- What the next word is taken for. -/
inductive Expected where
  | any
  | value (s : Setting)
  | input

/-- The arguments among the words read so far. -/
structure Given where
  input : Option String
  output : Option String
  product : Option Product
  verbose : Bool

namespace Given

/-- The arguments before any word is read. -/
def nothing : Given :=
  ⟨none, none, none, false⟩

/-- Takes a word for the input. -/
def withInput? (g : Given) (word : String) : Option Given :=
  if g.input.isNone ∧ word ≠ "" then some { g with input := some word } else none

/-- Turns the notes on. -/
def withVerbose? (g : Given) : Option Given :=
  if g.verbose then none else some { g with verbose := true }

/-- Takes a word for the value of an option. -/
def withValue? (g : Given) (s : Setting) (word : String) : Option Given :=
  match s with
  | .output => if g.output.isNone ∧ word ≠ "" then some { g with output := some word } else none
  | .product => do
    let product ← Product.ofWord? word
    if g.product.isNone then some { g with product := some product } else none

/-- Reads short options that share a word. -/
def short? (g : Given) : List Char → Option (Given × Expected)
  | [] => some (g, .any)
  | 'v' :: cs => do
    let g ← g.withVerbose?
    g.short? cs
  | ['o'] => some (g, .value .output)
  | 'o' :: '=' :: cs | 'o' :: cs => do
    let g ← g.withValue? .output (.ofList cs)
    return (g, .any)
  | _ => none

/-- Reads a long option, with the value that stands behind an equals sign. -/
def long? (g : Given) (cs : List Char) : Option (Given × Expected) :=
  let name := String.ofList (cs.takeWhile (· ≠ '='))
  match cs.dropWhile (· ≠ '=') with
  | [] =>
    if name = "verbose" then do
      let g ← g.withVerbose?
      return (g, .any)
    else do
      let s ← Setting.ofName? name
      return (g, .value s)
  | _ :: value => do
    let s ← Setting.ofName? name
    let g ← g.withValue? s (.ofList value)
    return (g, .any)

/-- Reads a word that may be anything. -/
def plain? (g : Given) (word : String) : Option (Given × Expected) :=
  match word.toList with
  | ['-', '-'] => some (g, .input)
  | '-' :: '-' :: cs => g.long? cs
  | '-' :: c :: cs => g.short? (c :: cs)
  | _ => do
    let g ← g.withInput? word
    return (g, .any)

/-- Whether a word begins an option, or is the mark behind which none are left. -/
def isOption (word : String) : Bool :=
  match word.toList with
  | '-' :: _ :: _ => true
  | _ => false

/-- Reads a word, and says what the one behind it is taken for. -/
def word? (g : Given) (word : String) : Expected → Option (Given × Expected)
  | .any => g.plain? word
  | .value s =>
    if isOption word then none else do
      let g ← g.withValue? s word
      return (g, .any)
  | .input => do
    let g ← g.withInput? word
    return (g, .input)

/-- Reads words of which the first is taken for what is expected. -/
def words? (g : Given) : Expected → List String → Option Given
  | .value _, [] => none
  | _, [] => some g
  | expected, word :: later => do
    let (g, expected) ← g.word? word expected
    g.words? expected later

/-- The arguments, if the input is among them. -/
def finish? (g : Given) : Option Arguments := do
  let input ← g.input
  return ⟨input, g.output, g.product.getD .assembly, g.verbose⟩

end Given

/-- Reads the words of a command line; `none` if they do not fit. -/
def ofWords? (words : List String) : Option Arguments := do
  let g ← Given.nothing.words? .any words
  g.finish?

end Arguments
end EventScript
