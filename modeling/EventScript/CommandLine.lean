import EventScript.Assembly.Text
import EventScript.Compile
import EventScript.Program.Outline

/-!
# The command line

`CommandLine.run` is the program as a function: from the name and content of the input to the exit
status, the text for the output and the text for standard error. Opening files and writing to them
is left to the caller.

The output is only opened once the input has been read, so a failed reading leaves no file behind
and a failed compilation an empty one.
-/

namespace EventScript

namespace CommandLine

/-- What to write. -/
inductive Product where
  | assembly
  | outline
  | tokens
deriving DecidableEq

/-- The product that a word on the command line asks for. -/
def Product.ofWord? : String → Option Product
  | "asm" => some .assembly
  | "ast" => some .outline
  | "tokens" => some .tokens
  | _ => none

/-- The word that asks for a product. -/
def Product.word : Product → String
  | .assembly => "asm"
  | .outline => "ast"
  | .tokens => "tokens"

@[simp] theorem Product.ofWord?_word (p : Product) : ofWord? p.word = some p := by
  cases p <;> rfl

/-- Why an input cannot be read. -/
inductive ReadError where
  | missing
  | notText
  /-- Any other reason, in the words of the operating system. -/
  | other (cause : String)

/-- The reason in words. -/
def ReadError.message : ReadError → String
  | .missing => "No such file or directory (os error 2)"
  | .notText => "stream did not contain valid UTF-8"
  | .other cause => cause

/-- The text that bytes encode. -/
def decode (bytes : ByteArray) : Except ReadError String :=
  match String.fromUTF8? bytes with
  | some text => .ok text
  | none => .error .notText

/-- The name that stands for standard input. -/
def standardInput : String :=
  "-"

/-- How a failed reading refers to the input. -/
def inputName (name : String) : String :=
  if name = standardInput then "stdin" else name

/-- What a run does. -/
structure Result where
  status : Nat
  /-- What is written to the output; `none` if it is not even opened. -/
  output : Option String
  errors : String
deriving DecidableEq

/-- The tokens of a source text, one a line, without white space and comments. -/
def tokenListing (src : String) : String :=
  String.join <| ((lex src).all.filter fun t => !t.kind.isTrivia).map fun t =>
    t.detail ++ " " ++ quoted t.text ++ "\n"

/-- The text of a product, or why there is none. -/
def produce (product : Product) (src : String) : Except Failure String :=
  match product with
  | .assembly => (compile src .fresh).outcome.map Assembly.render
  | .outline => (parse src .fresh).outcome.map Program.outline
  | .tokens => .ok (tokenListing src)

/-- The lines on standard error for diagnostics: one for each, and their number. -/
def complaints (name : String) (found : List Diagnostic) : String :=
  String.join (found.map fun d => name ++ ": " ++ d.report ++ "\n")
    ++ name ++ ": " ++ toString found.length ++ " error(s), no output produced\n"

/-- The lines on standard error for an operation that failed, and for its cause. -/
def fault (operation cause : String) : String :=
  "Error: " ++ operation ++ "\n\nCaused by:\n    " ++ cause ++ "\n"

/-- The diagnostics of a failure. -/
def diagnosticsOf : Failure → List Diagnostic
  | .diagnostics found => found
  | .misplacedDeclaration => []

/-- The notes on making a product. -/
def journal (product : Product) (src : String) : List Note :=
  match product with
  | .assembly => (compile src .fresh).journal
  | .outline => (parse src .fresh).journal
  | .tokens => []

/-- The lines on standard error that account for a run, in front of those of `run`: how much was
read, and the summaries of the phases. -/
def account (product : Product) (content : Except ReadError String) : String :=
  match content with
  | .error _ => ""
  | .ok src =>
    let summaries := (journal product src).filter (·.level = .debug)
    let messages := ("read " ++ toString src.utf8ByteSize ++ " bytes") :: summaries.map (·.message)
    String.join (messages.map fun message => "[DEBUG] " ++ message ++ "\n")

/-- Runs the compiler on an input of the given name and content. -/
def run (name : String) (product : Product) (content : Except ReadError String) : Result :=
  match content with
  | .error e => ⟨1, none, fault ("failed to read " ++ inputName name) e.message⟩
  | .ok src =>
    match produce product src with
    | .ok text => ⟨0, some text, ""⟩
    | .error failure => ⟨1, some "", complaints name (diagnosticsOf failure)⟩

end CommandLine
end EventScript
