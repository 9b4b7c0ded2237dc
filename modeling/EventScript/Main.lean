import EventScript.Arguments

/-!
# The program

Reads the arguments and the input, runs the compiler, and writes what it gives.
-/

namespace EventScript.Main

open CommandLine

/-- Reads a stream to its end. -/
partial def readAll (stream : IO.FS.Stream) (bytes : ByteArray) : IO ByteArray := do
  let chunk ← stream.read 65536
  if chunk.isEmpty then return bytes else readAll stream (bytes ++ chunk)

/-- The content of the input. -/
def readInput (name : String) : IO (Except ReadError String) := do
  try
    let bytes ←
      if name == standardInput then readAll (← IO.getStdin) .empty else IO.FS.readBinFile name
    return decode bytes
  catch
    | .noFileOrDirectory .. => return .error .missing
    | e => return .error (.other (toString e))

/-- How the program is called. -/
def usage : String :=
  "usage: INPUT [--emit asm|ast|tokens] [-o OUTPUT] [-v]"

/-- Writes the output; the lines on standard error if it cannot be written. -/
def writeOutput (file : Option String) (text : String) : IO (Option String) := do
  match file with
  | none =>
    (← IO.getStdout).putStr text
    return none
  | some name =>
    try
      IO.FS.writeFile name text
      return none
    catch e => return some (fault ("failed to create " ++ name) (toString e))

/-- Runs the compiler as the arguments ask. -/
def run (a : Arguments) : IO UInt32 := do
  let content ← readInput a.input
  let result := CommandLine.run a.input a.product content
  let errors ← IO.getStderr
  if a.verbose then errors.putStr (account a.product content)
  if let some text := result.output then
    if let some fault ← writeOutput a.output text then
      errors.putStr fault
      return 1
  errors.putStr result.errors
  return UInt32.ofNat result.status

end EventScript.Main

/-- Compiles the source text that the arguments name. -/
def main (words : List String) : IO UInt32 := do
  match EventScript.Arguments.ofWords? words with
  | some a => EventScript.Main.run a
  | none =>
    IO.eprintln EventScript.Main.usage
    return 2
