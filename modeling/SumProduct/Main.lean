import SumProduct.CommandLine.Run

/-!
# The program

Reads what a command needs and writes its outcome. A session at a terminal answers each line as it
comes; every other command runs on a world that was read beforehand.
-/

namespace SumProduct.CommandLine

/-- The bytes of a file, if it can be read. -/
def readFile? (path : String) : IO (Option ByteArray) := do
  try
    return some (← IO.FS.readBinFile path)
  catch _ =>
    return none

/-- The path that a command reads, if it reads a file. -/
def Command.path? : Command → Option String
  | .tokenize (.file path) | .parse (.file path) | .differentiate (.file path) _
  | .simplify (.file path) _ => some path
  | _ => none

/-- The rest of the current line behind the bytes of it read so far, or nothing at the end of the
input. -/
partial def readLine? (input : IO.FS.Stream) (line : ByteArray) : IO (Option ByteArray) := do
  match (← input.read 1).toList with
  | [] => return if line.isEmpty then none else some line
  | byte :: _ => if byte = 10 then return some line else readLine? input (line.push byte)

/-- Answers the lines of the input one by one, and gives the exit status. -/
partial def converse (input output : IO.FS.Stream) (s : Session) : IO UInt32 := do
  match ← readLine? input .empty with
  | none => return 0
  | some line =>
    match s.hear line.toList with
    | .unreadable =>
      IO.eprint unreadableInput
      return 1
    | .ended => return 0
    | .answered after record =>
      output.putStr record
      output.flush
      converse input output after

end SumProduct.CommandLine

open SumProduct.CommandLine in
def main (arguments : List String) : IO UInt32 := do
  match Invocation.ofArguments arguments with
  | .ok (.command .repl) => converse (← IO.getStdin) (← IO.getStdout) .start
  | invocation =>
    let contents ← match invocation with
      | .ok (.command command) => (command.path?.map readFile?).getD (pure none)
      | _ => pure none
    let outcome := run ⟨fun _ => contents, .empty⟩ arguments
    IO.print outcome.output
    IO.eprint outcome.errors
    return outcome.status.toUInt32
