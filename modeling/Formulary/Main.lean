import Formulary.CommandLine.OnStack

/-!
# Running the program

The arguments, the file and the two streams of a process, and nothing else: all that is decided is
decided in `Formulary.CommandLine`.
-/

namespace Formulary.Main

open CommandLine

/-- The number of an error of the system, which may come negated in 32 bits. -/
def errorNumber (number : UInt32) : Nat :=
  if number.toNat < 0x80000000 then number.toNat else 0x100000000 - number.toNat

/-- What is known about a file that cannot be read. -/
def describe : IO.Error → FileError
  | .noFileOrDirectory _ number reason | .inappropriateType _ number reason
  | .permissionDenied _ number reason | .invalidArgument _ number reason =>
    .ofNumber (errorNumber number) reason
  | _ => .ofNumber 5 "Input/output error"

/-- The bytes of a file. -/
def readFile (path : String) : IO (Except FileError ByteArray) := do
  if '\x00' ∈ path.toList then return .error .nullInPath
  match ← (IO.FS.readBinFile path).toBaseIO with
  | .ok bytes => return .ok bytes
  | .error e => return .error (describe e)

/-- Write a transcript to the two streams. -/
def write (t : Transcript) : IO Unit := do
  let output ← IO.getStdout
  let messages ← IO.getStderr
  for (channel, text) in t do
    match channel with
    | .output => output.putStr text
    | .messages =>
      output.flush
      messages.putStr text

/-- The status of the process after a run. -/
def status : Ending → IO UInt32
  | .early n | .finished n => return n.toUInt32
  | .broken .notText => do
    IO.eprintln "error: the file is not UTF-8 text"
    return 1
  | .broken _ => do
    IO.eprintln "error: the path has a null character in it"
    return 1
  | .halted _ => do
    IO.eprintln "error: the stack does not serve"
    return 1
  | .outOfFuel => do
    IO.eprintln "error: the evaluation takes too long"
    return 1

/-- The fuel of an evaluation: more than a process can use up. -/
def fuel : Nat := 1000000000000000000

/-- The report of a run on the files of the system. -/
def perform (arguments : List String) : IO Report := do
  match Options.ofArguments arguments with
  | .error e => return e.report
  | .ok o => return o.reportOn .usual .usual fuel (← readFile o.file)

end Formulary.Main

/-- Run the program with the arguments of the process. -/
def main (arguments : List String) : IO UInt32 := do
  let report ← Formulary.Main.perform arguments
  Formulary.Main.write report.transcript
  Formulary.Main.status report.ending
