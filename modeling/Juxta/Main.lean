/-
  Juxta/Main.lean
  ===============
  **The command line** — hands the arguments, the text of the program and the surroundings
  to `Command`, and prints and writes what it answers.  Nothing is decided here.
-/
import Juxta.Command.Run

namespace Juxta.Main

/-- The text of a source. -/
def readText : Command.Source → IO (Except ReadError String)
  | .standardInput => return Folder.decode (← (← IO.getStdin).readBinToEnd)
  | .file path => do
    match ← (IO.FS.readBinFile path.text).toBaseIO with
    | .ok bytes => return Folder.decode bytes
    | .error _ => return .error (.lookup .missing)

/-- Writes the text of an outcome back to the source it came from. -/
def writeBack : Command.Source → Option String → IO Unit
  | .file path, some text => IO.FS.writeFile path.text text
  | _, _ => return

/-- Prints an outcome and gives its status. -/
def report (outcome : Command.Outcome) : IO UInt32 := do
  IO.print outcome.output
  IO.eprint (outcome.errors ++ outcome.ending.message)
  return outcome.ending.code.toUInt32

end Juxta.Main

open Juxta in
/-- Runs the command with the arguments of the user. -/
def main (args : List String) : IO UInt32 := do
  match Command.Invocation.ofArguments args with
  | .error outcome => Main.report outcome
  | .ok invocation => do
    let terminal ← (← IO.getStdout).isTty
    let style := Command.Style.choose terminal (← IO.getEnv "NO_COLOR")
    let outcome := invocation.respond style (← Main.readText invocation.source)
    Main.writeBack invocation.source outcome.written
    Main.report outcome
