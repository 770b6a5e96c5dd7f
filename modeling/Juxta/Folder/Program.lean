/-
  Juxta/Folder/Program.lean
  =========================
  **Programs in files** — a file of a folder is read as a program, whose label is the path
  of the file, and may be replaced by its canonical text.  A file that holds the canonical
  text already, line ends aside, is left alone.
-/
import Juxta.Folder
import Juxta.Program

namespace Juxta

/-- Why a file is not read as a program or not formatted. -/
inductive FileFailure where
  | reading (error : ReadError)
  | program (failure : Failure)

namespace Folder

/-- The tree of the program in a file. -/
def parse (f : Folder) (p : Path) : Except FileFailure Expr := do
  let text ← (f.read p).mapError .reading
  (Program.parse text (some p.text)).mapError fun e => .program (.ofParseError e)

/-- The canonical text of the program in a file, and the folder after it was written back
    if `write` asks for that. -/
def format (f : Folder) (layout : Layout) (p : Path) (write : Bool) :
    Except FileFailure (String × Folder) := do
  let text ← (f.read p).mapError .reading
  let formatted ← (Program.format layout text (some p.text)).mapError .program
  return (formatted, if write && formatted != text then f.write p formatted else f)

end Folder

end Juxta
