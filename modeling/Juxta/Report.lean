/-
  Juxta/Report.lean
  =================
  **Reports of errors** — what a reader of an error sees: the location in brackets, the
  message and, if the text of the line is at hand, that line with a caret under the
  column of the location:

      [prog:1:3] Unexpected character: '#'
          a # b
            ^

  The line is shown four columns in.  A report with a line and no location shows neither
  the line nor a caret, and its message is followed by a space.
-/
import Juxta.Location

namespace Juxta

/-- An error as it is shown: a message, and where and in which line it arose. -/
structure Report where
  message : String
  location : Option Location := none
  sourceLine : Option String := none
deriving DecidableEq, Repr

namespace Report

/-- How far the source line and the caret are moved to the right. -/
def indent : Nat := 4

/-- The source line and the caret under the given column, each on a new line. -/
def excerpt (line : String) (column : Int) : String :=
  let padding := (indent + column - 1).toNat
  "\n" ++ String.ofList (List.replicate indent ' ') ++ line
    ++ "\n" ++ String.ofList (List.replicate padding ' ') ++ "^"

/-- The text of a report. -/
def text (r : Report) : String :=
  match r.location, r.sourceLine.filter (!·.isEmpty) with
  | none, none => r.message
  | none, some _ => r.message ++ " "
  | some l, none => "[" ++ l.text ++ "] " ++ r.message
  | some l, some line => "[" ++ l.text ++ "] " ++ r.message ++ excerpt line l.column

end Report

end Juxta
