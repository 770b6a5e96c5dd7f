/-
  Juxta/Editor/TextEdit.lean
  ==========================
  **Edits of a document** — an edit replaces the text of a range.  Formatting a document
  is one edit that replaces all of it, or none if the document is formatted already or is
  no program.
-/
import Juxta.Editor.Position
import Juxta.Program

namespace Juxta.Editor

/-- The replacement of a range of a document. -/
structure TextEdit where
  range : Range
  newText : String
deriving DecidableEq, Repr

namespace TextEdit

/-- The replacement of a whole document. -/
def replaceAll (text newText : String) : TextEdit :=
  ⟨⟨⟨0, 0⟩, Position.ending text.toList⟩, newText⟩

/-- The edits that format a document. -/
def formatting (layout : Layout) (text : String) (limits : Limits := {}) :
    Except TooManyDigits (List TextEdit) :=
  match Program.format layout text none limits with
  | .ok formatted => .ok (if text == formatted then [] else [replaceAll text formatted])
  | .error (.tooManyDigits e) => .error e
  | .error _ => .ok []

end TextEdit

end Juxta.Editor
