/-
  Juxta/Editor/Position.lean
  ==========================
  **Positions for an editor** — an editor counts lines and columns from zero, and columns
  in UTF-16 code units.  A location becomes a range on its line; one that spans nothing is
  widened to one character, and lines or columns before the first count as the first.
-/
import Juxta.Location
import Juxta.Text.Lines
import Juxta.Text.Units

namespace Juxta.Editor

/-- A place between two characters of a document. -/
structure Position where
  line : Nat
  character : Nat
deriving DecidableEq, Repr

/-- The part of a document between two positions. -/
structure Range where
  start : Position
  stop : Position
deriving DecidableEq, Repr

/-- The range on one line between two columns. -/
def Range.onLine (line start stop : Nat) : Range := ⟨⟨line, start⟩, ⟨line, stop⟩⟩

/-- The range of a location in a document with the given lines. -/
def Range.ofLocation (l : Location) (lines : List (List Char)) : Range :=
  let line := (l.line - 1).toNat
  let start := (l.column - 1).toNat
  let stop := start + (max 1 l.length).toNat
  let text := lines.getD line []
  .onLine line (Text.column16 text start) (Text.column16 text stop)

/-- The position after the last character of a document. -/
def Position.ending (text : List Char) : Position :=
  let lines := Text.splitNewlines text
  ⟨lines.length - 1, Text.width16 (lines.getLastD [])⟩

end Juxta.Editor
