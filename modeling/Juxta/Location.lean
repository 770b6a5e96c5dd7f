/-
  Juxta/Location.lean
  ===================
  **Places in a source text** — a location names a span of characters: the line and the
  column where it begins, both counted from one, the number of characters before it, the
  number of characters in it (zero when that is not known), and the label of the text, if
  it has one.  Reading a text produces locations with these counts; a location made by
  hand may hold any integers.
-/
namespace Juxta

/-- A span of characters in a labelled source text. -/
structure Location where
  line : Int
  column : Int
  offset : Int := 0
  length : Int := 0
  filename : Option String := none
deriving DecidableEq, Repr, Inhabited

namespace Location

/-- The written form `label:line:column`; a missing or empty label is left out. -/
def text (l : Location) : String :=
  let place := l.line.repr ++ ":" ++ l.column.repr
  match l.filename with
  | none => place
  | some label => if label.isEmpty then place else label ++ ":" ++ place

end Location

end Juxta
