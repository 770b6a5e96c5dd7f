/-
  Juxta/Editor/Document.lean
  ==========================
  **Open documents** — the text of a document as an editor changes it, and the documents
  that are open, each under its name.  Names that spell the same URI differently are names
  of one document.

  A change replaces the whole text or a range of it.  The lines of a document end at every
  line boundary (`Text.splitLines`), and columns count UTF-16 code units; a carriage
  return before a line feed does not count.  A position on a line that does not exist is
  the end of the last line, and a column past the end of its line is the place of the last
  unit of the line.
-/
import Juxta.Editor.Position
import Juxta.Editor.Uri

namespace Juxta.Editor

/-- A change of a document. -/
inductive Change where
  | whole (text : String)
  | ranged (range : Range) (text : String)
deriving DecidableEq, Repr

namespace Change

/-- The line without the carriage returns that stand before a line feed. -/
def countedLine : List Char → List Char
  | '\r' :: '\n' :: line => '\n' :: countedLine line
  | c :: line => c :: countedLine line
  | [] => []

/-- The number of characters before the given column of a line. -/
def characterOf (line : List Char) (column : Nat) : Nat :=
  let counted := countedLine line
  let width := Text.width16 counted
  Text.charColumn counted (if width < column then width - 1 else column)

/-- A position as a line and a number of characters before it on that line. -/
def placeOf (lines : List (List Char)) (p : Position) : Nat × Nat :=
  match lines[p.line]? with
  | some line => (p.line, characterOf line p.character)
  | none => (lines.length - 1, Text.width16 (lines.getLastD []))

/-- What becomes of one line when the text between two places is replaced. -/
def replaceOnLine (start stop : Nat × Nat) (text : List Char) (i : Nat) (line : List Char) :
    List Char :=
  if i < start.1 || stop.1 < i then line
  else
    (if i = start.1 then line.take start.2 ++ text else [])
      ++ (if i = stop.1 then line.drop stop.2 else [])

/-- The text with a range of it replaced. -/
def replaceRange (document : List Char) (range : Range) (text : List Char) : List Char :=
  let lines := Text.splitLines document
  let start := placeOf lines range.start
  let stop := placeOf lines range.stop
  if lines.isEmpty then document ++ text
  else (lines.mapIdx (replaceOnLine start stop text)).flatten

/-- The text of a document after a change. -/
def apply (document : String) : Change → String
  | .whole text => text
  | .ranged range text => String.ofList (replaceRange document.toList range text.toList)

end Change

/-- The open documents: their names and texts. -/
structure Documents where
  entries : List (Uri × String) := []
deriving DecidableEq, Repr

namespace Documents

/-- The text of a document, if it is open. -/
def text? (d : Documents) (uri : String) : Option String := d.entries.lookup (Uri.ofText uri)

/-- The documents without the one of the given name. -/
def close (d : Documents) (uri : String) : Documents :=
  ⟨d.entries.filter (·.1 != Uri.ofText uri)⟩

/-- The documents with the given text under the given name. -/
def put (d : Documents) (uri text : String) : Documents :=
  ⟨(Uri.ofText uri, text) :: (d.close uri).entries⟩

/-- A closed document has no text under any spelling of its name; the others keep theirs. -/
theorem text?_close (d : Documents) (uri other : String) :
    (d.close uri).text? other
      = if Uri.ofText other = Uri.ofText uri then none else d.text? other := by
  obtain ⟨entries⟩ := d
  simp only [close, text?]
  induction entries with
  | nil => simp
  | cons entry entries ih => grind

/-- A document has the text put last under any spelling of its name; the others keep theirs. -/
theorem text?_put (d : Documents) (uri text other : String) :
    (d.put uri text).text? other
      = if Uri.ofText other = Uri.ofText uri then some text else d.text? other := by
  have h := d.text?_close uri other
  simp only [text?, put, List.lookup_cons] at h ⊢
  grind

end Documents

end Juxta.Editor
