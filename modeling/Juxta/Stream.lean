/-
  Juxta/Stream.lean
  =================
  **A text that arrives in pieces** — the same reader as a cursor, for a text that is
  taken from its origin one read at a time and only when it is asked for.  Of what has
  been read only the current line and what follows it is kept.  The answers do not depend
  on how the text is cut into reads; `Stream.cursor` is the cursor in the whole text that
  a stream stands for.
-/
import Juxta.Cursor

namespace Juxta

/-- A reader over the reads that are still to come. -/
structure Stream where
  /-- The label of the text. -/
  filename : Option String
  /-- The reads to come; the text ends at an empty read or after the last one. -/
  pending : List (List Char)
  /-- The text that has been read, from the start of the current line. -/
  buffer : List Char
  /-- How many characters of the buffer have been consumed. -/
  index : Nat
  line : Nat
  column : Nat
  offset : Nat
deriving DecidableEq, Repr

namespace Stream

/-- The stream over the given reads. -/
def ofReads (reads : List (List Char)) (filename : Option String) : Stream :=
  ⟨filename, reads, [], 0, 1, 1, 0⟩

/-- Cuts a text into reads of `size` characters each, at most `fuel` of them. -/
def cutInto (size : Nat) : (fuel : Nat) → List Char → List (List Char)
  | 0, _ => []
  | fuel + 1, text =>
    if text.isEmpty then [] else text.take size :: cutInto size fuel (text.drop size)

/-- The reads of a text when each asks for `size` characters.  A negative size asks for all
    there is, and a read of no characters ends the text. -/
def readsOf (size : Int) (text : List Char) : List (List Char) :=
  if size < 0 then [text]
  else if size = 0 then []
  else cutInto size.toNat text.length text

/-- The characters that are read and not consumed. -/
def unread (s : Stream) : List Char := s.buffer.drop s.index

/-- Reads on until `count` unread characters are at hand; tells whether that succeeded. -/
def fill (s : Stream) (count : Nat) : Bool × Stream :=
  go s.buffer s.pending
where
  /-- Appends the reads to come to a buffer until it is long enough. -/
  go (buffer : List Char) : List (List Char) → Bool × Stream
    | [] =>
      (decide (count ≤ buffer.length - s.index), { s with buffer := buffer, pending := [] })
    | read :: later =>
      if count ≤ buffer.length - s.index then
        (true, { s with buffer := buffer, pending := read :: later })
      else if read.isEmpty then (false, { s with buffer := buffer, pending := [] })
      else go (buffer ++ read) later

/-- The character `ahead` places after the next one, if the text goes on that far. -/
def peek (s : Stream) (ahead : Nat) : Option Char × Stream :=
  let (_, s) := s.fill (ahead + 1)
  (s.buffer[s.index + ahead]?, s)

/-- What an attempt to consume a character at the end of the text is answered with. -/
def endMessage : String := "advance() past end of input"

/-- Whether every character has been consumed. -/
def atEnd (s : Stream) : Bool × Stream :=
  let (next, s) := s.peek 0
  (next.isNone, s)

/-- Consumes the next character; at the end of the text there is none, and nothing
    changes. -/
def advance (s : Stream) : Option Char × Stream :=
  match s.peek 0 with
  | (none, s) => (none, s)
  | (some c, s) =>
    if c = '\n' then
      (some c, { s with buffer := s.buffer.drop (s.index + 1), index := 0, line := s.line + 1,
                        column := 1, offset := s.offset + 1 })
    else
      (some c, { s with index := s.index + 1, column := s.column + 1, offset := s.offset + 1 })

/-- The location of the next `length` characters. -/
def location (s : Stream) (length : Int) : Location :=
  { line := s.line, column := s.column, offset := s.offset, length := length,
    filename := s.filename }

/-- Reads on until the buffer holds a line feed or the text ends. -/
def fillLine (s : Stream) : Stream :=
  go s.buffer s.pending
where
  /-- Appends the reads to come to a buffer until it holds a line feed. -/
  go (buffer : List Char) : List (List Char) → Stream
    | [] => { s with buffer := buffer, pending := [] }
    | read :: later =>
      if buffer.contains '\n' then { s with buffer := buffer, pending := read :: later }
      else if read.isEmpty then { s with buffer := buffer, pending := [] }
      else go (buffer ++ read) later

/-- The whole current line, without its line feed and the carriage returns before it. -/
def lineText (s : Stream) : List Char × Stream :=
  let s := s.fillLine
  (Text.dropTrailingReturns (Text.firstLine s.buffer), s)

/-- The part of the text that is still to be read. -/
def toCome (s : Stream) : List Char := (s.pending.takeWhile (!·.isEmpty)).flatten

/-- The cursor in the whole text that the stream stands for. -/
def cursor (s : Stream) : Cursor :=
  { filename := s.filename, lineHead := (s.buffer.take s.index).reverse,
    rest := s.unread ++ s.toCome, line := s.line, column := s.column, offset := s.offset }

end Stream

end Juxta
