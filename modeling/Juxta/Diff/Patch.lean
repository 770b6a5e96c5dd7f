/-
  Juxta/Diff/Patch.lean
  =====================
  **Patches** — a unified diff as a tool reads it that has nothing but its text, and what becomes
  of a text that it is applied to.  A line is here what a line feed ends, whatever other boundary
  stands in it.

  A patch is made of two header lines and of hunks.  The heading of a hunk says which lines it
  covers on either side, and so many marked lines follow it.  A line of a patch always has its
  line feed; that the line of a text has none is said by a line behind it that begins with a
  backslash.

  A hunk is applied where its heading says, and only if its shared and its old lines stand there.
-/
import Juxta.Diff.Unified

namespace Juxta.Diff

/-! ### Lines -/

/-- The lines of a text, each with the line feed that ends it; the last one may have none. -/
def feedLines : List Char → List (List Char)
  | [] => []
  | c :: text => if c = '\n' then [c] :: feedLines text else Text.consLine c (feedLines text)

/-- Whether a line feed ends the text. -/
def endsInFeed (text : List Char) : Bool := text.getLast? == some '\n'

/-- The lines of a patch without the remarks on line feeds, each of which takes the line feed from
    the line before it. -/
def withoutRemarks : List (List Char) → List (List Char)
  | line :: next :: lines =>
    if next.head? = some '\\' then line.dropLast :: withoutRemarks lines
    else line :: withoutRemarks (next :: lines)
  | lines => lines

/-! ### Headings -/

/-- The number that digits stand for. -/
def natural? (digits : List Char) : Option Nat :=
  if digits.isEmpty || !digits.all Char.isDigit then none
  else some (Nat.ofDigitChars 10 digits 0)

/-- How many lines stand before a range and in it, from the number of its first line and how many
    they are.  An empty range is named by the line before it. -/
def rangeOf? (start count : Nat) : Option (Nat × Nat) :=
  if count = 0 then some (start, 0) else if start = 0 then none else some (start - 1, count)

/-- The range that a text stands for. -/
def range? (text : List Char) : Option (Nat × Nat) :=
  let start := natural? (text.takeWhile (· != ','))
  match text.dropWhile (· != ',') with
  | [] => start.bind fun n => rangeOf? n 1
  | _ :: count => start.bind fun n => (natural? count).bind fun k => rangeOf? n k

/-- The hunk, without its lines, and the numbers of old and new lines that a heading announces. -/
def heading? : List Char → Option (Hunk × Nat × Nat)
  | '@' :: '@' :: ' ' :: '-' :: text =>
    match text.dropWhile (· != ' ') with
    | ' ' :: '+' :: rest =>
      if rest.dropWhile (· != ' ') = [' ', '@', '@', '\n'] then
        (range? (text.takeWhile (· != ' '))).bind fun old =>
          (range? (rest.takeWhile (· != ' '))).map fun new =>
            (⟨old.1, new.1, []⟩, old.2, new.2)
      else none
    | _ => none
  | _ => none

/-! ### Hunks -/

namespace Mark

/-- The mark that a line begins with. -/
def ofChar? (c : Char) : Option Mark := [Mark.shared, .old, .new].find? (·.char = c)

/-- How many old lines a line with the mark is. -/
def olds (m : Mark) : Nat := if m != .new then 1 else 0

/-- How many new lines a line with the mark is. -/
def news (m : Mark) : Nat := if m != .old then 1 else 0

end Mark

/-- A line of a hunk and its mark. -/
def marked? : List Char → Option (Mark × String)
  | [] => none
  | c :: text => (Mark.ofChar? c).map fun m => (m, String.ofList text)

/-- The hunks of a patch from a hunk on, of which so many old and new lines are still to come. -/
def hunksFrom? : Hunk → (old new : Nat) → List (List Char) → Option (List Hunk)
  | h, old, new, [] => if old = 0 ∧ new = 0 then some [h] else none
  | h, old, new, line :: lines =>
    if old = 0 ∧ new = 0 then
      (heading? line).bind fun (next, old, new) =>
        (hunksFrom? next old new lines).map (h :: ·)
    else
      (marked? line).bind fun marked =>
        if marked.1.olds ≤ old ∧ marked.1.news ≤ new then
          hunksFrom? (h.extend [marked]) (old - marked.1.olds) (new - marked.1.news) lines
        else none

/-- The hunks of a patch. -/
def readPatch? (patch : List Char) : Option (List Hunk) :=
  if endsInFeed patch then
    match withoutRemarks (feedLines patch) with
    | old :: new :: first :: lines =>
      if ['-', '-', '-', ' '].isPrefixOf old && ['+', '+', '+', ' '].isPrefixOf new then
        (heading? first).bind fun (h, old, new) => hunksFrom? h old new lines
      else none
    | _ => none
  else none

/-! ### Application -/

namespace Hunk

/-- The lines of the first list in a hunk. -/
def olds (h : Hunk) : List String := (h.lines.filter (·.1 != .new)).map (·.2)

/-- The lines of the second list in a hunk. -/
def news (h : Hunk) : List String := (h.lines.filter (·.1 != .old)).map (·.2)

end Hunk

/-- The lines that hunks make of `source`, after `passed` lines have become `made` lines. -/
def applyHunks : (passed made : Nat) → (source : List String) → List Hunk → Option (List String)
  | _, _, source, [] => some source
  | passed, made, source, h :: hs =>
    let skipped := h.oldStart - passed
    if passed ≤ h.oldStart ∧ skipped ≤ source.length ∧ made + skipped = h.newStart ∧
        h.olds.isPrefixOf (source.drop skipped) then
      (applyHunks (h.oldStart + h.oldCount) (h.newStart + h.newCount)
          ((source.drop skipped).drop h.oldCount) hs).map
        (source.take skipped ++ h.news ++ ·)
    else none

/-- What a patch makes of a text, if it is one and fits.  No line can stand behind a line that has
    no line feed. -/
def patched? (source patch : String) : Option String :=
  (readPatch? patch.toList).bind fun hunks =>
    (applyHunks 0 0 ((feedLines source.toList).map String.ofList) hunks).bind fun lines =>
      if lines.dropLast.all (endsInFeed ·.toList) then some (String.join lines) else none

end Juxta.Diff
