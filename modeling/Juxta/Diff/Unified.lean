/-
  Juxta/Diff/Unified.lean
  =======================
  **Unified diffs** — a script is shown as hunks: its changes, each with up to three of
  the shared lines before and after it.  Changes with at most six shared lines between
  them stand in one hunk.  A hunk is headed by the lines that it covers on either side,
  and every line in it is marked as shared, as old or as new.

  A line is written as it is, with the boundary that ends it.  A line without one is
  followed at once by the next.
-/
import Juxta.Diff.Script
import Juxta.Text.Lines

namespace Juxta.Diff

/-- The number of shared lines shown on either side of a change. -/
def context : Nat := 3

/-- A line of a hunk. -/
inductive Mark where
  | shared
  | old
  | new
deriving DecidableEq, Repr

/-- The character that a marked line begins with. -/
def Mark.char : Mark → Char
  | .shared => ' '
  | .old => '-'
  | .new => '+'

/-- A part of a diff. -/
structure Hunk where
  /-- The number of lines before the hunk in the first list. -/
  oldStart : Nat
  /-- The number of lines before the hunk in the second list. -/
  newStart : Nat
  lines : List (Mark × String)
deriving DecidableEq, Repr

namespace Hunk

/-- The number of lines of the first list in a hunk. -/
def oldCount (h : Hunk) : Nat := h.lines.countP (·.1 != .new)

/-- The number of lines of the second list in a hunk. -/
def newCount (h : Hunk) : Nat := h.lines.countP (·.1 != .old)

/-- A hunk with further lines at its end. -/
def extend (h : Hunk) (lines : List (Mark × String)) : Hunk := { h with lines := h.lines ++ lines }

/-- Lines as the shared lines of a hunk. -/
def sharedLines (lines : List String) : List (Mark × String) := lines.map (.shared, ·)

/-- The hunk of the last shared lines before a change, after which `old` and `new` lines
    have passed. -/
def opening (old new : Nat) (lines : List String) : Hunk :=
  let kept := lines.drop (lines.length - context)
  ⟨old - kept.length, new - kept.length, sharedLines kept⟩

end Hunk

/-- The hunks of a script, after `old` and `new` lines have passed and with the hunk that
    is open. -/
def hunksFrom : (old new : Nat) → Option Hunk → List Segment → List Hunk
  | _, _, current, [] => current.toList
  | old, new, current, .changed removed added :: script =>
    let hunk := (current.getD ⟨old, new, []⟩).extend
      (removed.map (.old, ·) ++ added.map (.new, ·))
    hunksFrom (old + removed.length) (new + added.length) (some hunk) script
  | old, new, current, .shared lines :: script =>
    let old := old + lines.length
    let new := new + lines.length
    match current, script with
    | none, [] => []
    | none, _ => hunksFrom old new (some (Hunk.opening old new lines)) script
    | some hunk, [] => [hunk.extend (Hunk.sharedLines (lines.take context))]
    | some hunk, _ =>
      if lines.length ≤ 2 * context then
        hunksFrom old new (some (hunk.extend (Hunk.sharedLines lines))) script
      else
        hunk.extend (Hunk.sharedLines (lines.take context))
          :: hunksFrom old new (some (Hunk.opening old new lines)) script

/-- The hunks of a script. -/
def hunks (script : List Segment) : List Hunk := hunksFrom 0 0 none script

/-- The lines that a hunk covers: the number of the first one and, unless there is exactly
    one, how many they are.  An empty range is named by the line before it. -/
def rangeText (start count : Nat) : String :=
  if count = 1 then (start + 1).repr
  else (if count = 0 then start else start + 1).repr ++ "," ++ count.repr

/-- The text of a hunk. -/
def Hunk.text (h : Hunk) : String :=
  "@@ -" ++ rangeText h.oldStart h.oldCount ++ " +" ++ rangeText h.newStart h.newCount ++ " @@\n"
    ++ String.join (h.lines.map fun (mark, line) => mark.char.toString ++ line)

/-- The lines of a text, each with its boundary. -/
def linesOf (text : String) : List String := (Text.splitLines text.toList).map String.ofList

/-- The unified diff from one text to another, both under the given name; texts with the
    same lines have an empty one. -/
def unified (name old new : String) : String :=
  match hunks (script (linesOf old) (linesOf new)) with
  | [] => ""
  | found => "--- a/" ++ name ++ "\n+++ b/" ++ name ++ "\n" ++ String.join (found.map Hunk.text)

end Juxta.Diff
