/-
  Juxta/Diff/Script.lean
  ======================
  **From one list of lines to another** — a script is a sequence of segments, each either
  lines that both lists share or lines of the first list with the lines of the second
  that take their place.  The lines of all segments, read on one side, are the first list
  and, read on the other, the second.

  The script is built around the longest run of lines that the lists share, the leftmost
  of several equally long, and then in the same way before and after it.  In a long
  second list the lines that occur very often (`commonLines`) do not count when that run
  is looked for; they only prolong it.
-/
namespace Juxta.Diff

/-- A part of a script. -/
inductive Segment where
  | shared (lines : List String)
  | changed (old new : List String)
deriving DecidableEq, Repr

namespace Segment

/-- The lines of a segment in the first list. -/
def old : Segment → List String
  | .shared lines => lines
  | .changed old _ => old

/-- The lines of a segment in the second list. -/
def new : Segment → List String
  | .shared lines => lines
  | .changed _ new => new

end Segment

/-! ### The longest shared run -/

/-- A run of `size` lines that begins after `old` lines of the one list and after `new`
    lines of the other. -/
structure Run where
  old : Nat
  new : Nat
  size : Nat
deriving DecidableEq, Repr

/-- From how many lines on a list is long enough to have common lines. -/
def longList : Nat := 200

/-- The lines that make up more than one hundredth of a long list, and one line more. -/
def commonLines (lines : List String) : List String :=
  if lines.length < longList then []
  else lines.filter fun line => lines.length / 100 + 1 < lines.count line

/-- For each line of the second list the length of the shared run that ends there and at
    the line `line` of the first list, from the lengths for the line before; `diagonal` is
    the one for the pair of lines before. -/
def nextLengths (line : String) : (diagonal : Nat) → List String → List Nat → List Nat
  | _, [], _ => []
  | diagonal, other :: others, lengths =>
    (if line == other then diagonal + 1 else 0)
      :: nextLengths line (lengths.headD 0) others lengths.tail

/-- The better of a run and those that end at line `i` of the first list, with the given
    lengths, from line `j` of the second list on. -/
def betterRun (i : Nat) : (j : Nat) → List Nat → Run → Run
  | _, [], best => best
  | j, size :: sizes, best =>
    betterRun i (j + 1) sizes
      (if best.size < size then ⟨i + 1 - size, j + 1 - size, size⟩ else best)

/-- The longest shared run of lines that are not ignored, from line `i` of the first list
    on. -/
def longestFrom (ignored new : List String) : (i : Nat) → List String → List Nat → Run → Run
  | _, [], _, best => best
  | i, line :: lines, lengths, best =>
    let lengths := if ignored.contains line then [] else nextLengths line 0 new lengths
    longestFrom ignored new (i + 1) lines lengths (betterRun i 0 lengths best)

/-- How many lines two lists share at their front. -/
def sharedFront : List String → List String → Nat
  | x :: xs, y :: ys => if x == y then sharedFront xs ys + 1 else 0
  | _, _ => 0

/-- The longest shared run, prolonged on both sides by all lines that the lists share
    there. -/
def longestRun (ignored old new : List String) : Run :=
  let core := longestFrom ignored new 0 old [] ⟨0, 0, 0⟩
  let before := sharedFront (old.take core.old).reverse (new.take core.new).reverse
  let after := sharedFront (old.drop (core.old + core.size)) (new.drop (core.new + core.size))
  ⟨core.old - before, core.new - before, before + core.size + after⟩

/-! ### Scripts -/

/-- Puts shared lines in front of a script, together with shared lines that it begins
    with. -/
def consShared (lines : List String) : List Segment → List Segment
  | .shared more :: script => .shared (lines ++ more) :: script
  | script => .shared lines :: script

/-- The script before `tail` from `old` to `new`, built around at most `fuel` nested
    runs. -/
def scriptOnto (ignored : List String) :
    (fuel : Nat) → (old new : List String) → (tail : List Segment) → List Segment
  | 0, old, new, tail => .changed old new :: tail
  | fuel + 1, old, new, tail =>
    if old.isEmpty && new.isEmpty then tail
    else
      let run := longestRun ignored old new
      if run.size = 0 then .changed old new :: tail
      else
        let after := scriptOnto ignored fuel (old.drop (run.old + run.size))
          (new.drop (run.new + run.size)) tail
        scriptOnto ignored fuel (old.take run.old) (new.take run.new)
          (consShared ((old.drop run.old).take run.size) after)

/-- The script from one list of lines to another. -/
def script (old new : List String) : List Segment :=
  scriptOnto (commonLines new) (old.length + 1) old new []

end Juxta.Diff
