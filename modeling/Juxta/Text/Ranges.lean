/-
  Juxta/Text/Ranges.lean
  ======================
  **Sets of characters as ranges** — a set of characters is written down as a list of
  closed ranges of code points in ascending order.  Membership walks the list from the
  left and stops at the first range that begins past the character, so that the common
  characters, which come first, are found soon.
-/
namespace Juxta.Text

/-- Closed ranges `(first, last)` of code points, ascending and disjoint. -/
abbrev Ranges := List (Nat × Nat)

namespace Ranges

/-- Whether a code point lies in one of the ranges. -/
def hasCode : Ranges → Nat → Bool
  | [], _ => false
  | (first, last) :: later, code =>
    if code < first then false else code ≤ last || hasCode later code

/-- Whether a character lies in one of the ranges. -/
def has (ranges : Ranges) (c : Char) : Bool := ranges.hasCode c.toNat

end Ranges

end Juxta.Text
