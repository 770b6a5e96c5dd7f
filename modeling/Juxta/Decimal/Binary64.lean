/-
  Juxta/Decimal/Binary64.lean
  ===========================
  **Double-precision numbers, exactly** — the value of a decimal literal is a binary64
  number.  It is kept as integers, so that reading and writing it are computations on
  natural numbers:

      magnitude  =  significand · 2 ^ scale · 2 ^ (-1074)

  where `2 ^ (-1074)` is the least positive magnitude.  Every finite magnitude has exactly
  one such form with the bounds of `Canonical`: a significand of 53 bits, or a shorter one
  on the lowest scale.

  `ofRatio` rounds a fraction to the nearest binary64 number, a tie to the neighbour with
  the even significand, and to infinity from half a unit above the largest number on.
-/
namespace Juxta

/-- The bounds that make the form of a magnitude unique. -/
def Magnitude.Canonical (significand scale : Nat) : Prop :=
  significand < Nat.pow 2 53 ∧ scale ≤ 2045 ∧ (Nat.pow 2 52 ≤ significand ∨ scale = 0)

instance (significand scale : Nat) : Decidable (Magnitude.Canonical significand scale) :=
  inferInstanceAs (Decidable (_ ∧ _ ∧ (_ ∨ _)))

/-- A finite magnitude `significand · 2 ^ scale`, counted in units of `2 ^ (-1074)`. -/
structure Magnitude where
  significand : Nat
  scale : Nat
  canonical : Magnitude.Canonical significand scale
deriving DecidableEq, Repr

/-- A binary64 number. -/
inductive Binary64 where
  | nan
  | infinity (negative : Bool)
  | finite (negative : Bool) (magnitude : Magnitude)
deriving DecidableEq, Repr

namespace Magnitude

/-- How many units of `2 ^ (-1074)` a magnitude is. -/
def units (m : Magnitude) : Nat := m.significand * Nat.pow 2 m.scale

/-- The number of units of `2 ^ (-1074)` in one. -/
def unitsPerOne : Nat := Nat.pow 2 1074

/-- Zero. -/
def zero : Magnitude := ⟨0, 0, by decide⟩

end Magnitude

namespace Binary64

/-- The quotient of two numbers rounded to a whole number, a tie to the even neighbour. -/
def roundQuotient (num den : Nat) : Nat :=
  let down := num / den
  let rest := num % den
  if 2 * rest < den then down
  else if den < 2 * rest then down + 1
  else if down % 2 = 0 then down else down + 1

/-- The scale on which a magnitude of `units` whole units has a significand of 53 bits, or
    the lowest scale for a smaller one. -/
def scaleOf (units : Nat) : Nat := units.log2 - 52

/-- The number with the given sign and form, or infinity when the form is out of bounds. -/
def ofForm (negative : Bool) (significand scale : Nat) : Binary64 :=
  if h : Magnitude.Canonical significand scale then .finite negative ⟨significand, scale, h⟩
  else .infinity negative

/-- The binary64 number nearest to `num / den`, for a positive `den`. -/
def ofRatio (negative : Bool) (num den : Nat) : Binary64 :=
  let scaled := num * Magnitude.unitsPerOne
  let scale := scaleOf (scaled / den)
  let significand := roundQuotient scaled (den * Nat.pow 2 scale)
  if significand = Nat.pow 2 53 then ofForm negative (Nat.pow 2 52) (scale + 1)
  else ofForm negative significand scale

/-- Whether a number lies strictly below zero; a negative zero does not. -/
def isNegative : Binary64 → Bool
  | .nan => false
  | .infinity negative => negative
  | .finite negative m => negative && m.significand != 0

/-- Whether a number is neither infinite nor undefined. -/
def isFinite : Binary64 → Bool
  | .finite _ _ => true
  | _ => false

/-- Equality of numbers: zeros are equal whatever their sign, and an undefined number
    equals nothing. -/
def sameNumber : Binary64 → Binary64 → Bool
  | .infinity a, .infinity b => a == b
  | .finite a m, .finite b n => decide (m = n) && (a == b || m.significand == 0)
  | _, _ => false

end Binary64

end Juxta
