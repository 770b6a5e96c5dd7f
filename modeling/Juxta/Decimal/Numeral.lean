/-
  Juxta/Decimal/Numeral.lean
  ==========================
  **Decimal numerals** — a numeral is a whole coefficient times a power of ten.  It can be
  written in two ways: in positional notation, always with a point and at least one digit
  on either side of it, or in scientific notation with one digit before the point and an
  exponent of at least two digits.  Listings and messages choose between the two by the
  size of the number (`written` below stays positional from `10 ^ (-4)` up to, but not
  including, `10 ^ 16`); source text knows positional notation only.
-/
import Juxta.Decimal.Binary64

namespace Juxta

/-- The number `coefficient · 10 ^ exponent`. -/
structure Numeral where
  coefficient : Nat
  exponent : Int
deriving DecidableEq, Repr

namespace Numeral

/-- The decimal digits of the coefficient. -/
def digits (n : Numeral) : List Char := Nat.toDigits 10 n.coefficient

/-- Where the decimal point stands, counted in digits from the front of `digits`: the
    number is `0.digits · 10 ^ point`. -/
def point (n : Numeral) : Int := n.digits.length + n.exponent

/-- Positional notation. -/
def positional (n : Numeral) : List Char :=
  let digits := n.digits
  let point := n.point
  if point ≤ 0 then '0' :: '.' :: (List.replicate point.natAbs '0' ++ digits)
  else if digits.length ≤ point.toNat then
    digits ++ List.replicate (point.toNat - digits.length) '0' ++ ['.', '0']
  else digits.take point.toNat ++ '.' :: digits.drop point.toNat

/-- The exponent of scientific notation: a sign and at least two digits. -/
def exponentText (e : Int) : List Char :=
  let digits := Nat.toDigits 10 e.natAbs
  (if e < 0 then '-' else '+') :: (if digits.length < 2 then '0' :: digits else digits)

/-- Scientific notation: one digit, the others after a point if there are any, and the
    exponent. -/
def scientific (n : Numeral) : List Char :=
  let exponent := 'e' :: exponentText (n.point - 1)
  match n.digits with
  | [] => exponent
  | [d] => d :: exponent
  | d :: others => d :: '.' :: (others ++ exponent)

/-- The written form of a number in listings and messages: positional from `10 ^ (-4)` up
    to `10 ^ 16`, scientific outside. -/
def written (n : Numeral) : List Char :=
  if -4 ≤ n.point - 1 ∧ n.point - 1 ≤ 15 then n.positional else n.scientific

/-- The binary64 number nearest to a numeral. -/
def toBinary64 (negative : Bool) (n : Numeral) : Binary64 :=
  if 0 ≤ n.exponent then .ofRatio negative (n.coefficient * Nat.pow 10 n.exponent.toNat) 1
  else .ofRatio negative n.coefficient (Nat.pow 10 n.exponent.natAbs)

/-- The numeral of `whole.fraction`, both given by their digits. -/
def ofDigits (whole fraction : List Char) : Numeral :=
  ⟨Nat.ofDigitChars 10 (whole ++ fraction) 0, -(fraction.length : Int)⟩

/-- The exponent that stands after an `e`, if the text is one. -/
def exponentOfText? : List Char → Option Int
  | '-' :: digits => natural digits |>.map fun n => -(n : Int)
  | '+' :: digits => natural digits |>.map fun n => (n : Int)
  | digits => natural digits |>.map fun n => (n : Int)
where
  /-- The number that digits stand for, if there are digits and nothing else. -/
  natural (digits : List Char) : Option Nat :=
    if digits.isEmpty || digits.any (!·.isDigit) then none
    else some (Nat.ofDigitChars 10 digits 0)

/-- The numeral that a text in positional or scientific notation stands for. -/
def ofWritten? (text : List Char) : Option Numeral :=
  let mantissa := text.takeWhile (· != 'e')
  let whole := mantissa.takeWhile (· != '.')
  let fraction := mantissa.drop (whole.length + 1)
  if whole.isEmpty || !(whole ++ fraction).all Char.isDigit then none
  else
    let n := ofDigits whole fraction
    match text.drop mantissa.length with
    | [] => some n
    | _ :: exponent => (exponentOfText? exponent).map fun e => ⟨n.coefficient, n.exponent + e⟩

/-- Takes one factor of ten after another out of the coefficient, at most `fuel` of them. -/
def dropZeros : (fuel coefficient : Nat) → (exponent : Int) → Numeral
  | 0, c, e => ⟨c, e⟩
  | fuel + 1, c, e => if c ≠ 0 ∧ c % 10 = 0 then dropZeros fuel (c / 10) (e + 1) else ⟨c, e⟩

end Numeral

end Juxta
