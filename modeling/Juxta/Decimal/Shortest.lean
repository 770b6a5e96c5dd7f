/-
  Juxta/Decimal/Shortest.lean
  ===========================
  **The shortest numeral of a number** — a finite binary64 number is shown by the fewest
  digits that read back as that number and, among those, by the ones nearest to it.

  For one, two, … digits the two neighbours of the number on the decimal grid with that
  many digits are tried, the nearer first (of two equally near ones the even one), and the
  first that reads back is the answer.  Seventeen digits always suffice; the exact decimal
  expansion stands behind the search so that the function needs no argument for that.
-/
import Juxta.Decimal.Numeral

namespace Juxta

namespace Magnitude

/-- The exponent `k` with `10 ^ k ≤ m < 10 ^ (k + 1)`, for a positive magnitude.  The least
    positive one exceeds `10 ^ (-324)`, which bounds the shift that makes it whole. -/
def decimalExponent (m : Magnitude) : Int :=
  ((Nat.toDigits 10 (m.units * Nat.pow 10 324 / unitsPerOne)).length : Int) - 325

/-- The two neighbours of a magnitude on the grid of multiples of `10 ^ exponent`, as
    coefficients, the preferred one first. -/
def neighbours (m : Magnitude) (exponent : Int) : List Nat :=
  let num := if 0 ≤ exponent then m.units else m.units * Nat.pow 10 exponent.natAbs
  let den := if 0 ≤ exponent then unitsPerOne * Nat.pow 10 exponent.toNat else unitsPerOne
  let down := num / den
  if Binary64.roundQuotient num den = down then [down, down + 1] else [down + 1, down]

/-- Whether a numeral reads back as the magnitude. -/
def isReadFrom (m : Magnitude) (n : Numeral) : Bool :=
  n.toBinary64 false == .finite false m

/-- The preferred numeral with the given number of digits that reads back, if there is
    one. -/
def numeralOfLength? (m : Magnitude) (length : Nat) : Option Numeral :=
  let exponent := m.decimalExponent - length + 1
  ((m.neighbours exponent).map fun c => Numeral.dropZeros 18 c exponent).find? m.isReadFrom

/-- The exact decimal expansion: `1074` places hold every magnitude. -/
def exactNumeral (m : Magnitude) : Numeral := ⟨m.units * Nat.pow 5 1074, -1074⟩

/-- The shortest numeral that reads back as the magnitude. -/
def numeral (m : Magnitude) : Numeral :=
  if m.significand = 0 then ⟨0, 0⟩
  else ((List.range 17).findSome? fun i => m.numeralOfLength? (i + 1)).getD m.exactNumeral

end Magnitude

namespace Binary64

/-- The written form of a number in listings and messages. -/
def written : Binary64 → List Char
  | .nan => ['n', 'a', 'n']
  | .infinity negative => (if negative then ['-'] else []) ++ ['i', 'n', 'f']
  | .finite negative m => (if negative then ['-'] else []) ++ m.numeral.written

/-- The number whose written form a text is, without its sign. -/
def ofUnsigned? (negative : Bool) (text : List Char) : Option Binary64 :=
  if text = ['i', 'n', 'f'] then some (.infinity negative)
  else (Numeral.ofWritten? text).map (·.toBinary64 negative)

/-- The number whose written form a text is. -/
def ofWritten? (text : List Char) : Option Binary64 :=
  if text = ['n', 'a', 'n'] then some .nan
  else match text with
    | '-' :: rest => ofUnsigned? true rest
    | _ => ofUnsigned? false text

end Binary64

end Juxta
