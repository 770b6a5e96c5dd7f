/-
  Juxta/Proofs/Decimal/ReadBack.lean
  ==================================
  **Decimal numbers read back** — the numeral that is chosen for a magnitude reads back as
  that magnitude (`Magnitude.toBinary64_numeral`), whether the search for few digits finds one
  or the exact expansion is taken; and the positional notation of a numeral has digits on
  either side of its point, which are those of the numeral (`Numeral.exists_positional`).

  Both rest on one fact about rounding: `ofRatio` of a fraction that is exactly a magnitude is
  that magnitude, and it depends on the value of the fraction only.
-/
import Juxta.Decimal.Shortest

namespace Juxta

namespace Binary64

/-! ### Rounding exact fractions -/

/-- A whole quotient is not rounded. -/
theorem roundQuotient_mul (q : Nat) {d : Nat} (hd : 0 < d) : roundQuotient (q * d) d = q := by
  have hdown : q * d / d = q := Nat.mul_div_cancel q hd
  have hrest : q * d % d = 0 := Nat.mul_mod_left q d
  simp only [roundQuotient, hdown, hrest]
  rw [if_pos (by omega)]

/-- Rounding depends on the value of the fraction only. -/
theorem roundQuotient_mul_right (num den : Nat) {k : Nat} (hk : 0 < k) :
    roundQuotient (num * k) (den * k) = roundQuotient num den := by
  have hdown : num * k / (den * k) = num / den := Nat.mul_div_mul_right num den hk
  have hrest : num * k % (den * k) = num % den * k := Nat.mul_mod_mul_right k num den
  have hassoc (n : Nat) : 2 * (n * k) = 2 * n * k := by rw [Nat.mul_assoc]
  simp only [roundQuotient, hdown, hrest, hassoc, Nat.mul_lt_mul_right hk]

theorem ofRatio_mul_right (negative : Bool) (num den : Nat) {k : Nat} (hk : 0 < k) :
    ofRatio negative (num * k) (den * k) = ofRatio negative num den := by
  have hunits : num * k * Magnitude.unitsPerOne = num * Magnitude.unitsPerOne * k :=
    Nat.mul_right_comm ..
  have hscale (n : Nat) : den * k * n = den * n * k := Nat.mul_right_comm ..
  simp only [ofRatio, hunits, Nat.mul_div_mul_right _ _ hk, hscale,
    roundQuotient_mul_right _ _ hk]

theorem scaleOf_units (m : Magnitude) : scaleOf m.units = m.scale := by
  obtain ⟨hlt, -, hbig | hzero⟩ := m.canonical
  · have hpos : 0 < Nat.pow 2 m.scale := Nat.pow_pos (by decide)
    have hlow : Nat.pow 2 (52 + m.scale) ≤ m.units := by
      have hpow : Nat.pow 2 (52 + m.scale) = Nat.pow 2 52 * Nat.pow 2 m.scale := Nat.pow_add 2 52 _
      rw [hpow]
      exact Nat.mul_le_mul_right _ hbig
    have hhigh : m.units < Nat.pow 2 (52 + m.scale + 1) := by
      have hpow : Nat.pow 2 (53 + m.scale) = Nat.pow 2 53 * Nat.pow 2 m.scale := Nat.pow_add 2 53 _
      rw [show 52 + m.scale + 1 = 53 + m.scale by omega, hpow]
      exact Nat.mul_lt_mul_of_pos_right hlt hpos
    have hne : m.units ≠ 0 := by
      have hstart : 0 < Nat.pow 2 (52 + m.scale) := Nat.pow_pos (by decide)
      omega
    have hlog : m.units.log2 = 52 + m.scale := (Nat.log2_eq_iff hne).mpr ⟨hlow, hhigh⟩
    rw [scaleOf, hlog]
    omega
  · have hunits : m.units = m.significand := by
      rw [Magnitude.units, hzero]
      exact Nat.mul_one _
    rw [scaleOf, hunits, hzero]
    by_cases hne : m.significand = 0
    · rw [hne]
      rfl
    · have hlog : m.significand.log2 < 53 := (Nat.log2_lt hne).mpr hlt
      omega

/-- **An exact fraction is rounded to itself.** -/
theorem ofRatio_eq_finite (m : Magnitude) {num den : Nat} (hden : 0 < den)
    (h : num * Magnitude.unitsPerOne = m.units * den) :
    ofRatio false num den = .finite false m := by
  have hquotient : m.units * den / den = m.units := Nat.mul_div_cancel _ hden
  have hpos : 0 < den * Nat.pow 2 m.scale := Nat.mul_pos hden (Nat.pow_pos (by decide))
  have hexact : m.units * den = m.significand * (den * Nat.pow 2 m.scale) := by
    rw [Magnitude.units, Nat.mul_assoc, Nat.mul_comm den]
  have hround : roundQuotient (m.units * den) (den * Nat.pow 2 m.scale) = m.significand := by
    rw [hexact, roundQuotient_mul _ hpos]
  have hne : m.significand ≠ Nat.pow 2 53 := Nat.ne_of_lt m.canonical.1
  simp only [ofRatio, h, hquotient, scaleOf_units, hround, if_neg hne, ofForm]
  rw [dif_pos m.canonical]

end Binary64

/-! ### The numeral of a magnitude -/

namespace Magnitude

/-- An expansion to as many places as a unit has halvings is exact. -/
theorem toBinary64_expansion (m : Magnitude) {k : Nat} (hk : unitsPerOne = Nat.pow 2 k)
    (hpos : 0 < k) :
    Numeral.toBinary64 false ⟨m.units * Nat.pow 5 k, -(k : Int)⟩ = .finite false m := by
  have hexponent : ¬ (0 : Int) ≤ -(k : Int) := by omega
  have hten : Nat.pow 10 k = Nat.pow 5 k * Nat.pow 2 k := Nat.mul_pow 5 2 k
  rw [Numeral.toBinary64, if_neg hexponent, Int.natAbs_neg, Int.natAbs_natCast]
  refine Binary64.ofRatio_eq_finite m (Nat.pow_pos (by decide)) ?_
  rw [hk, hten, Nat.mul_assoc]

theorem toBinary64_of_numeralOfLength? {m : Magnitude} {length : Nat} {n : Numeral}
    (h : m.numeralOfLength? length = some n) : n.toBinary64 false = .finite false m := by
  have hread : m.isReadFrom n = true := List.find?_some h
  exact beq_iff_eq.mp hread

/-- **The numeral of a magnitude reads back as it.** -/
theorem toBinary64_numeral (m : Magnitude) : m.numeral.toBinary64 false = .finite false m := by
  by_cases hzero : m.significand = 0
  · have hunits : m.units = 0 := by rw [units, hzero, Nat.zero_mul]
    rw [numeral, if_pos hzero]
    rw [Numeral.toBinary64, if_pos (Int.le_refl 0), Nat.zero_mul]
    refine Binary64.ofRatio_eq_finite m Nat.one_pos ?_
    rw [hunits, Nat.zero_mul, Nat.zero_mul]
  · rw [numeral, if_neg hzero]
    cases hfound : (List.range 17).findSome? fun i => m.numeralOfLength? (i + 1) with
    | none =>
      have hplaces : unitsPerOne = Nat.pow 2 1074 := rfl
      exact m.toBinary64_expansion hplaces (by decide)
    | some n =>
      obtain ⟨i, -, hi⟩ := List.exists_of_findSome?_eq_some hfound
      exact toBinary64_of_numeralOfLength? hi

end Magnitude

/-! ### Positional notation -/

namespace Numeral

theorem isDigit_of_mem_digits {n : Numeral} {c : Char} (h : c ∈ n.digits) : c.isDigit = true :=
  Nat.isDigit_of_mem_toDigits (by decide) (by decide) h

/-- A numeral is given by its digits and the place of its point. -/
theorem ofDigits_eq (n : Numeral) (zeros : Nat) {whole fraction : List Char}
    (hdigits : whole ++ fraction = List.replicate zeros '0' ++ n.digits)
    (hexponent : -(fraction.length : Int) = n.exponent) : ofDigits whole fraction = n := by
  have hcoefficient : Nat.ofDigitChars 10 (whole ++ fraction) 0 = n.coefficient := by
    rw [hdigits, Nat.ofDigitChars_append, Nat.ofDigitChars_replicate_zero, Nat.mul_zero]
    exact Nat.ofDigitChars_ten_toDigits
  rw [ofDigits, hcoefficient, hexponent]

/-- The same number with a digit behind its point, where positional notation always has one. -/
def withFraction (n : Numeral) : Numeral :=
  if 0 ≤ n.exponent then ⟨n.coefficient * Nat.pow 10 (n.exponent.toNat + 1), -1⟩ else n

theorem toBinary64_withFraction (n : Numeral) (negative : Bool) :
    n.withFraction.toBinary64 negative = n.toBinary64 negative := by
  unfold withFraction
  split
  next h =>
    have hpow : n.coefficient * Nat.pow 10 (n.exponent.toNat + 1) =
        n.coefficient * Nat.pow 10 n.exponent.toNat * Nat.pow 10 1 :=
      (Nat.mul_assoc ..).symm
    have hscaled := Binary64.ofRatio_mul_right negative
      (n.coefficient * Nat.pow 10 n.exponent.toNat) 1 (k := Nat.pow 10 1) (by decide)
    have hnegative : ¬ (0 : Int) ≤ -1 := by decide
    rw [toBinary64, toBinary64, if_neg hnegative, if_pos h, hpow]
    rwa [Nat.one_mul] at hscaled
  next => rfl

/-- Zeros behind the digits, of which the last stands behind the point. -/
theorem ofDigits_zeros {n : Numeral} (h : 0 ≤ n.exponent) :
    ofDigits (n.digits ++ List.replicate n.exponent.toNat '0') ['0'] = n.withFraction := by
  have hzeros : n.digits ++ List.replicate n.exponent.toNat '0' ++ ['0'] =
      n.digits ++ List.replicate (n.exponent.toNat + 1) '0' := by
    rw [List.replicate_succ', List.append_assoc]
  have hvalue : Nat.ofDigitChars 10 n.digits 0 = n.coefficient := Nat.ofDigitChars_ten_toDigits
  rw [ofDigits, hzeros, Nat.ofDigitChars_append, Nat.ofDigitChars_replicate_zero, hvalue,
    Nat.mul_comm, withFraction, if_pos h]
  rfl

/-- A point behind all digits. -/
theorem positional_of_exponent {n : Numeral} (h : 0 ≤ n.exponent) :
    n.positional = n.digits ++ List.replicate n.exponent.toNat '0' ++ ['.', '0'] := by
  have hlength : 0 < n.digits.length := List.length_pos_iff.mpr Nat.toDigits_ne_nil
  have hpoint : n.point = n.digits.length + n.exponent := rfl
  have hleft : ¬ n.point ≤ 0 := by omega
  have hright : n.digits.length ≤ n.point.toNat := by omega
  have hcount : n.point.toNat - n.digits.length = n.exponent.toNat := by omega
  rw [positional, if_neg hleft, if_pos hright, hcount]

/-- A point among the digits. -/
theorem positional_of_digits {n : Numeral} {whole fraction : List Char}
    (hdigits : n.digits = whole ++ fraction) (hpoint : n.point = whole.length)
    (hwhole : whole ≠ []) (hfraction : fraction ≠ []) :
    n.positional = whole ++ '.' :: fraction := by
  have hwhole := List.length_pos_iff.mpr hwhole
  have hfraction := List.length_pos_iff.mpr hfraction
  have hplace : n.point.toNat = whole.length := by omega
  have hleft : ¬ n.point ≤ 0 := by omega
  have hright : ¬ n.digits.length ≤ n.point.toNat := by
    rw [hplace, hdigits, List.length_append]
    omega
  rw [positional, if_neg hleft, if_neg hright, hplace, hdigits, List.take_left, List.drop_left]

/-- **Positional notation** has digits on either side of its point, and they are those of the
    numeral. -/
theorem exists_positional (n : Numeral) : ∃ whole fraction,
    n.positional = whole ++ '.' :: fraction ∧ whole ≠ [] ∧ fraction ≠ [] ∧
      (∀ c ∈ whole, c.isDigit = true) ∧ (∀ c ∈ fraction, c.isDigit = true) ∧
      ofDigits whole fraction = n.withFraction := by
  have hdigits : ∀ c ∈ n.digits, c.isDigit = true := fun c => isDigit_of_mem_digits
  have hzeros (k : Nat) : ∀ c ∈ List.replicate k '0', c.isDigit = true := by
    intro c hc
    rw [List.eq_of_mem_replicate hc]
    decide
  have hne : n.digits ≠ [] := Nat.toDigits_ne_nil
  have hpoint : n.point = n.digits.length + n.exponent := rfl
  by_cases hexponent : 0 ≤ n.exponent
  · -- The point stands behind the digits.
    exact ⟨n.digits ++ List.replicate n.exponent.toNat '0', ['0'],
      positional_of_exponent hexponent, by simp [hne], by simp,
      List.forall_mem_append.mpr ⟨hdigits, hzeros _⟩, by simp, ofDigits_zeros hexponent⟩
  · have hsame : n.withFraction = n := if_neg hexponent
    rw [hsame]
    by_cases hleft : n.point ≤ 0
    · -- The point stands before the digits.
      refine ⟨['0'], List.replicate n.point.natAbs '0' ++ n.digits, ?_, by simp, by simp [hne],
        by simp, List.forall_mem_append.mpr ⟨hzeros _, hdigits⟩,
        ofDigits_eq n (n.point.natAbs + 1) ?_ ?_⟩
      · rw [positional, if_pos hleft]
        rfl
      · rw [List.replicate_succ]
        rfl
      · rw [List.length_append, List.length_replicate]
        omega
    · -- The point stands among the digits.
      have hwhole : n.digits.take n.point.toNat ≠ [] := by
        rw [ne_eq, List.take_eq_nil_iff]
        rintro (hzero | hnil)
        · omega
        · exact hne hnil
      have hfraction : n.digits.drop n.point.toNat ≠ [] := by
        rw [ne_eq, List.drop_eq_nil_iff]
        omega
      have hsplit : n.digits = n.digits.take n.point.toNat ++ n.digits.drop n.point.toNat :=
        (List.take_append_drop _ _).symm
      refine ⟨_, _, positional_of_digits hsplit ?_ hwhole hfraction, hwhole, hfraction,
        fun c hc => hdigits c (List.mem_of_mem_take hc),
        fun c hc => hdigits c (List.mem_of_mem_drop hc), ofDigits_eq n 0 hsplit.symm ?_⟩
      · rw [List.length_take]
        omega
      · rw [List.length_drop]
        omega

end Numeral

end Juxta
