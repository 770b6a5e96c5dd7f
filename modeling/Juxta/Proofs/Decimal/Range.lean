/-
  Juxta/Proofs/Decimal/Range.lean
  ===============================
  **Where decimal numbers end** — a fraction is rounded to infinity exactly from half a unit above
  the largest number on (`Binary64.ofRatio_eq_infinity_iff`), and so is a decimal literal whose
  value is that large (`Numeral.toBinary64_ofDigits_eq_infinity_iff`).

  The scale of a fraction says how large it is (`Binary64.le_scaleOf_iff`); on the highest scale
  the rounded significand decides, and a tie goes up there because the largest significand is odd
  (`Binary64.lt_roundQuotient_iff`).
-/
import Juxta.Decimal.Numeral
import Mathlib.Tactic.Ring

namespace Juxta

namespace Binary64

/-! ### Rounding up -/

theorem div_le_roundQuotient (num den : Nat) : num / den ≤ roundQuotient num den := by
  unfold roundQuotient
  dsimp only
  split_ifs <;> omega

theorem roundQuotient_le (num den : Nat) : roundQuotient num den ≤ num / den + 1 := by
  unfold roundQuotient
  dsimp only
  split_ifs <;> omega

/-- Above an odd number a quotient is rounded from the middle on. -/
theorem lt_roundQuotient_iff {num den n : Nat} (hden : 0 < den) (hodd : n % 2 = 1) :
    n < roundQuotient num den ↔ (2 * n + 1) * den ≤ 2 * num := by
  have hle := div_le_roundQuotient num den
  have hge := roundQuotient_le num den
  have hrest := Nat.mod_lt num hden
  have hnum := Nat.div_add_mod num den
  have hmiddle : (2 * n + 1) * den = 2 * (den * n) + den := by ring
  rw [hmiddle]
  rcases Nat.lt_trichotomy (num / den) n with hlt | heq | hgt
  · have hbelow := Nat.mul_le_mul_left den (Nat.succ_le_of_lt hlt)
    rw [Nat.mul_succ] at hbelow
    omega
  · rw [heq] at hnum
    have hdef : roundQuotient num den =
        if 2 * (num % den) < den then n else if den < 2 * (num % den) then n + 1
        else if n % 2 = 0 then n else n + 1 := by
      rw [← heq]
      rfl
    rw [hdef]
    split_ifs <;> omega
  · have habove := Nat.mul_le_mul_left den (Nat.succ_le_of_lt hgt)
    rw [Nat.mul_succ] at habove
    omega

/-! ### The scale of a fraction -/

theorem lt_pow_scaleOf (units : Nat) : units < 2 ^ (53 + scaleOf units) := by
  refine Nat.lt_log2_self.trans_le (Nat.pow_le_pow_right (by decide) ?_)
  unfold scaleOf
  omega

theorem le_scaleOf_iff {units k : Nat} (hk : 0 < k) :
    k ≤ scaleOf units ↔ 2 ^ (52 + k) ≤ units := by
  have hscale : k ≤ scaleOf units ↔ 52 + k ≤ units.log2 := by
    unfold scaleOf
    omega
  rw [hscale]
  by_cases hzero : units = 0
  · subst hzero
    have hpos : 0 < 2 ^ (52 + k) := Nat.pow_pos (by decide)
    have hlog : Nat.log2 0 = 0 := by simp
    omega
  · exact Nat.le_log2 hzero

variable {den : Nat}

/-- The scale on which a fraction is rounded. -/
def ratioScale (num den : Nat) : Nat := scaleOf (num * Magnitude.unitsPerOne / den)

/-- A fraction rounded on its scale. -/
def ratioSignificand (num den : Nat) : Nat :=
  roundQuotient (num * Magnitude.unitsPerOne) (den * 2 ^ ratioScale num den)

theorem ofRatio_eq (negative : Bool) (num den : Nat) :
    ofRatio negative num den =
      if ratioSignificand num den = 2 ^ 53 then
        ofForm negative (2 ^ 52) (ratioScale num den + 1)
      else ofForm negative (ratioSignificand num den) (ratioScale num den) := rfl

/-- The exponent is a variable here so that the power is not computed. -/
theorem exists_unitsPerOne_eq : ∃ k, k = 1074 ∧ Magnitude.unitsPerOne = 2 ^ k :=
  ⟨1074, rfl, rfl⟩

theorem unitsPerOne_pos : 0 < Magnitude.unitsPerOne := by
  obtain ⟨k, -, hunits⟩ := exists_unitsPerOne_eq
  rw [hunits]
  exact Nat.pow_pos (by decide)

theorem le_ratioScale_iff (num : Nat) (hden : 0 < den) (k : Nat) :
    1022 + k + 1 ≤ ratioScale num den ↔ 2 ^ (k + 1) * den ≤ num := by
  have hpos := unitsPerOne_pos
  have hpow : 2 ^ (52 + (1022 + k + 1)) = 2 ^ (k + 1) * Magnitude.unitsPerOne := by
    obtain ⟨i, hi, hunits⟩ := exists_unitsPerOne_eq
    have hexponent : 52 + (1022 + k + 1) = k + 1 + i := by omega
    rw [hunits, ← Nat.pow_add, hexponent]
  rw [ratioScale, le_scaleOf_iff (by omega), Nat.le_div_iff_mul_le hden, hpow,
    Nat.mul_right_comm, Nat.mul_le_mul_right_iff hpos]

/-- The rounded significand has 53 bits, or one unit more, or the scale is the lowest. -/
theorem ratioSignificand_bounds (num den : Nat) :
    ratioSignificand num den ≤ 2 ^ 53 ∧
      (2 ^ 52 ≤ ratioSignificand num den ∨ ratioScale num den = 0) := by
  have hle := div_le_roundQuotient (num * Magnitude.unitsPerOne) (den * 2 ^ ratioScale num den)
  have hge := roundQuotient_le (num * Magnitude.unitsPerOne) (den * 2 ^ ratioScale num den)
  rw [← Nat.div_div_eq_div_mul, ← ratioSignificand] at hle hge
  have hpos : 0 < 2 ^ ratioScale num den := Nat.pow_pos (by decide)
  constructor
  · have hlt : num * Magnitude.unitsPerOne / den / 2 ^ ratioScale num den < 2 ^ 53 := by
      rw [Nat.div_lt_iff_lt_mul hpos, ← Nat.pow_add]
      exact lt_pow_scaleOf _
    omega
  · rcases Nat.eq_zero_or_pos (ratioScale num den) with hzero | hscale
    · exact Or.inr hzero
    · refine Or.inl (Nat.le_trans ?_ hle)
      rw [Nat.le_div_iff_mul_le hpos, ← Nat.pow_add]
      exact (le_scaleOf_iff hscale).mp (Nat.le_refl _)

/-! ### Overflow -/

theorem ofForm_eq_infinity_iff {negative : Bool} {significand scale : Nat} :
    ofForm negative significand scale = .infinity negative ↔
      ¬ Magnitude.Canonical significand scale := by
  unfold ofForm
  split_ifs with h <;> simp [h]

/-- A fraction overflows above the highest scale, or when it is rounded up there. -/
theorem ofRatio_eq_infinity_iff_scale (negative : Bool) (num den : Nat) :
    ofRatio negative num den = .infinity negative ↔
      2046 ≤ ratioScale num den ∨
        2045 ≤ ratioScale num den ∧ 2 ^ 53 - 1 < ratioSignificand num den := by
  obtain ⟨hle, hlow⟩ := ratioSignificand_bounds num den
  have hhalf : Nat.pow 2 52 ≤ 2 ^ 52 ∧ 2 ^ 52 < Nat.pow 2 53 := ⟨Nat.le_refl _, by decide⟩
  rw [ofRatio_eq]
  split_ifs with hcarry
  · rw [ofForm_eq_infinity_iff, Magnitude.Canonical]
    omega
  · rw [ofForm_eq_infinity_iff, Magnitude.Canonical]
    change ¬ (_ < 2 ^ 53 ∧ _ ∧ (2 ^ 52 ≤ _ ∨ _)) ↔ _
    omega

/-- Half a unit above the largest number. -/
@[irreducible] def overflow : Nat := (2 ^ 54 - 1) * 2 ^ 970

theorem exists_overflow_eq : ∃ unit, unit = 2 ^ 970 ∧ overflow = (2 ^ 54 - 1) * unit :=
  ⟨2 ^ 970, rfl, by unfold overflow; rfl⟩

/-- On the highest scale a fraction is rounded up from half a unit below the next power of two on. -/
theorem lt_ratioSignificand_iff (num : Nat) (hden : 0 < den) (hscale : ratioScale num den = 2045) :
    2 ^ 53 - 1 < ratioSignificand num den ↔ overflow * den ≤ num := by
  obtain ⟨unit, hunit, hoverflow⟩ := exists_overflow_eq
  have hpos : 0 < 2 * Magnitude.unitsPerOne := Nat.mul_pos (by decide) unitsPerOne_pos
  have hpow : 2 ^ ratioScale num den = unit * (2 * Magnitude.unitsPerOne) := by
    obtain ⟨i, hi, hunits⟩ := exists_unitsPerOne_eq
    rw [hscale, hunit, hunits, ← Nat.pow_succ', ← Nat.pow_add, hi]
  have hleft : (2 * (2 ^ 53 - 1) + 1) * (den * (unit * (2 * Magnitude.unitsPerOne))) =
      overflow * den * (2 * Magnitude.unitsPerOne) := by
    rw [hoverflow, show 2 * (2 ^ 53 - 1) + 1 = 2 ^ 54 - 1 from rfl]
    ring
  have hright : 2 * (num * Magnitude.unitsPerOne) = num * (2 * Magnitude.unitsPerOne) :=
    Nat.mul_left_comm ..
  rw [ratioSignificand, lt_roundQuotient_iff (Nat.mul_pos hden (Nat.pow_pos (by decide))) rfl, hpow,
    hleft, hright, Nat.mul_le_mul_right_iff hpos]

/-- **A fraction is rounded to infinity exactly from half a unit above the largest number on.** -/
theorem ofRatio_eq_infinity_iff (negative : Bool) (num : Nat) (hden : 0 < den) :
    ofRatio negative num den = .infinity negative ↔ overflow * den ≤ num := by
  obtain ⟨unit, hunit, hoverflow⟩ := exists_overflow_eq
  have hhigher := le_ratioScale_iff num hden 1023
  have hhighest := le_ratioScale_iff num hden 1022
  have hround := lt_ratioSignificand_iff num hden
  have hpower (k : Nat) : 2 ^ (970 + k) * den = 2 ^ k * (unit * den) := by
    rw [Nat.pow_add, ← hunit, Nat.mul_comm unit, Nat.mul_assoc]
  rw [show 1023 + 1 = 970 + 54 from rfl, hpower] at hhigher
  rw [show 1022 + 1 = 970 + 53 from rfl, hpower] at hhighest
  rw [ofRatio_eq_infinity_iff_scale]
  rw [hoverflow, Nat.mul_assoc] at hround ⊢
  omega

end Binary64

/-! ### Decimal literals -/

/-- **A decimal literal overflows exactly when its value does.** -/
theorem Numeral.toBinary64_ofDigits_eq_infinity_iff (whole fraction : List Char) :
    (ofDigits whole fraction).toBinary64 false = .infinity false ↔
      Binary64.overflow * 10 ^ fraction.length ≤ Nat.ofDigitChars 10 (whole ++ fraction) 0 := by
  have hpos : 0 < 10 ^ fraction.length := Nat.pow_pos (by decide)
  rw [ofDigits, toBinary64]
  dsimp only
  split_ifs with hwhole
  · have hnone : fraction.length = 0 := by omega
    rw [Binary64.ofRatio_eq_infinity_iff false _ Nat.one_pos, hnone]
    simp
  · rw [Int.natAbs_neg, Int.natAbs_natCast, Nat.pow_eq, Binary64.ofRatio_eq_infinity_iff false _ hpos]

end Juxta
