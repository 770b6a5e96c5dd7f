/-
  Juxta/Proofs/Decimal/Positional.lean
  ====================================
  **Positional notation is exact** — listings write a number with an exponent when it is large or
  small; source text has no exponents, so that the point has to be moved there and zeros have to
  be filled in on either side.

    * `Numeral.value` is the rational number that a numeral stands for.  Positional notation keeps
      it, whatever the digits and the exponent are, and is read as one token
      (`Numeral.positional_exact`);
    * `Numeral.positional_withFraction`: the numeral that is read from the form for listings has
      the same positional notation as the one that was written there;
    * `Layout.decimalText_exact`: so the source text of a number is that of its form in listings.
-/
import Juxta.Proofs.Layout.Shapes
import Juxta.Proofs.Listing.Written
import Mathlib.Algebra.Field.Rat
import Mathlib.Tactic.Ring

namespace Juxta

namespace Numeral

/-! ### Values -/

/-- The rational number that a numeral stands for. -/
def value (n : Numeral) : ℚ := n.coefficient * (10 : ℚ) ^ n.exponent

theorem value_withFraction (n : Numeral) : n.withFraction.value = n.value := by
  unfold withFraction
  split
  next h =>
    obtain ⟨e, he⟩ := Int.eq_ofNat_of_zero_le h
    have hten : (10 : ℚ) ≠ 0 := by norm_num
    have hpow : ((n.coefficient * Nat.pow 10 (n.exponent.toNat + 1) : ℕ) : ℚ) =
        n.coefficient * (10 : ℚ) ^ (e + 1) := by
      rw [he, Int.toNat_natCast]
      exact_mod_cast rfl
    calc ((n.coefficient * Nat.pow 10 (n.exponent.toNat + 1) : ℕ) : ℚ) * (10 : ℚ) ^ (-1 : ℤ)
        = n.coefficient * ((10 : ℚ) ^ (e + 1) * (10 : ℚ) ^ (-1 : ℤ)) := by rw [hpow, mul_assoc]
      _ = n.coefficient * (10 : ℚ) ^ (e : ℤ) := by
        rw [← zpow_natCast, ← zpow_add₀ hten, Nat.cast_succ, add_neg_cancel_right]
      _ = n.value := by rw [value, he]
  next => rfl

/-! ### Digits -/

/-- A power of ten behind a number are zeros behind its digits. -/
theorem toDigits_mul_pow {c : Nat} (hc : 0 < c) (k : Nat) :
    Nat.toDigits 10 (c * Nat.pow 10 k) = Nat.toDigits 10 c ++ List.replicate k '0' := by
  induction k with
  | zero => rw [List.replicate_zero, List.append_nil, Nat.pow_eq, Nat.pow_zero, Nat.mul_one]
  | succ k ih =>
    have hpos : 0 < c * Nat.pow 10 k := Nat.mul_pos hc (Nat.pow_pos (by decide))
    have hnext : 10 * (c * Nat.pow 10 k) + 0 = c * Nat.pow 10 (k + 1) := by
      rw [Nat.pow_eq, Nat.pow_eq, Nat.pow_succ]
      ring
    rw [← hnext, ← Nat.toDigits_append_toDigits (by decide) hpos (by decide), ih,
      List.replicate_succ', List.append_assoc]
    rfl

/-- Digits behind the last one, of which one stands behind the point, do not change positional
    notation.  Zero has no digits in front of them. -/
theorem positional_withFraction {n : Numeral} (h : n.coefficient = 0 → n.exponent = 0) :
    n.withFraction.positional = n.positional := by
  by_cases hexponent : 0 ≤ n.exponent
  · rcases Nat.eq_zero_or_pos n.coefficient with hzero | hpos
    · obtain rfl : n = ⟨0, 0⟩ := by
        rw [← hzero, ← h hzero]
      rfl
    · have hsame : n.withFraction = ⟨n.coefficient * Nat.pow 10 (n.exponent.toNat + 1), -1⟩ :=
        if_pos hexponent
      have hdigits : n.withFraction.digits =
          n.digits ++ List.replicate n.exponent.toNat '0' ++ ['0'] := by
        rw [hsame, digits, toDigits_mul_pow hpos, List.replicate_succ', List.append_assoc]
        rfl
      have hpoint : n.withFraction.point =
          (n.digits ++ List.replicate n.exponent.toNat '0').length := by
        have hplace : n.withFraction.exponent = -1 := by rw [hsame]
        rw [point, hdigits, hplace, List.length_append, List.length_singleton, Nat.cast_succ,
          add_neg_cancel_right]
      have hne : n.digits ++ List.replicate n.exponent.toNat '0' ≠ [] :=
        List.append_ne_nil_of_left_ne_nil Nat.toDigits_ne_nil _
      rw [positional_of_digits hdigits hpoint hne (List.cons_ne_nil _ _),
        positional_of_exponent hexponent]
  · rw [withFraction, if_neg hexponent]

/-! ### Reading -/

/-- **Positional notation of any numeral** is two runs of digits with a point between them.  They
    stand for the same rational number, and are read as one decimal token in front of every
    character that is no digit. -/
theorem positional_exact (n : Numeral) : ∃ whole fraction, n.positional = whole ++ '.' :: fraction ∧
    Text.IsDigits whole ∧ Text.IsDigits fraction ∧
    (ofDigits whole fraction).value = n.value ∧
    ∀ (k : Cursor) (c : Char) (rest : List Char), c.isDigit = false →
      k.rest = n.positional ++ c :: rest → ∃ t k', Scanner.next k = .ok t k' ∧
        t.kind = .decimal ∧ t.lexeme.toList = n.positional ∧ k'.rest = c :: rest := by
  obtain ⟨whole, fraction, htext, hwhole, hfraction, hwholeDigits, hfractionDigits, hsame⟩ :=
    n.exists_positional
  refine ⟨whole, fraction, htext, ⟨hwhole, hwholeDigits⟩, ⟨hfraction, hfractionDigits⟩,
    by rw [hsame, value_withFraction], fun k c rest hc hk => ?_⟩
  generalize hs : Shape.decimal (String.ofList whole) (String.ofList fraction) = s
  have hlexeme : s.lexeme.toList = n.positional := by
    rw [← hs, htext]
    simp [Shape.lexeme, String.toList_append]
  have hisLexeme : s.IsLexeme := by
    have hdigits : Text.IsDigits fraction := ⟨hfraction, hfractionDigits⟩
    rw [← hs]
    exact ⟨by simpa using hwholeDigits, by simpa using hdigits⟩
  have hends : s.EndsBefore (c :: rest) := by
    rw [← hs]
    exact Text.stops_cons.mpr hc
  have hread : Scan.ofText k.rest = .token s := by
    rw [hk, ← hlexeme]
    exact Scan.ofText_append hisLexeme hends
  refine ⟨_, _, Scanner.next_of_ofText hread, by rw [← hs]; rfl, hlexeme, ?_⟩
  rw [Cursor.rest_forward, hk, ← hlexeme, ← String.length_toList, List.drop_left]

end Numeral

namespace Magnitude

/-- The numeral of a magnitude is zero only as the numeral of zero. -/
theorem numeral_exponent (m : Magnitude) (h : m.numeral.coefficient = 0) :
    m.numeral.exponent = 0 := by
  have hzero : m.numeral.toBinary64 false = .finite false .zero := by
    unfold Numeral.toBinary64
    rw [h]
    split
    · exact Binary64.ofRatio_eq_finite .zero Nat.one_pos (by simp [units, zero])
    · exact Binary64.ofRatio_eq_finite .zero (Nat.pow_pos (by decide)) (by simp [units, zero])
  rw [m.toBinary64_numeral] at hzero
  cases hzero
  rfl

end Magnitude

namespace Layout

/-- **The source text of a decimal number is exact.**  Every number that is finite and has no sign
    has one.  It is the positional notation of the numeral that listings show: digits, a point and
    digits, which stand for the same rational number as that numeral and are read as one decimal
    token in front of every character that is no digit. -/
theorem decimalText_exact (m : Magnitude) :
    (Literal.decimal (.finite false m)).problem? = none ∧
    ∃ n, Numeral.ofWritten? (Binary64.finite false m).written = some n ∧
      decimalText (.finite false m) = n.positional ∧
      ∃ whole fraction, n.positional = whole ++ '.' :: fraction ∧
        Text.IsDigits whole ∧ Text.IsDigits fraction ∧
        (Numeral.ofDigits whole fraction).value = n.value ∧
        ∀ (k : Cursor) (c : Char) (rest : List Char), c.isDigit = false →
          k.rest = n.positional ++ c :: rest → ∃ t k', Scanner.next k = .ok t k' ∧
            t.kind = .decimal ∧ t.lexeme.toList = n.positional ∧ k'.rest = c :: rest := by
  refine ⟨rfl, ?_⟩
  obtain ⟨n, hread, hsame⟩ := m.numeral.exists_ofWritten?_written
  refine ⟨n, hread, ?_, n.positional_exact⟩
  rcases hsame with rfl | rfl
  · rfl
  · exact (Numeral.positional_withFraction m.numeral_exponent).symm

/-- The least positive number, in front of what would be an exponent. -/
theorem decimalText_exact_least : ∃ m : Magnitude,
    (Binary64.finite false m).written = "5e-324".toList ∧
    decimalText (.finite false m) = '0' :: '.' :: (List.replicate 323 '0' ++ ['5']) ∧
    (∃ whole fraction, decimalText (.finite false m) = whole ++ '.' :: fraction ∧
      (Numeral.ofDigits whole fraction).value = (⟨5, -324⟩ : Numeral).value) ∧
    ∃ t k', Scanner.next (.start (decimalText (.finite false m) ++ ['e', '5']) none) = .ok t k' ∧
      t.kind = .decimal ∧ t.lexeme.toList = decimalText (.finite false m) ∧
      k'.rest = ['e', '5'] := by
  have hwritten : (Binary64.finite false ⟨1, 0, by decide⟩).written = "5e-324".toList := by
    decide +kernel
  have hnumeral : Numeral.ofWritten? "5e-324".toList = some ⟨5, -324⟩ := by decide +kernel
  obtain ⟨-, n, hread, htext, whole, fraction, hparts, -, -, hvalue, hscan⟩ :=
    decimalText_exact ⟨1, 0, by decide⟩
  rw [hwritten, hnumeral] at hread
  cases hread
  rw [← htext] at hparts hscan
  exact ⟨_, hwritten, htext, ⟨whole, fraction, hparts, hvalue⟩, hscan _ 'e' ['5'] rfl rfl⟩

end Layout

end Juxta
