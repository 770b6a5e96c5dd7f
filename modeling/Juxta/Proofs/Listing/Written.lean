/-
  Juxta/Proofs/Listing/Written.lean
  =================================
  **Written values are told apart** — listings and messages show numbers in digits, texts and names
  between quotes and names in brackets.  No two values are shown alike, and none is shown on more
  than one line.

    * `Text.quoteList_append_inj`: a quoted text ends where its quote is closed;
    * `Binary64.ofWritten?_written`: a decimal number is read from its written form;
    * `Literal.written_injective`, `Listing.tuple_injective`.
-/
import Juxta.Editor.Uri
import Juxta.Listing
import Juxta.Proofs.Decimal.ReadBack
import Juxta.Proofs.Layout.Writing
import Mathlib.Algebra.Group.Nat.Defs

namespace Juxta

/-! ### Quoted texts -/

namespace Text

/-- The number that hexadecimal digits stand for. -/
def hexNumber (digits : List Char) : Nat :=
  digits.foldl (fun n c => 16 * n + (Editor.Uri.hexValue? c).getD 0) 0

theorem length_hexDigits (width n : Nat) : (hexDigits width n).length = width := by
  induction width generalizing n with
  | zero => rfl
  | succ width ih => rw [hexDigits, List.length_append, ih, List.length_singleton]

theorem hexNumber_hexDigits {width n : Nat} (h : n < 16 ^ width) :
    hexNumber (hexDigits width n) = n := by
  induction width generalizing n with
  | zero =>
    have hzero : n = 0 := by simpa using h
    rw [hzero]
    rfl
  | succ width ih =>
    have hdigit := Editor.Uri.hexValue?_hexDigit (n % 16) (Nat.mod_lt n (by decide))
    have hfront : hexNumber (hexDigits width (n / 16)) = n / 16 :=
      ih (Nat.div_lt_of_lt_mul (by rwa [Nat.pow_succ, Nat.mul_comm] at h))
    unfold hexNumber at hfront ⊢
    rw [hexDigits, List.foldl_append, hfront, List.foldl_cons, List.foldl_nil, hdigit]
    exact Nat.div_add_mod n 16

/-- The character that stands first in a quoted text, and what is behind it. -/
def readQuoted : List Char → Option (Char × List Char)
  | '\\' :: 'x' :: rest => some (Char.ofNat (hexNumber (rest.take 2)), rest.drop 2)
  | '\\' :: 'u' :: rest => some (Char.ofNat (hexNumber (rest.take 4)), rest.drop 4)
  | '\\' :: 'U' :: rest => some (Char.ofNat (hexNumber (rest.take 8)), rest.drop 8)
  | '\\' :: 't' :: rest => some ('\t', rest)
  | '\\' :: 'n' :: rest => some ('\n', rest)
  | '\\' :: 'r' :: rest => some ('\r', rest)
  | '\\' :: c :: rest => some (c, rest)
  | c :: rest => some (c, rest)
  | [] => none

theorem ofNat_hexNumber_take (width : Nat) {c : Char} (h : c.toNat < 16 ^ width)
    (rest : List Char) :
    Char.ofNat (hexNumber ((hexDigits width c.toNat ++ rest).take width)) = c ∧
      (hexDigits width c.toNat ++ rest).drop width = rest := by
  have hlength := length_hexDigits width c.toNat
  rw [List.take_left' hlength, List.drop_left' hlength, hexNumber_hexDigits h]
  exact ⟨Char.ofNat_toNat c, rfl⟩

theorem readQuoted_codeEscape (c : Char) (rest : List Char) :
    readQuoted (codeEscape c ++ rest) = some (c, rest) := by
  have hbound : c.toNat < 16 ^ 8 := c.val.toNat_lt
  unfold codeEscape
  split
  next h =>
    obtain ⟨hvalue, hrest⟩ := ofNat_hexNumber_take 2 (Nat.lt_succ_of_le h) rest
    rw [List.cons_append, List.cons_append, readQuoted, hvalue, hrest]
  next =>
    split
    next h =>
      obtain ⟨hvalue, hrest⟩ := ofNat_hexNumber_take 4 (Nat.lt_succ_of_le h) rest
      rw [List.cons_append, List.cons_append, readQuoted, hvalue, hrest]
    next =>
      obtain ⟨hvalue, hrest⟩ := ofNat_hexNumber_take 8 hbound rest
      rw [List.cons_append, List.cons_append, readQuoted, hvalue, hrest]

section Mark

variable {mark : Char} (hmark : mark = '\'' ∨ mark = '"')
include hmark

/-- **A character is read from the way it is quoted.** -/
theorem readQuoted_quoteChar (c : Char) (rest : List Char) :
    readQuoted (quoteChar mark c ++ rest) = some (c, rest) := by
  unfold quoteChar
  split
  next h =>
    have hc : c = '\'' ∨ c = '"' ∨ c = '\\' := by
      rcases (Bool.or_eq_true _ _).mp h with h | h
      · rw [of_decide_eq_true h]
        exact hmark.imp_right .inl
      · exact .inr (.inr (of_decide_eq_true h))
    rcases hc with rfl | rfl | rfl <;> rfl
  next h =>
    have hne : c ≠ '\\' := by
      rintro rfl
      exact h (by simp)
    split
    next ht => rw [ht]; rfl
    split
    next hn => rw [hn]; rfl
    split
    next hr => rw [hr]; rfl
    split
    next =>
      rw [List.singleton_append]
      unfold readQuoted
      split <;> simp_all
    next => exact readQuoted_codeEscape c rest

/-- A quote that is written in a text is escaped. -/
theorem quoteChar_append_ne (c : Char) (rest behind : List Char) :
    quoteChar mark c ++ rest ≠ mark :: behind := by
  have hbackslash : '\\' ≠ mark := by rcases hmark with rfl | rfl <;> decide
  unfold quoteChar codeEscape
  split
  · simp [hbackslash]
  next h =>
    have hne : c ≠ mark := by
      rintro rfl
      exact h (by simp)
    repeat' split
    all_goals simp [hbackslash, hne]

theorem flatMap_quoteChar_append_inj {text text' rest rest' : List Char}
    (h : text.flatMap (quoteChar mark) ++ mark :: rest =
      text'.flatMap (quoteChar mark) ++ mark :: rest') : text = text' ∧ rest = rest' := by
  induction text generalizing text' with
  | nil =>
    cases text' with
    | nil => exact ⟨rfl, List.tail_eq_of_cons_eq h⟩
    | cons c' text' =>
      rw [List.flatMap_cons, List.append_assoc] at h
      exact (quoteChar_append_ne hmark _ _ _ h.symm).elim
  | cons c text ih =>
    rw [List.flatMap_cons, List.append_assoc] at h
    cases text' with
    | nil => exact (quoteChar_append_ne hmark _ _ _ h).elim
    | cons c' text' =>
      rw [List.flatMap_cons, List.append_assoc] at h
      have hread := congrArg readQuoted h
      rw [readQuoted_quoteChar hmark, readQuoted_quoteChar hmark, Option.some_inj,
        Prod.mk.injEq] at hread
      obtain ⟨rfl, hbehind⟩ := hread
      obtain ⟨rfl, hrest⟩ := ih hbehind
      exact ⟨rfl, hrest⟩

end Mark

theorem quoteMark_eq_or (text : List Char) : quoteMark text = '\'' ∨ quoteMark text = '"' := by
  unfold quoteMark
  split
  · exact .inr rfl
  · exact .inl rfl

/-- **A quoted text ends where its quote is closed.** -/
theorem quoteList_append_inj {text text' rest rest' : List Char}
    (h : quoteList text ++ rest = quoteList text' ++ rest') : text = text' ∧ rest = rest' := by
  simp only [quoteList, List.cons_append, List.append_assoc, List.nil_append,
    List.cons.injEq] at h
  obtain ⟨hmark, hbody⟩ := h
  rw [← hmark] at hbody
  exact flatMap_quoteChar_append_inj (quoteMark_eq_or text) hbody

theorem quoteList_injective {text text' : List Char} (h : quoteList text = quoteList text') :
    text = text' := by
  have hends : quoteList text ++ [] = quoteList text' ++ [] := by rw [h]
  exact (quoteList_append_inj hends).1

@[simp] theorem toList_quote (name : String) : (quote name).toList = quoteList name.toList :=
  String.toList_ofList

theorem quote_injective {name name' : String} (h : quote name = quote name') : name = name' :=
  String.toList_injective (quoteList_injective (String.ofList_injective h))

/-- **Every line break in a text is escaped.** -/
theorem lineFeed_not_mem_quoteList (text : List Char) : '\n' ∉ quoteList text := by
  have hmark : '\n' ≠ quoteMark text := by
    rcases quoteMark_eq_or text with h | h <;> rw [h] <;> decide
  have hdigits (width n : Nat) : '\n' ∉ hexDigits width n := by
    induction width generalizing n with
    | zero => nofun
    | succ width ih =>
      have hdigit : ∀ k < 16, '\n' ≠ hexDigit k := by decide
      rw [hexDigits, List.mem_append, List.mem_singleton, not_or]
      exact ⟨ih _, hdigit _ (Nat.mod_lt n (by decide))⟩
  have hchar (c : Char) : '\n' ∉ quoteChar (quoteMark text) c := by
    unfold quoteChar codeEscape
    split
    next h =>
      have hne : '\n' ≠ c := by
        rcases (Bool.or_eq_true _ _).mp h with h | h <;> rw [of_decide_eq_true h]
        · exact hmark
        · decide
      simp [hne]
    next =>
      split
      · decide
      split
      · decide
      next hfeed =>
        repeat' split
        all_goals simp [hdigits, Ne.symm hfeed]
  unfold quoteList
  simp only [List.mem_cons, List.mem_append, List.mem_flatMap, List.not_mem_nil, or_false,
    not_or, not_exists, not_and]
  exact ⟨hmark, fun c _ => hchar c, hmark⟩

end Text

/-! ### Decimal numbers -/

namespace Numeral

theorem bne_of_isDigit {a c : Char} (ha : a.isDigit = false) (hc : c.isDigit = true) :
    (c != a) = true := by
  rw [bne_iff_ne]
  rintro rfl
  exact Bool.false_ne_true (ha.symm.trans hc)

/-- The numeral of digits, of which the last may stand behind a point, and of an exponent. -/
theorem ofWritten?_append {whole fraction point : List Char} (hne : whole ≠ [])
    (hwhole : ∀ c ∈ whole, c.isDigit = true) (hfraction : ∀ c ∈ fraction, c.isDigit = true)
    (hpoint : point = '.' :: fraction ∨ point = [] ∧ fraction = []) :
    ofWritten? (whole ++ point) = some (ofDigits whole fraction) ∧
      ∀ exponent, ofWritten? (whole ++ point ++ 'e' :: exponent) =
        (exponentOfText? exponent).map fun e =>
          ⟨(ofDigits whole fraction).coefficient, (ofDigits whole fraction).exponent + e⟩ := by
  have hfront : (whole ++ point).takeWhile (· != '.') = whole := by
    refine Text.takeWhile_append (fun c hc => bne_of_isDigit (by decide) (hwhole c hc)) ?_
    rcases hpoint with rfl | ⟨rfl, -⟩
    · exact Text.stops_cons.mpr (by decide)
    · exact Text.stops_nil _
  have hbehind : (whole ++ point).drop (whole.length + 1) = fraction := by
    rcases hpoint with rfl | ⟨rfl, rfl⟩ <;> simp [List.drop_append]
  have hdigits : (whole.isEmpty || !(whole ++ fraction).all Char.isDigit) = false := by
    have hall : (whole ++ fraction).all Char.isDigit = true :=
      List.all_eq_true.mpr (List.forall_mem_append.mpr ⟨hwhole, hfraction⟩)
    simp [hne, hall]
  have hread (rest : List Char) (hrest : Text.Stops (· != 'e') rest) :
      (whole ++ point ++ rest).takeWhile (· != 'e') = whole ++ point := by
    refine Text.takeWhile_append (List.forall_mem_append.mpr ⟨fun c hc => ?_, ?_⟩) hrest
    · exact bne_of_isDigit (by decide) (hwhole c hc)
    · rcases hpoint with rfl | ⟨rfl, -⟩
      · refine List.forall_mem_cons.mpr ⟨by decide, fun c hc => ?_⟩
        exact bne_of_isDigit (by decide) (hfraction c hc)
      · nofun
  constructor
  · have hmantissa := hread [] (Text.stops_nil _)
    rw [List.append_nil] at hmantissa
    simp only [ofWritten?, hmantissa, hfront, hbehind, hdigits, List.drop_length,
      Bool.false_eq_true, if_false]
  · intro exponent
    have hmantissa := hread ('e' :: exponent) (Text.stops_cons.mpr (by decide))
    simp only [ofWritten?, hmantissa, hfront, hbehind, hdigits, List.drop_left,
      Bool.false_eq_true, if_false]

theorem exponentOfText?_exponentText (e : Int) : exponentOfText? (exponentText e) = some e := by
  have hdigits : ∀ c ∈ Nat.toDigits 10 e.natAbs, c.isDigit = true := fun c hc =>
    Nat.isDigit_of_mem_toDigits (by decide) (by decide) hc
  have hany : (Nat.toDigits 10 e.natAbs).any (!·.isDigit) = false := by
    rw [List.any_eq_false]
    exact fun c hc => by simp [hdigits c hc]
  have hvalue : Nat.ofDigitChars 10 (Nat.toDigits 10 e.natAbs) 0 = e.natAbs :=
    Nat.ofDigitChars_ten_toDigits
  have hzero : Nat.ofDigitChars 10 ('0' :: Nat.toDigits 10 e.natAbs) 0 = e.natAbs := hvalue
  have hne : Nat.toDigits 10 e.natAbs ≠ [] := Nat.toDigits_ne_nil
  obtain ⟨padded, htext, hnatural⟩ : ∃ padded,
      exponentText e = (if e < 0 then '-' else '+') :: padded ∧
        exponentOfText?.natural padded = some e.natAbs := by
    refine ⟨_, rfl, ?_⟩
    unfold exponentOfText?.natural
    split <;> simp [hne, hany, hvalue, hzero]
  rw [htext]
  split
  next hnegative =>
    have hsign : -(e.natAbs : Int) = e := by omega
    rw [exponentOfText?, hnatural]
    exact congrArg some hsign
  next hnegative =>
    have hsign : (e.natAbs : Int) = e := by omega
    rw [exponentOfText?, hnatural]
    exact congrArg some hsign

/-- **A numeral is read from its written form**, up to zeros at its ends. -/
theorem exists_ofWritten?_written (n : Numeral) :
    ∃ n', ofWritten? n.written = some n' ∧ (n' = n ∨ n' = n.withFraction) := by
  unfold written
  split
  · obtain ⟨whole, fraction, htext, hne, -, hwhole, hfraction, hsame⟩ := n.exists_positional
    obtain ⟨hread, -⟩ := ofWritten?_append hne hwhole hfraction (.inl rfl)
    exact ⟨_, htext ▸ hread, .inr hsame⟩
  · refine ⟨n, ?_, .inl rfl⟩
    have hexponent := exponentOfText?_exponentText (n.point - 1)
    have hdigits : ∀ c ∈ n.digits, c.isDigit = true := fun c => isDigit_of_mem_digits
    have hcoefficient : Nat.ofDigitChars 10 n.digits 0 = n.coefficient :=
      Nat.ofDigitChars_ten_toDigits
    have hpoint : n.point = n.digits.length + n.exponent := rfl
    -- The exponent counts from behind the first digit, whether or not a point stands there.
    have hread (d : Char) (others point : List Char) (heq : n.digits = d :: others)
        (hform : point = '.' :: others ∨ point = [] ∧ others = []) :
        ofWritten? ([d] ++ point ++ 'e' :: exponentText (n.point - 1)) = some n := by
      rw [heq] at hdigits hcoefficient hpoint
      obtain ⟨hd, hothers⟩ := List.forall_mem_cons.mp hdigits
      obtain ⟨-, hscientific⟩ := ofWritten?_append (List.cons_ne_nil d [])
        (List.forall_mem_singleton.mpr hd) hothers hform
      have hsum : -(others.length : Int) + (n.point - 1) = n.exponent := by
        rw [hpoint, List.length_cons]
        omega
      have hvalue : Nat.ofDigitChars 10 ([d] ++ others) 0 = n.coefficient := hcoefficient
      simp only [hscientific, hexponent, Option.map_some, ofDigits, hvalue, hsum]
    unfold scientific
    split
    next heq => exact absurd heq Nat.toDigits_ne_nil
    next d heq => exact hread d [] [] heq (.inr ⟨rfl, rfl⟩)
    next d others _ heq => exact hread d others ('.' :: others) heq (.inl rfl)

/-- The written form of a numeral begins with a digit and is not made of digits alone. -/
theorem exists_written (n : Numeral) :
    (∃ d rest, n.written = d :: rest ∧ d.isDigit = true) ∧ ∃ c ∈ n.written, c = '.' ∨ c = 'e' := by
  unfold written
  split
  · obtain ⟨whole, fraction, htext, hne, -, hwhole, -, -⟩ := n.exists_positional
    rw [htext]
    refine ⟨?_, '.', by simp, .inl rfl⟩
    obtain ⟨d, whole', rfl⟩ := List.exists_cons_of_ne_nil hne
    exact ⟨d, _, rfl, hwhole d List.mem_cons_self⟩
  · unfold scientific
    have hdigits : ∀ c ∈ n.digits, c.isDigit = true := fun c => isDigit_of_mem_digits
    split
    next heq => exact absurd heq Nat.toDigits_ne_nil
    next d heq =>
      rw [heq] at hdigits
      exact ⟨⟨d, _, rfl, hdigits d List.mem_cons_self⟩, 'e', by simp, .inr rfl⟩
    next d others _ heq =>
      rw [heq] at hdigits
      exact ⟨⟨d, _, rfl, hdigits d List.mem_cons_self⟩, '.', by simp, .inl rfl⟩

theorem lineFeed_not_mem_digits {digits : List Char} (h : ∀ c ∈ digits, c.isDigit = true) :
    '\n' ∉ digits := fun hmem => bne_iff_ne.mp (bne_of_isDigit (by decide) (h _ hmem)) rfl

theorem lineFeed_not_mem_written (n : Numeral) : '\n' ∉ n.written := by
  unfold written
  split
  · obtain ⟨whole, fraction, htext, -, -, hwhole, hfraction, -⟩ := n.exists_positional
    rw [htext]
    simp [lineFeed_not_mem_digits hwhole, lineFeed_not_mem_digits hfraction]
  · have hdigits : '\n' ∉ n.digits := lineFeed_not_mem_digits fun c => isDigit_of_mem_digits
    have hexponent : '\n' ∉ exponentText (n.point - 1) := by
      have hplaces : '\n' ∉ Nat.toDigits 10 (n.point - 1).natAbs :=
        lineFeed_not_mem_digits fun c hc => Nat.isDigit_of_mem_toDigits (by decide) (by decide) hc
      unfold exponentText
      dsimp only
      split <;> split <;> simp [hplaces]
    unfold scientific
    split <;> simp_all

end Numeral

namespace Binary64

theorem ofRatio_eq_finite_iff {negative : Bool} {num den : Nat} {m : Magnitude} :
    ofRatio negative num den = .finite negative m ↔ ofRatio false num den = .finite false m := by
  unfold ofRatio ofForm
  dsimp only
  split <;> split <;> simp

theorem toBinary64_eq_finite_iff {negative : Bool} {n : Numeral} {m : Magnitude} :
    n.toBinary64 negative = .finite negative m ↔ n.toBinary64 false = .finite false m := by
  unfold Numeral.toBinary64
  split <;> exact ofRatio_eq_finite_iff

/-- **A decimal number is read from its written form.** -/
theorem ofWritten?_written (x : Binary64) : ofWritten? x.written = some x := by
  cases x with
  | nan => rfl
  | infinity negative => cases negative <;> rfl
  | finite negative m =>
    obtain ⟨n, hread, hsame⟩ := m.numeral.exists_ofWritten?_written
    obtain ⟨⟨d, rest, htext, hd⟩, -⟩ := m.numeral.exists_written
    have hunsigned : ofUnsigned? negative m.numeral.written = some (.finite negative m) := by
      have hinf : m.numeral.written ≠ ['i', 'n', 'f'] := by
        rw [htext]
        rintro ⟨⟩
        cases hd
      have hvalue : m.numeral.toBinary64 negative = .finite negative m :=
        toBinary64_eq_finite_iff.mpr m.toBinary64_numeral
      have hread' : n.toBinary64 negative = .finite negative m := by
        rcases hsame with rfl | rfl
        · exact hvalue
        · rw [Numeral.toBinary64_withFraction, hvalue]
      rw [ofUnsigned?, if_neg hinf, hread, Option.map_some, hread']
    cases negative with
    | true => exact hunsigned
    | false =>
      change ofWritten? m.numeral.written = _
      have hnan : m.numeral.written ≠ ['n', 'a', 'n'] := by
        rw [htext]
        rintro ⟨⟩
        cases hd
      have hsign (digits : List Char) (hminus : m.numeral.written = '-' :: digits) : False := by
        rw [htext, List.cons.injEq] at hminus
        rw [hminus.1] at hd
        cases hd
      rw [ofWritten?, if_neg hnan]
      · exact hunsigned
      · exact hsign

theorem written_injective {x y : Binary64} (h : x.written = y.written) : x = y := by
  have hread := congrArg ofWritten? h
  rwa [ofWritten?_written, ofWritten?_written, Option.some_inj] at hread

/-- The written form of a number begins with a digit, a sign or a small letter, and not all of it
    are digits and signs. -/
theorem exists_written (x : Binary64) :
    (∃ c rest, x.written = c :: rest ∧ (c.isDigit = true ∨ c ∈ ['-', 'i', 'n'])) ∧
      ∃ c ∈ x.written, c ∈ ['.', 'e', 'n'] := by
  cases x with
  | nan => exact ⟨⟨'n', _, rfl, .inr (by decide)⟩, 'n', by decide, by decide⟩
  | infinity negative =>
    cases negative with
    | true => exact ⟨⟨'-', _, rfl, .inr (by decide)⟩, 'n', by decide, by decide⟩
    | false => exact ⟨⟨'i', _, rfl, .inr (by decide)⟩, 'n', by decide, by decide⟩
  | finite negative m =>
    obtain ⟨⟨d, rest, htext, hd⟩, c, hc, hmark⟩ := m.numeral.exists_written
    have hmark' : c ∈ ['.', 'e', 'n'] := by rcases hmark with rfl | rfl <;> decide
    refine ⟨?_, c, List.mem_append_right _ hc, hmark'⟩
    cases negative with
    | true => exact ⟨'-', _, rfl, .inr (by decide)⟩
    | false => exact ⟨d, rest, htext, .inl hd⟩

theorem lineFeed_not_mem_written (x : Binary64) : '\n' ∉ x.written := by
  cases x with
  | nan => decide
  | infinity negative => cases negative <;> decide
  | finite negative m => cases negative <;> simp [written, m.numeral.lineFeed_not_mem_written]

end Binary64

/-! ### Literals -/

namespace Literal

/-- What a literal is. -/
def kind : Literal → Kind
  | .integer _ => .integer
  | .decimal _ => .decimal
  | .text _ => .string
  | .truth _ => .symbol

/-- Whether a character is one of whole numbers. -/
def isIntegerChar (c : Char) : Bool := c.isDigit || c == '-'

/-- What the literal is that is written so. -/
def kindOfWritten (text : List Char) : Kind :=
  match text.head? with
  | some '\'' | some '"' => .string
  | some 'T' | some 'F' => .symbol
  | _ => if text.all isIntegerChar then .integer else .decimal

theorem toList_repr (n : Int) :
    n.repr.toList = (if n < 0 then ['-'] else []) ++ Nat.toDigits 10 n.natAbs := by
  rw [Int.repr_eq_if]
  by_cases hsign : 0 ≤ n
  · have habs : n.toNat = n.natAbs := by omega
    rw [if_pos hsign, if_neg (Int.not_lt.mpr hsign), Nat.toList_repr, habs, List.nil_append]
  · have habs : (-n).toNat = n.natAbs := by omega
    rw [if_neg hsign, if_pos (Int.not_le.mp hsign), String.toList_append, Nat.toList_repr, habs]
    rfl

theorem minus_mem_repr_iff {n : Int} : '-' ∈ n.repr.toList ↔ n < 0 := by
  have hdigits : '-' ∉ Nat.toDigits 10 n.natAbs := fun hmem =>
    absurd (Nat.isDigit_of_mem_toDigits (by decide) (by decide) hmem) (by decide)
  rw [toList_repr, List.mem_append]
  split <;> simp [*]

theorem eq_of_repr_eq {n m : Int} (h : n.repr = m.repr) : n = m := by
  have hsign : n < 0 ↔ m < 0 := by rw [← minus_mem_repr_iff, h, minus_mem_repr_iff]
  have htext := congrArg String.toList h
  simp only [toList_repr, hsign, List.append_cancel_left_eq] at htext
  have hvalue := congrArg (fun digits => Nat.ofDigitChars 10 digits 0) htext
  simp only [Nat.ofDigitChars_ten_toDigits] at hvalue
  omega

theorem isIntegerChar_of_mem_repr {n : Int} {c : Char} (h : c ∈ n.repr.toList) :
    isIntegerChar c = true := by
  rw [toList_repr, List.mem_append] at h
  unfold isIntegerChar
  rcases h with hsign | hdigit
  · split at hsign
    · rw [List.mem_singleton.mp hsign]
      rfl
    · cases hsign
  · rw [Nat.isDigit_of_mem_toDigits (by decide) (by decide) hdigit]
    rfl

theorem kindOfWritten_of_head {c : Char} {rest : List Char} (h : c ∉ ['\'', '"', 'T', 'F']) :
    kindOfWritten (c :: rest) =
      if (c :: rest).all isIntegerChar then .integer else .decimal := by
  simp only [List.mem_cons, List.not_mem_nil, or_false, not_or] at h
  obtain ⟨hsingle, hdouble, ht, hf⟩ := h
  unfold kindOfWritten
  split <;> simp_all

/-- **The written form of a literal tells what it is.** -/
theorem kindOfWritten_written (v : Literal) : kindOfWritten v.written.toList = v.kind := by
  have hplain (c : Char) (h : c.isDigit = true ∨ c ∈ ['-', 'i', 'n']) :
      c ∉ ['\'', '"', 'T', 'F'] := by
    rcases h with hdigit | hletter
    · intro hmem
      have hall : ∀ c ∈ ['\'', '"', 'T', 'F'], c.isDigit = false := by simp
      exact Bool.false_ne_true ((hall c hmem).symm.trans hdigit)
    · have hall : ∀ c ∈ ['-', 'i', 'n'], c ∉ ['\'', '"', 'T', 'F'] := by simp
      exact hall c hletter
  cases v with
  | integer n =>
    change kindOfWritten n.repr.toList = .integer
    have hall : n.repr.toList.all isIntegerChar = true :=
      List.all_eq_true.mpr fun c hc => isIntegerChar_of_mem_repr hc
    cases htext : n.repr.toList with
    | nil =>
      rw [htext] at hall
      rfl
    | cons c rest =>
      rw [htext] at hall
      have hc : isIntegerChar c = true := List.all_eq_true.mp hall c List.mem_cons_self
      have hhead : c.isDigit = true ∨ c ∈ ['-', 'i', 'n'] := by
        rcases (Bool.or_eq_true _ _).mp hc with hdigit | hsign
        · exact .inl hdigit
        · rw [beq_iff_eq.mp hsign]
          exact .inr (by decide)
      rw [kindOfWritten_of_head (hplain c hhead), if_pos hall]
  | decimal x =>
    change kindOfWritten (String.ofList x.written).toList = .decimal
    obtain ⟨⟨c, rest, htext, hhead⟩, d, hd, hmark⟩ := x.exists_written
    rw [String.toList_ofList]
    have hall : x.written.all isIntegerChar = false := by
      have hnot : ∀ d ∈ ['.', 'e', 'n'], isIntegerChar d = false := by simp [isIntegerChar]
      exact List.all_eq_false.mpr ⟨d, hd, by simp [hnot d hmark]⟩
    rw [htext] at hall ⊢
    rw [kindOfWritten_of_head (hplain c hhead), hall]
    rfl
  | text s =>
    change kindOfWritten (Text.quote s).toList = .string
    rw [Text.toList_quote, Text.quoteList]
    rcases Text.quoteMark_eq_or s.toList with h | h <;> rw [h] <;> rfl
  | truth b => cases b <;> rfl

/-- **No two literals are written alike.** -/
theorem written_injective {v w : Literal} (h : v.written = w.written) : v = w := by
  have hkind : v.kind = w.kind := by
    rw [← kindOfWritten_written v, h, kindOfWritten_written]
  cases v with
  | integer n =>
    cases w with
    | integer m => exact congrArg integer (eq_of_repr_eq h)
    | _ => cases hkind
  | decimal x =>
    cases w with
    | decimal y => exact congrArg decimal (Binary64.written_injective (String.ofList_injective h))
    | _ => cases hkind
  | text s =>
    cases w with
    | text s' => exact congrArg text (Text.quote_injective h)
    | _ => cases hkind
  | truth b =>
    cases w with
    | truth b' => cases b <;> cases b' <;> first | rfl | exact absurd h (by decide)
    | _ => cases hkind

theorem lineFeed_not_mem_written (v : Literal) : '\n' ∉ v.written.toList := by
  cases v with
  | integer n => exact fun hmem => absurd (isIntegerChar_of_mem_repr hmem) (by decide)
  | decimal x =>
    rw [written, String.toList_ofList]
    exact x.lineFeed_not_mem_written
  | text s =>
    rw [written, Text.toList_quote]
    exact Text.lineFeed_not_mem_quoteList s.toList
  | truth b => cases b <;> decide

end Literal

/-! ### Names in brackets -/

namespace Listing

/-- What stands behind a name in brackets if names follow it, and the closing bracket. -/
def moreNames (names : List (List Char)) : List Char :=
  names.flatMap (fun name => ',' :: ' ' :: Text.quoteList name) ++ [')']

/-- What stands behind the first name in brackets. -/
def behindFirst : List (List Char) → List Char
  | [] => [',', ')']
  | names => moreNames names

/-- The text of names in brackets. -/
def tupleList : List (List Char) → List Char
  | [] => ['(', ')']
  | name :: names => '(' :: (Text.quoteList name ++ behindFirst names)

theorem toList_tuple (names : List String) :
    (tuple names).toList = tupleList (names.map String.toList) := by
  match names with
  | [] => rfl
  | [name] => simp [tuple, tupleList, behindFirst]
  | name :: other :: names =>
    simp [tuple, tupleList, behindFirst, moreNames, String.toList_intercalate,
      Layout.intercalate_cons, List.flatMap_map]

theorem moreNames_injective {names names' : List (List Char)}
    (h : moreNames names = moreNames names') : names = names' := by
  induction names generalizing names' with
  | nil =>
    cases names' with
    | nil => rfl
    | cons name' names' => cases h
  | cons name names ih =>
    cases names' with
    | nil => cases h
    | cons name' names' =>
      simp only [moreNames, List.flatMap_cons, List.cons_append, List.append_assoc,
        List.cons.injEq, true_and] at h
      obtain ⟨rfl, hrest⟩ := Text.quoteList_append_inj h
      rw [ih hrest]

theorem behindFirst_injective {names names' : List (List Char)}
    (h : behindFirst names = behindFirst names') : names = names' := by
  cases names with
  | nil =>
    cases names' with
    | nil => rfl
    | cons name' names' => cases h
  | cons name names =>
    cases names' with
    | nil => cases h
    | cons name' names' => exact moreNames_injective h

theorem quoteList_ne_bracket (name rest : List Char) : Text.quoteList name ++ rest ≠ [')'] := by
  intro h
  have hmark : Text.quoteMark name = ')' := (List.cons.inj h).1
  rcases Text.quoteMark_eq_or name with hquote | hquote <;> rw [hquote] at hmark <;> cases hmark

/-- **No two sequences of names are shown alike.** -/
theorem tupleList_injective {names names' : List (List Char)}
    (h : tupleList names = tupleList names') : names = names' := by
  cases names with
  | nil =>
    cases names' with
    | nil => rfl
    | cons name' names' => exact (quoteList_ne_bracket _ _ (List.cons.inj h).2.symm).elim
  | cons name names =>
    cases names' with
    | nil => exact (quoteList_ne_bracket _ _ (List.cons.inj h).2).elim
    | cons name' names' =>
      obtain ⟨rfl, hrest⟩ := Text.quoteList_append_inj (List.cons.inj h).2
      rw [behindFirst_injective hrest]

theorem tuple_injective {names names' : List String} (h : tuple names = tuple names') :
    names = names' := by
  have htext := congrArg String.toList h
  rw [toList_tuple, toList_tuple] at htext
  exact List.map_injective_iff.mpr (fun _ _ => String.toList_injective) (tupleList_injective htext)

theorem lineFeed_not_mem_tuple (names : List String) : '\n' ∉ (tuple names).toList := by
  have hmore (names : List (List Char)) : '\n' ∉ moreNames names := by
    simp [moreNames, Text.lineFeed_not_mem_quoteList]
  rw [toList_tuple]
  match names with
  | [] => decide
  | [name] => simp [tupleList, behindFirst, Text.lineFeed_not_mem_quoteList]
  | name :: other :: names =>
    simp [tupleList, behindFirst, Text.lineFeed_not_mem_quoteList, hmore]

theorem lineFeed_not_mem_quote (name : String) : '\n' ∉ (Text.quote name).toList := by
  rw [Text.toList_quote]
  exact Text.lineFeed_not_mem_quoteList name.toList

theorem optionalName_injective {name name' : Option String}
    (h : optionalName name = optionalName name') : name = name' := by
  have hnone (name : String) : Text.quote name ≠ "None" := by
    intro h
    have htext := congrArg String.toList h
    rw [Text.toList_quote] at htext
    have hmark : Text.quoteMark name.toList = 'N' := (List.cons.inj htext).1
    rcases Text.quoteMark_eq_or name.toList with hquote | hquote <;> rw [hquote] at hmark <;>
      cases hmark
  cases name with
  | none =>
    cases name' with
    | none => rfl
    | some name' => exact (hnone name' (Content.value.inj h).symm).elim
  | some name =>
    cases name' with
    | none => exact (hnone name (Content.value.inj h)).elim
    | some name' => exact congrArg some (Text.quote_injective (Content.value.inj h))

end Listing

end Juxta
