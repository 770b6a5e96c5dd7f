/-
  Juxta/Proofs/Text/Units.lean
  ============================
  **Texts as UTF-16 code units** — what stands between two UTF-16 columns of a line are code
  units, not characters, and a column may fall between the two units of one character.

    * `utf16` encodes a text, with as many units as `width16` counts (`length_utf16`), and
      `decode16` reads what it writes and nothing else (`decode16_eq_some_iff`);
    * `slice16` cuts a line between two columns; between those of two characters it leaves the
      code units of what stands there (`slice16_append`);
    * `column16_exact`: the columns of characters are the places that cut no surrogate pair, they
      stand in the order of the characters, and `index16` finds the way back from them.
-/
import Juxta.Text.Units

namespace Juxta.Text

/-- The UTF-16 code units of a character: its code point, or a surrogate pair. -/
def encode16 (c : Char) : List Nat :=
  if c.toNat < 0x10000 then [c.toNat]
  else [0xD800 + (c.toNat - 0x10000) / 0x400, 0xDC00 + (c.toNat - 0x10000) % 0x400]

/-- The UTF-16 code units of a text. -/
def utf16 (text : List Char) : List Nat := text.flatMap encode16

/-- The code units of a line from one column on and up to another. -/
def slice16 (line : List Char) (start stop : Nat) : List Nat := ((utf16 line).take stop).drop start

@[simp] theorem length_encode16 (c : Char) : (encode16 c).length = units16 c := by
  unfold encode16 units16
  split <;> rfl

@[simp] theorem utf16_nil : utf16 [] = [] := rfl

@[simp] theorem utf16_cons (c : Char) (text : List Char) :
    utf16 (c :: text) = encode16 c ++ utf16 text := rfl

@[simp] theorem utf16_append (text more : List Char) :
    utf16 (text ++ more) = utf16 text ++ utf16 more := List.flatMap_append

theorem length_utf16 (text : List Char) : (utf16 text).length = width16 text := by
  induction text with
  | nil => rfl
  | cons c text ih => rw [utf16_cons, List.length_append, length_encode16, ih, width16_cons]

theorem length_le_width16 (text : List Char) : text.length ≤ width16 text := by
  induction text with
  | nil => exact Nat.le_refl 0
  | cons c text ih =>
    have hpos := units16_pos c
    rw [List.length_cons, width16_cons]
    omega

/-- Characters are as many as their code units unless one of them takes two. -/
theorem length_eq_width16_iff {text : List Char} :
    text.length = width16 text ↔ ∀ c ∈ text, c.toNat < 0x10000 := by
  induction text with
  | nil => exact iff_of_true rfl nofun
  | cons c text ih =>
    have hle := length_le_width16 text
    rw [List.forall_mem_cons, ← ih, List.length_cons, width16_cons, units16]
    split <;> omega

/-- The first code unit tells whether a second one belongs to it, and both together which
    character they are. -/
theorem encode16_append_inj {c d : Char} {rest rest' : List Nat}
    (h : encode16 c ++ rest = encode16 d ++ rest') : c = d ∧ rest = rest' := by
  have hc : c.toNat < 0xD800 ∨ 0xDFFF < c.toNat ∧ c.toNat < 0x110000 := c.valid
  have hd : d.toNat < 0xD800 ∨ 0xDFFF < d.toNat ∧ d.toNat < 0x110000 := d.valid
  unfold encode16 at h
  split at h <;> split at h
  · obtain ⟨hfirst, hrest⟩ := List.cons.inj h
    exact ⟨Char.toNat_inj.mp hfirst, hrest⟩
  · obtain ⟨hfirst, -⟩ := List.cons.inj h
    omega
  · obtain ⟨hfirst, -⟩ := List.cons.inj h
    omega
  · obtain ⟨hfirst, hlater⟩ := List.cons.inj h
    obtain ⟨hsecond, hrest⟩ := List.cons.inj hlater
    have hcode : c.toNat = d.toNat := by omega
    exact ⟨Char.toNat_inj.mp hcode, hrest⟩

/-! ### Reading code units -/

/-- The text that code units encode.  Two surrogates are one character; a surrogate without its
    other half encodes nothing. -/
def decode16 : List Nat → Option (List Char)
  | [] => some []
  | u :: units =>
    if u < 0xD800 ∨ 0xDFFF < u ∧ u < 0x10000 then (decode16 units).map (Char.ofNat u :: ·)
    else match units with
      | [] => none
      | v :: units =>
        if u < 0xDC00 ∧ 0xDC00 ≤ v ∧ v < 0xE000 then
          (decode16 units).map (Char.ofNat (0x10000 + (u - 0xD800) * 0x400 + (v - 0xDC00)) :: ·)
        else none

theorem decode16_encode16_append (c : Char) (units : List Nat) :
    decode16 (encode16 c ++ units) = (decode16 units).map (c :: ·) := by
  have hc : c.toNat < 0xD800 ∨ 0xDFFF < c.toNat ∧ c.toNat < 0x110000 := c.valid
  unfold encode16
  split
  · have hsingle : c.toNat < 0xD800 ∨ 0xDFFF < c.toNat ∧ c.toNat < 0x10000 := by omega
    rw [List.singleton_append, decode16.eq_def]
    dsimp only
    rw [if_pos hsingle, Char.ofNat_toNat]
  · have hfirst : ¬ (0xD800 + (c.toNat - 0x10000) / 0x400 < 0xD800 ∨
        0xDFFF < 0xD800 + (c.toNat - 0x10000) / 0x400 ∧
          0xD800 + (c.toNat - 0x10000) / 0x400 < 0x10000) := by omega
    have hpair : 0xD800 + (c.toNat - 0x10000) / 0x400 < 0xDC00 ∧
        0xDC00 ≤ 0xDC00 + (c.toNat - 0x10000) % 0x400 ∧
          0xDC00 + (c.toNat - 0x10000) % 0x400 < 0xE000 := by omega
    have hcode : 0x10000 + (0xD800 + (c.toNat - 0x10000) / 0x400 - 0xD800) * 0x400 +
        (0xDC00 + (c.toNat - 0x10000) % 0x400 - 0xDC00) = c.toNat := by omega
    rw [List.cons_append, List.singleton_append, decode16, if_neg hfirst, if_pos hpair, hcode,
      Char.ofNat_toNat]

/-- A code point is that of its character. -/
theorem toNat_ofNat {n : Nat} (h : n.isValidChar) : (Char.ofNat n).toNat = n := by
  rw [Char.ofNat, dif_pos h]
  rfl

theorem eq_utf16_of_decode16 {units : List Nat} {text : List Char}
    (h : decode16 units = some text) : units = utf16 text := by
  fun_induction decode16 units generalizing text with
  | case1 =>
    cases h
    rfl
  | case2 u units hsingle ih =>
    obtain ⟨later, hlater, rfl⟩ := Option.map_eq_some_iff.mp h
    have hvalid : u.isValidChar := by
      unfold Nat.isValidChar
      omega
    rw [utf16_cons, encode16, toNat_ofNat hvalid, if_pos (by omega), ← ih hlater,
      List.singleton_append]
  | case3 => cases h
  | case4 u hsurrogate v units hpair ih =>
    obtain ⟨later, hlater, rfl⟩ := Option.map_eq_some_iff.mp h
    generalize hn : 0x10000 + (u - 0xD800) * 0x400 + (v - 0xDC00) = n
    have hvalid : n.isValidChar := by
      unfold Nat.isValidChar
      omega
    have hfirst : 0xD800 + (n - 0x10000) / 0x400 = u := by omega
    have hsecond : 0xDC00 + (n - 0x10000) % 0x400 = v := by omega
    rw [utf16_cons, encode16, toNat_ofNat hvalid, if_neg (by omega), hfirst, hsecond, ← ih hlater,
      List.cons_append, List.singleton_append]
  | case5 => cases h

/-- **Reading accepts exactly what encoding produces.** -/
theorem decode16_eq_some_iff {units : List Nat} {text : List Char} :
    decode16 units = some text ↔ units = utf16 text := by
  constructor
  · exact eq_utf16_of_decode16
  · rintro rfl
    induction text with
    | nil => rfl
    | cons c text ih => rw [utf16_cons, decode16_encode16_append, ih, Option.map_some]

theorem utf16_injective {text text' : List Char} (h : utf16 text = utf16 text') :
    text = text' := by
  have htext : decode16 (utf16 text) = some text := decode16_eq_some_iff.mpr rfl
  have htext' : decode16 (utf16 text) = some text' := decode16_eq_some_iff.mpr h
  exact Option.some.inj (htext.symm.trans htext')

/-- Code units with which those of a line begin are those of characters with which it begins. -/
theorem prefix_of_utf16_append {text line : List Char} {units : List Nat}
    (h : utf16 text ++ units = utf16 line) : text <+: line := by
  induction text generalizing line with
  | nil => exact List.nil_prefix
  | cons c text ih =>
    cases line with
    | nil =>
      have hlength := congrArg List.length h
      have hpos := units16_pos c
      rw [utf16_cons, List.append_assoc, List.length_append, length_encode16, utf16_nil,
        List.length_nil] at hlength
      omega
    | cons d line =>
      rw [utf16_cons, utf16_cons, List.append_assoc] at h
      obtain ⟨rfl, hlater⟩ := encode16_append_inj h
      exact List.cons_prefix_cons.mpr ⟨rfl, ih hlater⟩

/-! ### Columns -/

/-- Between the columns of two characters stands what is between the characters. -/
theorem slice16_append (before part after : List Char) :
    slice16 (before ++ part ++ after) (width16 before) (width16 before + width16 part) =
      utf16 part := by
  have hstop : width16 before + width16 part = (utf16 (before ++ part)).length := by
    rw [length_utf16, width16_append]
  rw [slice16, hstop, utf16_append _ after, List.take_left, utf16_append, ← length_utf16,
    List.drop_left]

/-- The column behind some characters of a line is as wide as they are. -/
theorem column16_append (before after : List Char) :
    column16 (before ++ after) before.length = width16 before := by
  rw [column16, List.take_left, List.length_append]
  omega

section Columns

variable {line : List Char} {i j : Nat}

@[simp] theorem column16_zero (line : List Char) : column16 line 0 = 0 := by
  rw [column16, List.take_zero, width16_nil, Nat.zero_sub]

@[simp] theorem column16_nil (i : Nat) : column16 [] i = i := by
  rw [column16, List.take_nil, width16_nil, List.length_nil, Nat.zero_add, Nat.sub_zero]

@[simp] theorem column16_cons_succ (c : Char) (line : List Char) (i : Nat) :
    column16 (c :: line) (i + 1) = units16 c + column16 line i := by
  rw [column16, column16, List.take_succ_cons, width16_cons, List.length_cons, Nat.add_assoc,
    Nat.add_sub_add_right]

/-- A character further to the right has a greater column, on the line and past its end. -/
theorem column16_lt_column16 (h : i < j) : column16 line i < column16 line j := by
  induction line generalizing i j with
  | nil => rwa [column16_nil, column16_nil]
  | cons c line ih =>
    obtain ⟨j, rfl⟩ : ∃ k, j = k + 1 := ⟨j - 1, by omega⟩
    rw [column16_cons_succ]
    cases i with
    | zero =>
      have hpos := units16_pos c
      rw [column16_zero]
      omega
    | succ i =>
      have hlater := ih (Nat.lt_of_succ_lt_succ h)
      rw [column16_cons_succ]
      omega

/-- On the line, a column is the width of what stands in front of it. -/
theorem column16_of_le (h : i ≤ line.length) : column16 line i = width16 (line.take i) := by
  rw [column16, Nat.sub_eq_zero_of_le h, Nat.add_zero]

/-- Past the end of the line, columns go on unit by unit. -/
theorem column16_of_length_le (h : line.length ≤ i) :
    column16 line i = width16 line + (i - line.length) := by
  rw [column16, List.take_of_length_le h]

/-- In front of a column stand the code units of the characters in front of it. -/
theorem take_utf16_column16 (h : i ≤ line.length) :
    (utf16 line).take (column16 line i) = utf16 (line.take i) := by
  have hline : utf16 line = utf16 (line.take i) ++ utf16 (line.drop i) := by
    rw [← utf16_append, List.take_append_drop]
  rw [column16_of_le h, hline, ← length_utf16, List.take_left]

/-- The code units in front of a place encode a text only if a character ends there. -/
theorem exists_column16_of_decode16 {n : Nat} {text : List Char} (hn : n ≤ width16 line)
    (h : decode16 ((utf16 line).take n) = some text) : ∃ i ≤ line.length, n = column16 line i := by
  have hunits := decode16_eq_some_iff.mp h
  have hsplit : utf16 text ++ (utf16 line).drop n = utf16 line := by
    rw [← hunits, List.take_append_drop]
  have hprefix := prefix_of_utf16_append hsplit
  refine ⟨text.length, hprefix.length_le, ?_⟩
  rw [column16_of_le hprefix.length_le, ← List.prefix_iff_eq_take.mp hprefix, ← length_utf16,
    ← hunits, List.length_take, length_utf16, Nat.min_eq_left hn]

/-- The index of the character that begins at a UTF-16 column of a line, or past its end. -/
def index16 (line : List Char) (column : Nat) : Nat :=
  charColumn line column + (column - width16 line)

theorem charColumn_of_width16_le {column : Nat} (h : width16 line ≤ column) :
    charColumn line column = line.length := by
  induction line generalizing column with
  | nil => rfl
  | cons c line ih =>
    have hpos := units16_pos c
    rw [width16_cons] at h
    obtain ⟨n, rfl⟩ : ∃ n, column = n + 1 := ⟨column - 1, by omega⟩
    rw [charColumn, ih (by omega), List.length_cons]

theorem index16_column16 (line : List Char) (i : Nat) : index16 line (column16 line i) = i := by
  unfold index16
  rcases Nat.le_total i line.length with h | h
  · have hwidth : width16 line = width16 (line.take i) + width16 (line.drop i) := by
      rw [← width16_append, List.take_append_drop]
    rw [column16_of_le h, charColumn_width16 line i h]
    omega
  · rw [column16_of_length_le h, charColumn_of_width16_le (Nat.le_add_right _ _)]
    omega

/-- **Columns change their unit exactly and in order.**  Of two characters the one further to the
    right has the greater column, on the line and past its end, where each one more takes one unit
    more.  In front of the column of a character stand the code units of the characters in front
    of it; at every other place on the line they encode nothing, because it cuts a surrogate pair.
    So the index can be told from the column. -/
theorem column16_exact (line : List Char) :
    (∀ i j, i < j → column16 line i < column16 line j) ∧
    (∀ i ≤ line.length, decode16 ((utf16 line).take (column16 line i)) = some (line.take i)) ∧
    (∀ n ≤ width16 line, ∀ text, decode16 ((utf16 line).take n) = some text →
      ∃ i ≤ line.length, n = column16 line i) ∧
    (∀ i ≥ line.length, column16 line (i + 1) = column16 line i + 1) ∧
    ∀ i, index16 line (column16 line i) = i := by
  refine ⟨fun i j => column16_lt_column16, fun i hi => ?_,
    fun n hn text => exists_column16_of_decode16 hn, fun i hi => ?_, index16_column16 line⟩
  · rw [decode16_eq_some_iff, take_utf16_column16 hi]
  · rw [column16_of_length_le hi, column16_of_length_le (Nat.le_succ_of_le hi)]
    omega

/-- A line with a character of two code units, and a place past its end. -/
theorem column16_exact_astral :
    column16 "a𝒳b".toList 1 < column16 "a𝒳b".toList 2 ∧
    decode16 ((utf16 "a𝒳b".toList).take (column16 "a𝒳b".toList 2)) = some "a𝒳".toList ∧
    (∀ text, decode16 ((utf16 "a𝒳b".toList).take 2) ≠ some text) ∧
    column16 "a𝒳b".toList 4 = 5 ∧ index16 "a𝒳b".toList 5 = 4 := by
  obtain ⟨horder, hdecode, hcut, hpast, hindex⟩ := column16_exact "a𝒳b".toList
  refine ⟨horder 1 2 (by decide), hdecode 2 (by decide), fun text htext => ?_,
    hpast 3 (by decide), hindex 4⟩
  obtain ⟨i, hi, hcolumn⟩ := hcut 2 (by decide) text htext
  have hcolumns : ∀ i ≤ 3, 2 ≠ column16 "a𝒳b".toList i := by decide
  exact hcolumns i hi hcolumn

end Columns

end Juxta.Text
