/-
  Juxta/Text/Units.lean
  =====================
  **UTF-16 code units** — the language counts characters, while an editor counts the code
  units of UTF-16, of which a character outside the Basic Multilingual Plane takes two.
  `column16` changes the one count into the other along a line, and goes on unit by unit
  past the end of the line.  `charColumn` is the way back for a position that an editor
  sends: the number of characters that begin before the given unit.
-/
namespace Juxta.Text

/-- The number of UTF-16 code units that encode a character. -/
def units16 (c : Char) : Nat := if c.toNat < 0x10000 then 1 else 2

/-- The number of UTF-16 code units that encode a text. -/
def width16 : List Char → Nat
  | [] => 0
  | c :: text => units16 c + width16 text

/-- The UTF-16 column of the character with the given index on a line; each index past
    the end of the line adds one unit. -/
def column16 (line : List Char) (index : Nat) : Nat :=
  width16 (line.take index) + (index - line.length)

/-- How many characters of a line begin before the given UTF-16 column, at most all. -/
def charColumn : (line : List Char) → (column : Nat) → Nat
  | [], _ => 0
  | _ :: _, 0 => 0
  | c :: line, column + 1 => charColumn line (column + 1 - units16 c) + 1

/-- A character takes a unit at least. -/
theorem units16_pos (c : Char) : 0 < units16 c := by
  unfold units16; split <;> omega

@[simp] theorem width16_nil : width16 [] = 0 := rfl

@[simp] theorem width16_cons (c : Char) (text : List Char) :
    width16 (c :: text) = units16 c + width16 text := rfl

/-- Widths of texts one after another add up. -/
theorem width16_append (text more : List Char) :
    width16 (text ++ more) = width16 text + width16 more := by
  induction text with
  | nil => simp
  | cons c text ih => simp [ih, Nat.add_assoc]

/-- The way back from a column on the line leads to the character it came from. -/
theorem charColumn_width16 (line : List Char) (index : Nat) (h : index ≤ line.length) :
    charColumn line (width16 (line.take index)) = index := by
  induction line generalizing index with
  | nil => simp_all [charColumn]
  | cons c line ih =>
    cases index with
    | zero => simp [charColumn]
    | succ index =>
      have hc := units16_pos c
      obtain ⟨n, hn⟩ : ∃ n, units16 c + width16 (line.take index) = n + 1 :=
        ⟨units16 c + width16 (line.take index) - 1, by omega⟩
      have hw : n + 1 - units16 c = width16 (line.take index) := by omega
      rw [List.take_succ_cons, width16_cons, hn, charColumn, hw, ih index (by simpa using h)]

end Juxta.Text
