/-
  Juxta/Text/Utf8.lean
  ====================
  **Bytes as UTF-8 text** — bytes that need not be well formed.  A first byte promises one
  to three more, and bounds the next of them so that a character has one spelling and no
  surrogate has any.  A sequence that breaks off is one replacement character, and so is a
  byte that starts nothing; the byte that breaks a sequence off is read anew.

  Main statement: the bytes of a text are read as this text (`ofUtf8_flatMap`).
-/
namespace Juxta.Text

/-- A sequence whose last bytes are still to come: how many, the bounds of the next one, and
the code point so far. -/
structure OpenSequence where
  missing : Nat
  low : Nat
  high : Nat
  code : Nat
deriving DecidableEq, Repr

/-- The character that stands for bytes that are none. -/
def replacement : Char := Char.ofNat 0xFFFD

/-- What a byte outside a sequence gives: characters, and the sequence that it opens. -/
def readFirst (b : Nat) : List Char × Option OpenSequence :=
  if b < 0x80 then ([Char.ofNat b], none)
  else if b < 0xC2 then ([replacement], none)
  else if b < 0xE0 then ([], some ⟨1, 0x80, 0xBF, b - 0xC0⟩)
  else if b < 0xF0 then
    ([], some ⟨2, if b = 0xE0 then 0xA0 else 0x80, if b = 0xED then 0x9F else 0xBF, b - 0xE0⟩)
  else if b < 0xF5 then
    ([], some ⟨3, if b = 0xF0 then 0x90 else 0x80, if b = 0xF4 then 0x8F else 0xBF, b - 0xF0⟩)
  else ([replacement], none)

/-- What the next byte of a sequence gives. -/
def readNext (s : OpenSequence) (b : Nat) : List Char × Option OpenSequence :=
  if s.low ≤ b ∧ b ≤ s.high then
    let code := 64 * s.code + (b - 0x80)
    if s.missing ≤ 1 then ([Char.ofNat code], none)
    else ([], some ⟨s.missing - 1, 0x80, 0xBF, code⟩)
  else
    let (chars, opened) := readFirst b
    (replacement :: chars, opened)

/-- The text of bytes that come after an open sequence, or after none. -/
def ofUtf8From : Option OpenSequence → List UInt8 → List Char
  | none, [] => []
  | some _, [] => [replacement]
  | none, b :: rest =>
    let (chars, opened) := readFirst b.toNat
    chars ++ ofUtf8From opened rest
  | some s, b :: rest =>
    let (chars, opened) := readNext s b.toNat
    chars ++ ofUtf8From opened rest

/-- The text of bytes. -/
def ofUtf8 (bytes : List UInt8) : List Char := ofUtf8From none bytes

/-- The last byte of a sequence completes its character. -/
theorem ofUtf8From_last (low high code : Nat) (b : UInt8) (rest : List UInt8)
    (h : low ≤ b.toNat ∧ b.toNat ≤ high) :
    ofUtf8From (some ⟨1, low, high, code⟩) (b :: rest)
      = Char.ofNat (64 * code + (b.toNat - 0x80)) :: ofUtf8From none rest := by
  simp [ofUtf8From, readNext, h]

/-- A byte of a sequence that is not its last leaves it open. -/
theorem ofUtf8From_inner (missing low high code : Nat) (b : UInt8) (rest : List UInt8)
    (h : low ≤ b.toNat ∧ b.toNat ≤ high) :
    ofUtf8From (some ⟨missing + 2, low, high, code⟩) (b :: rest)
      = ofUtf8From (some ⟨missing + 1, 0x80, 0xBF, 64 * code + (b.toNat - 0x80)⟩) rest := by
  simp [ofUtf8From, readNext, h]

/-- The bytes of a character are read as this character. -/
theorem ofUtf8_utf8EncodeChar_append (c : Char) (rest : List UInt8) :
    ofUtf8 (String.utf8EncodeChar c ++ rest) = c :: ofUtf8 rest := by
  have valid : c.toNat < 0xD800 ∨ 0xDFFF < c.toNat ∧ c.toNat < 0x110000 := c.valid
  have same : Char.ofNat c.toNat = c := Char.ofNat_toNat c
  have code : c.val.toNat = c.toNat := rfl
  simp only [String.utf8EncodeChar, code]
  generalize c.toNat = n at *
  subst same
  have byte (m : Nat) (h : m < 256) : (UInt8.ofNat m).toNat = m := by
    simp [UInt8.toNat_ofNat', Nat.mod_eq_of_lt h]
  have first (m : Nat) (h : m < 256) (rest : List UInt8) :
      ofUtf8 (UInt8.ofNat m :: rest) = (readFirst m).1 ++ ofUtf8From (readFirst m).2 rest := by
    simp [ofUtf8, ofUtf8From, byte m h]
  have tail (m : Nat) : (UInt8.ofNat (m % 64 + 128)).toNat = m % 64 + 128 := byte _ (by omega)
  split
  · have lead : readFirst n = ([Char.ofNat n], none) := by grind [readFirst]
    rw [List.cons_append, first n (by omega), lead]
    rfl
  split
  · have lead : readFirst (n / 64 % 32 + 192) = ([], some ⟨1, 0x80, 0xBF, n / 64⟩) := by
      grind [readFirst]
    have whole : 64 * (n / 64) + (n % 64 + 128 - 128) = n := by omega
    rw [List.cons_append, first _ (by omega), lead, List.cons_append,
      ofUtf8From_last _ _ _ _ _ (by rw [tail]; omega), tail, whole]
    rfl
  split
  · have lead : readFirst (n / 4096 % 16 + 224) = ([], some ⟨2,
        if n / 4096 = 0 then 0xA0 else 0x80, if n / 4096 = 13 then 0x9F else 0xBF,
        n / 4096⟩) := by
      grind [readFirst]
    have whole : 64 * (64 * (n / 4096) + (n / 64 % 64 + 128 - 128)) + (n % 64 + 128 - 128) = n := by
      omega
    rw [List.cons_append, first _ (by omega), lead, List.cons_append,
      ofUtf8From_inner 0 _ _ _ _ _ (by rw [tail]; split <;> split <;> omega), List.cons_append,
      ofUtf8From_last _ _ _ _ _ (by rw [tail]; omega), tail, tail, whole]
    rfl
  · have lead : readFirst (n / 262144 % 8 + 240) = ([], some ⟨3,
        if n / 262144 = 0 then 0x90 else 0x80, if n / 262144 = 4 then 0x8F else 0xBF,
        n / 262144⟩) := by
      grind [readFirst]
    have whole : 64 * (64 * (64 * (n / 262144) + (n / 4096 % 64 + 128 - 128))
        + (n / 64 % 64 + 128 - 128)) + (n % 64 + 128 - 128) = n := by omega
    rw [List.cons_append, first _ (by omega), lead, List.cons_append,
      ofUtf8From_inner 1 _ _ _ _ _ (by rw [tail]; split <;> split <;> omega), List.cons_append,
      ofUtf8From_inner 0 _ _ _ _ _ (by rw [tail]; omega), List.cons_append,
      ofUtf8From_last _ _ _ _ _ (by rw [tail]; omega), tail, tail, tail, whole]
    rfl

/-- The bytes of a text are read as this text. -/
theorem ofUtf8_flatMap (text : List Char) :
    ofUtf8 (text.flatMap String.utf8EncodeChar) = text := by
  induction text with
  | nil => rfl
  | cons c text ih => rw [List.flatMap_cons, ofUtf8_utf8EncodeChar_append, ih]

end Juxta.Text
