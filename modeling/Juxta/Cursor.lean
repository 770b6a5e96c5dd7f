/-
  Juxta/Cursor.lean
  =================
  **A cursor in a text** — the place up to which a source text has been read, with the
  characters that are still to come.  The cursor counts lines, columns and characters as
  it moves, and keeps the part of the current line that lies behind it, so that the whole
  line can be shown when something is wrong with it.
-/
import Juxta.Location
import Juxta.Text.Lines

namespace Juxta

/-- A place in a text, between the characters read and those to come. -/
structure Cursor where
  /-- The label of the text. -/
  filename : Option String
  /-- The characters of the current line that have been read, the last one first. -/
  lineHead : List Char
  /-- The characters to come. -/
  rest : List Char
  /-- The number of the current line, counted from one. -/
  line : Nat
  /-- The column of the next character, counted from one. -/
  column : Nat
  /-- The number of characters read. -/
  offset : Nat
deriving DecidableEq, Repr

namespace Cursor

/-- The cursor before the first character of a text. -/
def start (text : List Char) (filename : Option String) : Cursor :=
  ⟨filename, [], text, 1, 1, 0⟩

/-- The cursor after reading the character `c`, which leaves `rest` to come. -/
def step (k : Cursor) (c : Char) (rest : List Char) : Cursor :=
  if c = '\n' then
    { k with lineHead := [], rest := rest, line := k.line + 1, column := 1,
             offset := k.offset + 1 }
  else
    { k with lineHead := c :: k.lineHead, rest := rest, column := k.column + 1,
             offset := k.offset + 1 }

/-- The cursor after reading `n` more characters, or all if there are fewer. -/
def forward : (n : Nat) → Cursor → Cursor
  | 0, k => k
  | n + 1, k =>
    match k.rest with
    | [] => k
    | c :: rest => forward n (k.step c rest)

/-- The location of the next `length` characters. -/
def location (k : Cursor) (length : Nat) : Location :=
  { line := k.line, column := k.column, offset := k.offset, length := length,
    filename := k.filename }

/-- The whole current line, without its line feed and the carriage returns before it. -/
def lineText (k : Cursor) : List Char :=
  Text.dropTrailingReturns (k.lineHead.reverse ++ Text.firstLine k.rest)

/-- The text of the line with the given number, if the cursor stands in it. -/
def lineText? (k : Cursor) (line : Int) : Option String :=
  if (k.line : Int) = line then some (String.ofList k.lineText) else none

/-! ### What moving keeps -/

@[simp] theorem rest_step (k : Cursor) (c : Char) (rest : List Char) :
    (k.step c rest).rest = rest := by
  unfold step; split <;> rfl

@[simp] theorem offset_step (k : Cursor) (c : Char) (rest : List Char) :
    (k.step c rest).offset = k.offset + 1 := by
  unfold step; split <;> rfl

@[simp] theorem filename_step (k : Cursor) (c : Char) (rest : List Char) :
    (k.step c rest).filename = k.filename := by
  unfold step; split <;> rfl

theorem forward_of_rest_nil {k : Cursor} (h : k.rest = []) (n : Nat) : forward n k = k := by
  cases n with
  | zero => rfl
  | succ n =>
    unfold forward
    rw [h]

theorem forward_of_rest_cons {k : Cursor} {c : Char} {rest : List Char} (h : k.rest = c :: rest)
    (n : Nat) : forward (n + 1) k = forward n (k.step c rest) := by
  change (match k.rest with
    | [] => k
    | c :: rest => forward n (k.step c rest)) = _
  rw [h]

/-- Moving on leaves what stands after the characters read. -/
@[simp] theorem rest_forward (n : Nat) (k : Cursor) : (forward n k).rest = k.rest.drop n := by
  induction n generalizing k with
  | zero => rfl
  | succ n ih =>
    cases h : k.rest with
    | nil => rw [forward_of_rest_nil h, h, List.drop_nil]
    | cons c rest => rw [forward_of_rest_cons h, ih, rest_step, List.drop_succ_cons]

/-- Moving on counts the characters read. -/
theorem offset_forward (n : Nat) (k : Cursor) (h : n ≤ k.rest.length) :
    (forward n k).offset = k.offset + n := by
  induction n generalizing k with
  | zero => rfl
  | succ n ih =>
    cases hk : k.rest with
    | nil =>
      rw [hk] at h
      exact absurd h (Nat.not_succ_le_zero n)
    | cons c rest =>
      rw [hk] at h
      have hn : n ≤ (k.step c rest).rest.length := by
        rw [rest_step]
        exact Nat.le_of_succ_le_succ h
      rw [forward_of_rest_cons hk, ih _ hn, offset_step]
      omega

/-- Moving on does not change the label. -/
@[simp] theorem filename_forward (n : Nat) (k : Cursor) :
    (forward n k).filename = k.filename := by
  induction n generalizing k with
  | zero => rfl
  | succ n ih =>
    cases h : k.rest with
    | nil => rw [forward_of_rest_nil h]
    | cons c rest => rw [forward_of_rest_cons h, ih, filename_step]

/-- Moving on in two steps is moving on in one. -/
theorem forward_add (m n : Nat) (k : Cursor) :
    forward (m + n) k = forward n (forward m k) := by
  induction m generalizing k with
  | zero =>
    rw [Nat.zero_add]
    rfl
  | succ m ih =>
    rw [Nat.succ_add]
    cases h : k.rest with
    | nil => rw [forward_of_rest_nil h, forward_of_rest_nil h, forward_of_rest_nil h]
    | cons c rest => rw [forward_of_rest_cons h, forward_of_rest_cons h, ih]

end Cursor

end Juxta
