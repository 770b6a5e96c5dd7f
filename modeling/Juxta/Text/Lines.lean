/-
  Juxta/Text/Lines.lean
  =====================
  **Lines of a text** — three notions of a line are in use, and each is a function here.

  * `splitNewlines` cuts a text at its line feeds, which it drops: this is the notion
    behind every line number of the language.
  * `splitLines` cuts a text after every line boundary and keeps the boundary with its
    line; besides the line feed it knows the carriage return (alone or before a line
    feed), the vertical tab, the form feed, the information separators, the next-line
    control and the two Unicode separators.  This is the notion behind diffs and behind
    the lines of an edited document.
  * `unifyNewlines` turns every carriage return, with the line feed after it if there is
    one, into one line feed: what is done to a file when it is read as text.
-/
namespace Juxta.Text

/-- The pieces of a text between its line feeds; there is always at least one. -/
def splitNewlines : List Char → List (List Char)
  | [] => [[]]
  | c :: text =>
    if c = '\n' then [] :: splitNewlines text
    else match splitNewlines text with
      | [] => [[c]]
      | line :: lines => (c :: line) :: lines

/-- Whether a character ends a line in the sense of `splitLines`. -/
def isLineBoundary (c : Char) : Bool :=
  c = '\n' || c = '\r' || c = '\x0b' || c = '\x0c' || c = '\x1c' || c = '\x1d' || c = '\x1e'
    || c = '\x85' || c = '\u2028' || c = '\u2029'

/-- Puts a character in front of the first line. -/
def consLine (c : Char) : List (List Char) → List (List Char)
  | [] => [[c]]
  | line :: lines => (c :: line) :: lines

/-- The lines of a text, each with the boundary that ends it; the last line may have none,
    and the empty text has no lines. -/
def splitLines : List Char → List (List Char)
  | [] => []
  | '\r' :: '\n' :: text => ['\r', '\n'] :: splitLines text
  | c :: text => if isLineBoundary c then [c] :: splitLines text else consLine c (splitLines text)

/-- The text with one line feed in place of every carriage return and the line feed that
    may follow it. -/
def unifyNewlines : List Char → List Char
  | [] => []
  | '\r' :: '\n' :: text => '\n' :: unifyNewlines text
  | c :: text => (if c = '\r' then '\n' else c) :: unifyNewlines text

/-- The text without the carriage returns at its end. -/
def dropTrailingReturns : List Char → List Char
  | [] => []
  | c :: text =>
    match dropTrailingReturns text with
    | [] => if c = '\r' then [] else [c]
    | kept => c :: kept

/-- Lines as one text, in which a line feed ends each of them. -/
def unlines (lines : List String) : String := String.join (lines.map (· ++ "\n"))

/-- The first line of a text: what stands before its first line feed. -/
def firstLine (text : List Char) : List Char := text.takeWhile (· != '\n')

/-! ### What cutting keeps -/

/-- There is always a piece. -/
theorem splitNewlines_ne_nil (text : List Char) : splitNewlines text ≠ [] := by
  cases text with
  | nil => simp [splitNewlines]
  | cons c text =>
    by_cases h : c = '\n'
    · simp [splitNewlines, h]
    · cases hs : splitNewlines text <;> simp [splitNewlines, h, hs]

/-- The pieces with line feeds between them are the text. -/
theorem intercalate_splitNewlines (text : List Char) :
    ['\n'].intercalate (splitNewlines text) = text := by
  induction text with
  | nil => rfl
  | cons c text ih =>
    by_cases h : c = '\n'
    · cases hs : splitNewlines text with
      | nil => exact absurd hs (splitNewlines_ne_nil text)
      | cons line lines =>
        rw [hs] at ih
        simp [splitNewlines, h, hs, List.intercalate_cons_cons, ih]
    · cases hs : splitNewlines text with
      | nil => exact absurd hs (splitNewlines_ne_nil text)
      | cons line lines =>
        rw [hs] at ih
        cases lines <;>
          simp_all [splitNewlines, List.intercalate_cons_cons, List.intercalate_singleton]

/-- A text without line feeds is one piece. -/
theorem splitNewlines_of_not_mem {text : List Char} (h : '\n' ∉ text) :
    splitNewlines text = [text] := by
  induction text with
  | nil => rfl
  | cons c text ih =>
    simp only [List.mem_cons, not_or] at h
    simp only [splitNewlines, Ne.symm h.1, ite_false, ih h.2]

/-- A line feed ends the first piece. -/
theorem splitNewlines_append {line : List Char} (h : '\n' ∉ line) (text : List Char) :
    splitNewlines (line ++ '\n' :: text) = line :: splitNewlines text := by
  induction line with
  | nil => simp [splitNewlines]
  | cons c line ih =>
    simp only [List.mem_cons, not_or] at h
    simp only [List.cons_append, splitNewlines, Ne.symm h.1, ite_false, ih h.2]

/-- The first line put together with what is in front of it. -/
theorem flatten_consLine (c : Char) (lines : List (List Char)) :
    (consLine c lines).flatten = c :: lines.flatten := by
  cases lines <;> simp [consLine]

/-- The lines one after another are the text. -/
theorem flatten_splitLines (text : List Char) : (splitLines text).flatten = text := by
  fun_induction splitLines text with
  | case1 => rfl
  | case2 text ih => simp [ih]
  | case3 c text _ _ ih => simp [ih]
  | case4 c text _ _ ih => simp [flatten_consLine, ih]

/-- No carriage return is left. -/
theorem not_mem_unifyNewlines (text : List Char) : '\r' ∉ unifyNewlines text := by
  fun_induction unifyNewlines text with
  | case1 => simp
  | case2 text ih => simp [ih]
  | case3 c text _ ih => by_cases h : c = '\r' <;> simp [h, ih, Ne.symm]

/-- A text without carriage returns stays as it is. -/
theorem unifyNewlines_of_not_mem {text : List Char} (h : '\r' ∉ text) :
    unifyNewlines text = text := by
  fun_induction unifyNewlines text with
  | case1 => rfl
  | case2 text ih => simp at h
  | case3 c text _ ih => grind

end Juxta.Text
