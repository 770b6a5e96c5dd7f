/-
  Juxta/Text/Integer.lean
  =======================
  **Whole numbers as a user writes them** — a number on a command line may have blank
  space around it and a sign before it, its digits may be those of any script, and single
  underscores may stand between digits.
-/
namespace Juxta.Text

/-- The code points of the digits zero of all scripts in version 14 of the Unicode character
    database; the nine other digits of a script follow its zero. -/
def zeroCodes : List Nat :=
  [0x30, 0x660, 0x6F0, 0x7C0, 0x966, 0x9E6, 0xA66, 0xAE6, 0xB66, 0xBE6, 0xC66, 0xCE6, 0xD66,
   0xDE6, 0xE50, 0xED0, 0xF20, 0x1040, 0x1090, 0x17E0, 0x1810, 0x1946, 0x19D0, 0x1A80, 0x1A90,
   0x1B50, 0x1BB0, 0x1C40, 0x1C50, 0xA620, 0xA8D0, 0xA900, 0xA9D0, 0xA9F0, 0xAA50, 0xABF0,
   0xFF10, 0x104A0, 0x10D30, 0x11066, 0x110F0, 0x11136, 0x111D0, 0x112F0, 0x11450, 0x114D0,
   0x11650, 0x116C0, 0x11730, 0x118E0, 0x11950, 0x11C50, 0x11D50, 0x11DA0, 0x16A60, 0x16AC0,
   0x16B50, 0x1D7CE, 0x1D7D8, 0x1D7E2, 0x1D7EC, 0x1D7F6, 0x1E140, 0x1E2F0, 0x1E950, 0x1FBF0]

/-- The value of a decimal digit of any script. -/
def digitValue? (c : Char) : Option Nat :=
  (zeroCodes.find? fun first => first ≤ c.toNat && c.toNat < first + 10).map (c.toNat - ·)

/-- The blank space that may surround a number. -/
def isNumberBlank (c : Char) : Bool :=
  (9 ≤ c.toNat && c.toNat ≤ 13) || (0x2000 ≤ c.toNat && c.toNat ≤ 0x200A)
    || [0x20, 0x85, 0xA0, 0x1680, 0x2028, 0x2029, 0x202F, 0x205F, 0x3000].contains c.toNat

/-- The text without the blank space around it. -/
def trimBlanks (text : List Char) : List Char :=
  ((text.dropWhile isNumberBlank).reverse.dropWhile isNumberBlank).reverse

/-- The digits of a text, between which single underscores may stand. -/
def digitValues? : List Char → Option (List Nat)
  | [] => none
  | [c] => (digitValue? c).map ([·])
  | c :: '_' :: text => do return (← digitValue? c) :: (← digitValues? text)
  | c :: text => do return (← digitValue? c) :: (← digitValues? text)

/-- The number that a text without a sign stands for, if it has at most `limit` digits. -/
def natural? (limit : Nat) (text : List Char) : Option Nat := do
  let digits ← digitValues? text
  if digits.length ≤ limit then return digits.foldl (fun n d => 10 * n + d) 0 else none

/-- The number that a text stands for, if it has at most `limit` digits. -/
def integer? (limit : Nat) (text : List Char) : Option Int :=
  match trimBlanks text with
  | '-' :: digits => (natural? limit digits).map fun n => -(n : Int)
  | '+' :: digits => (natural? limit digits).map Int.ofNat
  | digits => (natural? limit digits).map Int.ofNat

end Juxta.Text
