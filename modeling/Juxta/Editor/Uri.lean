/-
  Juxta/Editor/Uri.lean
  =====================
  **Document URIs** — the name that an editor gives a document.  A character of a URI may be
  written as itself or as the escapes of its UTF-8 bytes, a percent sign and two hexadecimal
  digits each, and all spellings name the same document: `untitled:a b` and `untitled:a%20b`
  do.  Nothing else about a spelling is free, the case of the letters of a scheme included.

  Main statements: the escapes of any bytes decode to these bytes
  (`decodeEscapes_escapeByte`), and a name without escapes is the text that it is written as
  (`ofText_of_not_mem`).
-/
import Juxta.Text.Quoted
import Juxta.Text.Utf8

namespace Juxta.Editor

/-- A document's name, without escapes. -/
structure Uri where
  chars : List Char
deriving DecidableEq, Repr

namespace Uri

/-- The value of a hexadecimal digit of either case. -/
def hexValue? (c : Char) : Option Nat :=
  if '0' ≤ c ∧ c ≤ '9' then some (c.toNat - '0'.toNat)
  else if 'a' ≤ c ∧ c ≤ 'f' then some (c.toNat - 'a'.toNat + 10)
  else if 'A' ≤ c ∧ c ≤ 'F' then some (c.toNat - 'A'.toNat + 10)
  else none

/-- The bytes that a spelling stands for.  A percent sign without two hexadecimal digits
after it stands for itself, and what an escape stands for is no part of another escape. -/
def decodeEscapes : List Char → List UInt8
  | [] => []
  | '%' :: high :: low :: rest =>
    match hexValue? high, hexValue? low with
    | some h, some l => UInt8.ofNat (16 * h + l) :: decodeEscapes rest
    | _, _ => String.utf8EncodeChar '%' ++ decodeEscapes (high :: low :: rest)
  | c :: rest => String.utf8EncodeChar c ++ decodeEscapes rest

/-- The escape of a byte. -/
def escapeByte (b : UInt8) : List Char := '%' :: Text.hexDigits 2 b.toNat

/-- The name that a text spells. -/
def ofText (text : String) : Uri := ⟨Text.ofUtf8 (decodeEscapes text.toList)⟩

/-- A digit has the value that it writes. -/
theorem hexValue?_hexDigit : ∀ n < 16, hexValue? (Text.hexDigit n) = some n := by decide

/-- An escape stands for its byte. -/
theorem decodeEscapes_escapeByte (b : UInt8) (rest : List Char) :
    decodeEscapes (escapeByte b ++ rest) = b :: decodeEscapes rest := by
  have h : b.toNat < 256 := b.toNat_lt
  have high := hexValue?_hexDigit (b.toNat / 16 % 16) (by omega)
  have low := hexValue?_hexDigit (b.toNat % 16) (by omega)
  have value : 16 * (b.toNat / 16 % 16) + b.toNat % 16 = b.toNat := by omega
  simp only [escapeByte, Text.hexDigits, List.nil_append, List.cons_append, decodeEscapes, high,
    low, value, UInt8.ofNat_toNat]

/-- Text without escapes stands for its own bytes. -/
theorem decodeEscapes_eq_flatMap {text : List Char} (h : '%' ∉ text) :
    decodeEscapes text = text.flatMap String.utf8EncodeChar := by
  fun_induction decodeEscapes text <;> simp_all

/-- A name without escapes is the text that it is written as. -/
theorem ofText_of_not_mem {text : String} (h : '%' ∉ text.toList) :
    ofText text = ⟨text.toList⟩ := by
  rw [ofText, decodeEscapes_eq_flatMap h, Text.ofUtf8_flatMap]

end Uri

end Juxta.Editor
