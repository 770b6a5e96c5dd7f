/-
  Juxta/Text/Quoted.lean
  ======================
  **Quoted text** — how messages and listings show a piece of text.  The text stands
  between single quotes, or between double quotes when it holds a single quote and no
  double quote.  The enclosing quote and the backslash are preceded by a backslash, tab,
  line feed and carriage return have their short escapes, and every other character that
  is not printable is written by its code point: two hexadecimal digits after `\x`, four
  after `\u` or eight after `\U`, whichever is the first that holds it.
-/
import Juxta.Text.Printable

namespace Juxta.Text

/-- The lower-case hexadecimal digit of a number below sixteen. -/
def hexDigit (n : Nat) : Char :=
  if n < 10 then Char.ofNat (48 + n) else Char.ofNat (87 + n)

/-- The last `width` hexadecimal digits of `n`, most significant first. -/
def hexDigits : (width n : Nat) → List Char
  | 0, _ => []
  | width + 1, n => hexDigits width (n / 16) ++ [hexDigit (n % 16)]

/-- A character written by its code point. -/
def codeEscape (c : Char) : List Char :=
  if c.toNat ≤ 0xFF then '\\' :: 'x' :: hexDigits 2 c.toNat
  else if c.toNat ≤ 0xFFFF then '\\' :: 'u' :: hexDigits 4 c.toNat
  else '\\' :: 'U' :: hexDigits 8 c.toNat

/-- One character of a text that stands between two marks `mark`. -/
def quoteChar (mark c : Char) : List Char :=
  if c = mark || c = '\\' then ['\\', c]
  else if c = '\t' then ['\\', 't']
  else if c = '\n' then ['\\', 'n']
  else if c = '\r' then ['\\', 'r']
  else if isPrintable c then [c]
  else codeEscape c

/-- The quote that encloses a text: the double quote exactly when the text holds a single
    quote and no double quote. -/
def quoteMark (text : List Char) : Char :=
  if text.contains '\'' && !text.contains '"' then '"' else '\''

/-- The text between its quotes, over lists of characters. -/
def quoteList (text : List Char) : List Char :=
  let mark := quoteMark text
  mark :: (text.flatMap (quoteChar mark) ++ [mark])

/-- The text between its quotes. -/
def quote (text : String) : String := String.ofList (quoteList text.toList)

end Juxta.Text
