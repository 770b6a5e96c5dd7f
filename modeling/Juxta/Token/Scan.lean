/-
  Juxta/Token/Scan.lean
  =====================
  **From characters to tokens** — a text is read as a sequence of tokens with blank space
  between them.  What stands at the head of a text depends on its characters alone
  (`Scan.ofText`), and the first rule that fits decides:

    * a reserved mark;
    * a word: a letter or `_`, then as many letters, numeric characters and `_` as follow;
      a whole word that is reserved is a keyword, any other a symbol;
    * an operator: as many operator characters as follow, which is a symbol;
    * a number: digits, or digits with one point among them or in front of them;
    * a string: all characters up to the next quote mark of the kind that opens it.

  Everything else is a fault.  `next` reads one token at a cursor and moves on past it.  A
  character that begins no token is not passed; a number that ends in its point and a
  string without an end are.
-/
import Juxta.Cursor
import Juxta.Text.Letter
import Juxta.Text.Numeric
import Juxta.Token

namespace Juxta

/-! ### Classes of characters -/

namespace Text

/-- The blank characters, which only separate tokens. -/
def isBlank (c : Char) : Bool := c = ' ' || c = '\t' || c = '\r' || c = '\n'

/-- The characters that begin a word. -/
def isWordStart (c : Char) : Bool := c = '_' || isLetter c

/-- The characters that continue a word. -/
def isWordPart (c : Char) : Bool := isWordStart c || isNumeric c

/-- The characters of operators. -/
def operatorChars : List Char :=
  ['+', '-', '*', '/', '%', '<', '>', '=', '&', '|', '^', '~', '?', ':', '@', '$']

/-- Whether a character is one of those of operators. -/
def isOperatorChar (c : Char) : Bool := operatorChars.contains c

end Text

/-! ### What stands at the head of a text -/

/-- A text that is no token. -/
inductive Fault where
  /-- A character that begins no token. -/
  | unexpectedCharacter (c : Char)
  /-- A number that ends in its point. -/
  | malformedDecimal (text : String)
  /-- A string whose closing quote is missing. -/
  | unterminatedString (text : String)
deriving DecidableEq, Repr

namespace Fault

/-- The text at fault. -/
def text : Fault → String
  | .unexpectedCharacter c => c.toString
  | .malformedDecimal text => text
  | .unterminatedString text => text

/-- What is wrong with it. -/
def message : Fault → String
  | .unexpectedCharacter c => "Unexpected character: " ++ Text.quote c.toString
  | .malformedDecimal text =>
    "Malformed decimal literal: " ++ Text.quote text ++ " (expected digits after '.')"
  | .unterminatedString _ => "Unterminated string literal"

/-- How many characters a reader passes over. -/
def passed : Fault → Nat
  | .unexpectedCharacter _ => 0
  | .malformedDecimal text => text.length
  | .unterminatedString text => text.length

/-- How many characters the location of the fault spans; zero stands for "not known". -/
def span : Fault → Nat
  | .unexpectedCharacter _ => 1
  | _ => 0

end Fault

/-- What stands at the head of a text. -/
inductive Scan where
  | token (shape : Shape)
  | fault (fault : Fault)
  /-- A whole number with more digits than a whole number may have. -/
  | tooManyDigits (digits : String)
deriving DecidableEq, Repr

namespace Scan

/-- The greatest number of digits of a whole number. -/
def digitLimit : Nat := 4300

/-- How many characters a reader passes over. -/
def passed : Scan → Nat
  | .token shape => shape.lexeme.length
  | .fault f => f.passed
  | .tooManyDigits digits => digits.length

/-- A word: a keyword if it is reserved. -/
def ofWord (word : String) : Scan :=
  match Keyword.ofWord? word with
  | some k => .token (.keyword k)
  | none => .token (.symbol word)

/-- A whole number, unless it has too many digits. -/
def ofInteger (digits : List Char) : Scan :=
  if digits.length ≤ digitLimit then .token (.integer (String.ofList digits))
  else .tooManyDigits (String.ofList digits)

/-- The number at the head of a text that begins with a digit. -/
def ofNumber (text : List Char) : Scan :=
  let whole := text.takeWhile Char.isDigit
  match text.dropWhile Char.isDigit with
  | '.' :: after =>
    let fraction := after.takeWhile Char.isDigit
    if fraction.isEmpty then .fault (.malformedDecimal (String.ofList whole ++ "."))
    else .token (.decimal (String.ofList whole) (String.ofList fraction))
  | _ => ofInteger whole

/-- The string whose opening mark has been read, from the text after that mark. -/
def ofString (mark : QuoteMark) (text : List Char) : Scan :=
  let body := String.ofList (text.takeWhile (· != mark.char))
  match text.dropWhile (· != mark.char) with
  | [] => .fault (.unterminatedString (mark.char.toString ++ body))
  | _ :: _ => .token (.string mark body)

/-- The rules for a text whose first character is neither a reserved mark nor begins a
    word, an operator or a number. -/
def ofOther (c : Char) (rest : List Char) : Scan :=
  let fraction := rest.takeWhile Char.isDigit
  if c = '.' && !fraction.isEmpty then .token (.decimal "" (String.ofList fraction))
  else match QuoteMark.ofChar? c with
    | some mark => ofString mark rest
    | none => .fault (.unexpectedCharacter c)

/-- What stands at the head of a text that does not begin with blank space. -/
def ofText : List Char → Scan
  | [] => .token .endOfInput
  | c :: rest =>
    match Punctuation.ofChar? c with
    | some p => .token (.punctuation p)
    | none =>
      if Text.isWordStart c then ofWord (String.ofList ((c :: rest).takeWhile Text.isWordPart))
      else if Text.isOperatorChar c then
        .token (.symbol (String.ofList ((c :: rest).takeWhile Text.isOperatorChar)))
      else if c.isDigit then ofNumber (c :: rest)
      else ofOther c rest

end Scan

/-! ### Reading at a cursor -/

/-- A fault in its place. -/
structure LexicalError where
  fault : Fault
  location : Location
  /-- The line in which the text at fault begins. -/
  sourceLine : String
deriving DecidableEq, Repr

/-- A whole number that is too long to be read.  It is an error of the reader's capacity,
    not of the text, and is not reported at a location. -/
structure TooManyDigits where
  count : Nat
deriving DecidableEq, Repr

/-- What is wrong. -/
def TooManyDigits.message (e : TooManyDigits) : String :=
  "Exceeds the limit (" ++ Scan.digitLimit.repr
    ++ " digits) for integer string conversion: value has " ++ e.count.repr
    ++ " digits; use sys.set_int_max_str_digits() to increase the limit"

/-- Why no token could be read. -/
inductive ScanError where
  | lexical (error : LexicalError)
  | tooManyDigits (error : TooManyDigits)
deriving DecidableEq, Repr

namespace Cursor

/-- The cursor after the blank space at its place. -/
def skipBlanks (k : Cursor) : Cursor := k.forward (k.rest.takeWhile Text.isBlank).length

end Cursor

/-- A computation that reads tokens at a cursor and leaves the cursor in its place also
    when it fails. -/
abbrev Scanner := EStateM ScanError Cursor

namespace Scanner

/-- Reads the next token; at the end of the text that is the end of input, again and
    again. -/
def next : Scanner Token := fun k =>
  let k := k.skipBlanks
  let scan := Scan.ofText k.rest
  let after := k.forward scan.passed
  match scan with
  | .token shape => .ok ⟨shape, k.location shape.lexeme.length⟩ after
  | .fault f => .error (.lexical ⟨f, k.location f.span, String.ofList k.lineText⟩) after
  | .tooManyDigits digits => .error (.tooManyDigits ⟨digits.length⟩) after

/-- Reads tokens until the end of input, which is the last of them, but at most `n`. -/
def upTo : (n : Nat) → Scanner (List Token)
  | 0 => pure []
  | n + 1 => do
    let t ← next
    if t.isEnd then return [t] else return t :: (← upTo n)

/-- Reads all tokens that are left, the end of input included.  Every other token takes at
    least one character, so that one more than the characters to come is enough. -/
def all : Scanner (List Token) := do
  let k ← get
  upTo (k.rest.length + 1)

/-- Reads all tokens that are left and leaves out the end of input. -/
def allBeforeEnd : Scanner (List Token) := do
  return (← all).dropLast

end Scanner

end Juxta
