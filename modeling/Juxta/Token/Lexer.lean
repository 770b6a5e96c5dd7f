/-
  Juxta/Token/Lexer.lean
  ======================
  **Tokens from a text that arrives in pieces** — the scanner once more, over a stream.  A
  stream is read character by character, and nothing of the text is known but the characters
  that have been asked for; only a decimal point needs a look at the one behind it.

  Faults show the line in which the text at fault begins.  A string may go on over several
  lines, so that its first line is taken up before the string is read.
-/
import Juxta.Stream
import Juxta.Token.Scan

namespace Juxta

/-- A computation that consumes characters of a stream and leaves the stream in its place also
    when it fails. -/
abbrev Lexer := EStateM ScanError Stream

namespace Lexer

/-! ### Characters -/

/-- The character `ahead` places after the next one. -/
def peek (ahead : Nat) : Lexer (Option Char) := fun s => .ok (s.peek ahead).1 (s.peek ahead).2

/-- Passes over the next character. -/
def advance : Lexer Unit := fun s => .ok () s.advance.2

/-- The place of the next character. -/
def place : Lexer Location := fun s => .ok (s.location 0) s

/-- The whole current line. -/
def lineText : Lexer (List Char) := fun s => .ok s.lineText.1 s.lineText.2

/-- Consumes characters of a class as long as they come, at most `n` of them. -/
def readUpTo (p : Char → Bool) : (n : Nat) → Lexer (List Char)
  | 0 => pure []
  | n + 1 => do
    match ← peek 0 with
    | some c =>
      if p c then
        advance
        return c :: (← readUpTo p n)
      else return []
    | none => return []

/-- Consumes characters of a class as long as they come.  There are no more of them than
    characters to come. -/
def readWhile (p : Char → Bool) : Lexer (List Char) := do
  let s ← get
  readUpTo p (s.unread.length + s.toCome.length)

/-! ### Tokens and faults -/

/-- A token that begins at the given place. -/
def tokenAt (start : Location) (shape : Shape) : Token :=
  ⟨shape, { start with length := shape.lexeme.length }⟩

/-- A text at fault that begins at the given place, in the given line. -/
def faultAt (start : Location) (fault : Fault) (line : List Char) : ScanError :=
  .lexical ⟨fault, { start with length := fault.span }, String.ofList line⟩

/-- A word: a keyword if it is reserved. -/
def word : Lexer Token := do
  let start ← place
  let word := String.ofList (← readWhile Text.isWordPart)
  match Keyword.ofWord? word with
  | some k => return tokenAt start (.keyword k)
  | none => return tokenAt start (.symbol word)

/-- An operator. -/
def operator : Lexer Token := do
  let start ← place
  let text ← readWhile Text.isOperatorChar
  return tokenAt start (.symbol (String.ofList text))

/-- A number that begins with a digit. -/
def number : Lexer Token := do
  let start ← place
  let whole ← readWhile Char.isDigit
  if (← peek 0) = some '.' then
    if (← peek 1).any Char.isDigit then
      advance
      let fraction ← readWhile Char.isDigit
      return tokenAt start (.decimal (String.ofList whole) (String.ofList fraction))
    else
      advance
      throw (faultAt start (.malformedDecimal (String.ofList whole ++ ".")) (← lineText))
  else if whole.length ≤ Scan.digitLimit then
    return tokenAt start (.integer (String.ofList whole))
  else throw (.tooManyDigits ⟨whole.length⟩)

/-- A string whose opening mark comes next. -/
def string (mark : QuoteMark) : Lexer Token := do
  let start ← place
  let line ← lineText
  advance
  let body ← readWhile (· != mark.char)
  if (← peek 0).isSome then
    advance
    return tokenAt start (.string mark (String.ofList body))
  else throw (faultAt start (.unterminatedString (mark.char.toString ++ String.ofList body)) line)

/-- The character behind the next one, if that is a point. -/
def behindPoint (c : Char) : Lexer (Option Char) := if c = '.' then peek 1 else pure none

/-- What begins with a character that is neither a reserved mark nor begins a word, an operator
    or a number with digits in front. -/
def other (c : Char) : Lexer Token := do
  let start ← place
  if (← behindPoint c).any Char.isDigit then
    advance
    let fraction ← readWhile Char.isDigit
    return tokenAt start (.decimal "" (String.ofList fraction))
  else match QuoteMark.ofChar? c with
    | some mark => string mark
    | none => throw (faultAt start (.unexpectedCharacter c) (← lineText))

/-- Reads the next token, which no blank space stands in front of. -/
def lexeme : Lexer Token := do
  match ← peek 0 with
  | none => return tokenAt (← place) .endOfInput
  | some c =>
    match Punctuation.ofChar? c with
    | some p =>
      let start ← place
      advance
      return tokenAt start (.punctuation p)
    | none =>
      if Text.isWordStart c then word
      else if Text.isOperatorChar c then operator
      else if c.isDigit then number
      else other c

/-- Reads the next token. -/
def next : Lexer Token := do
  let _ ← readWhile Text.isBlank
  lexeme

end Lexer

/-! ### A source of tokens -/

/-- A text that is read and scanned on demand, with at most one token looked at in advance. -/
structure StreamSource where
  stream : Stream
  lookahead : Option Token := none
deriving DecidableEq, Repr

namespace StreamSource

/-- The source of all tokens of a text, over its reads. -/
def ofReads (reads : List (List Char)) (filename : Option String) : StreamSource :=
  { stream := .ofReads reads filename }

/-- The next token, scanned if it has not been looked at. -/
def peek : EStateM ScanError StreamSource Token := fun s =>
  match s.lookahead with
  | some t => .ok t s
  | none =>
    match Lexer.next s.stream with
    | .ok t stream => .ok t ⟨stream, some t⟩
    | .error e stream => .error e ⟨stream, none⟩

/-- Takes the next token, unless it is the end of input. -/
def next : EStateM ScanError StreamSource Token := do
  let t ← peek
  if !t.isEnd then modify fun s => { s with lookahead := none }
  return t

/-- The text of the line with the given number, if the stream stands in it.  The rest of the line
    is read for it. -/
def lineText? (s : StreamSource) (line : Int) : Option String × StreamSource :=
  if (s.stream.line : Int) = line then
    (some (String.ofList s.stream.lineText.1), { s with stream := s.stream.lineText.2 })
  else (none, s)

end StreamSource

end Juxta
