/-
  Juxta/Token.lean
  ================
  **Tokens** — the words and marks of the language.  What a token is, its `Shape`, says
  everything that its text says: the lexeme is a function of the shape.  A `Token` is a
  shape at a location; a `Kind` is what the grammar looks at, a shape without its text.
-/
import Juxta.Literal
import Juxta.Location

namespace Juxta

/-- The reserved words. -/
inductive Keyword where
  | binding
  | recursiveBinding
  | function
deriving DecidableEq, Repr

/-- The reserved marks, each a single character. -/
inductive Punctuation where
  | openParen
  | closeParen
  | openBrace
  | closeBrace
  | backtick
  | semicolon
  | comma
  | bang
deriving DecidableEq, Repr

/-- The two marks that may enclose a string. -/
inductive QuoteMark where
  | double
  | single
deriving DecidableEq, Repr

namespace Keyword

/-- The reserved word as it is written. -/
def lexeme : Keyword → String
  | .binding => "let"
  | .recursiveBinding => "letrec"
  | .function => "fn"

/-- The keyword that a word is, if it is one. -/
def ofWord? (word : String) : Option Keyword :=
  [.binding, .recursiveBinding, .function].find? (·.lexeme == word)

/-- Every keyword is found by its word. -/
@[simp] theorem ofWord?_lexeme (k : Keyword) : ofWord? k.lexeme = some k := by
  cases k <;> decide

/-- A word at which a keyword is found is the word of that keyword. -/
theorem lexeme_of_ofWord? {word : String} {k : Keyword} (h : ofWord? word = some k) :
    k.lexeme = word := by
  simpa using List.find?_some h

end Keyword

namespace Punctuation

/-- The character of a mark. -/
def char : Punctuation → Char
  | .openParen => '('
  | .closeParen => ')'
  | .openBrace => '\x7b'
  | .closeBrace => '\x7d'
  | .backtick => '\x60'
  | .semicolon => ';'
  | .comma => ','
  | .bang => '!'

/-- The mark that a character is, if it is one. -/
def ofChar? (c : Char) : Option Punctuation :=
  [.openParen, .closeParen, .openBrace, .closeBrace, .backtick, .semicolon, .comma, .bang].find?
    (·.char == c)

/-- Every mark is found by its character. -/
@[simp] theorem ofChar?_char (p : Punctuation) : ofChar? p.char = some p := by
  cases p <;> decide

/-- A character at which a mark is found is the character of that mark. -/
theorem char_of_ofChar? {c : Char} {p : Punctuation} (h : ofChar? c = some p) : p.char = c := by
  simpa using List.find?_some h

end Punctuation

namespace QuoteMark

/-- The character of a quote mark. -/
def char : QuoteMark → Char
  | .double => '"'
  | .single => '\''

/-- The quote mark that a character is, if it is one. -/
def ofChar? (c : Char) : Option QuoteMark := [.double, .single].find? (·.char == c)

/-- Every quote mark is found by its character. -/
@[simp] theorem ofChar?_char (m : QuoteMark) : ofChar? m.char = some m := by
  cases m <;> decide

end QuoteMark

/-- What the grammar sees of a token. -/
inductive Kind where
  | endOfInput
  | integer
  | decimal
  | string
  | symbol
  | keyword (k : Keyword)
  | punctuation (p : Punctuation)
deriving DecidableEq, Repr

namespace Kind

/-- The name of a kind in messages. -/
def describe : Kind → String
  | .endOfInput => "end of input"
  | .integer => "integer"
  | .decimal => "decimal"
  | .string => "string"
  | .symbol => "symbol"
  | .keyword k => "'" ++ k.lexeme ++ "'"
  | .punctuation p => "'" ++ p.char.toString ++ "'"

/-- The kinds that can begin an operand. -/
def operandStarts : List Kind :=
  [.integer, .decimal, .string, .symbol, .keyword .function, .punctuation .openBrace,
   .punctuation .openParen]

/-- The kinds that can begin an expression: those of an operand, and the bindings. -/
def expressionStarts : List Kind :=
  operandStarts ++ [.keyword .binding, .keyword .recursiveBinding]

/-- Whether a token of this kind can begin an operand. -/
def startsOperand (k : Kind) : Bool := operandStarts.contains k

/-- Whether a token of this kind can begin an expression. -/
def startsExpression (k : Kind) : Bool := expressionStarts.contains k

/-- Whether this is the kind of a literal. -/
def isLiteral : Kind → Bool
  | .integer | .decimal | .string => true
  | _ => false

/-- Whether this is the kind of a reserved word. -/
def isKeyword : Kind → Bool
  | .keyword _ => true
  | _ => false

end Kind

/-- What a token is, text included. -/
inductive Shape where
  | endOfInput
  | integer (digits : String)
  | decimal (whole fraction : String)
  | string (mark : QuoteMark) (body : String)
  | symbol (name : String)
  | keyword (k : Keyword)
  | punctuation (p : Punctuation)
deriving DecidableEq, Repr

namespace Shape

/-- The text of a token in the source. -/
def lexeme : Shape → String
  | .endOfInput => ""
  | .integer digits => digits
  | .decimal whole fraction => whole ++ "." ++ fraction
  | .string mark body => mark.char.toString ++ body ++ mark.char.toString
  | .symbol name => name
  | .keyword k => k.lexeme
  | .punctuation p => p.char.toString

/-- The kind of a token. -/
def kind : Shape → Kind
  | .endOfInput => .endOfInput
  | .integer _ => .integer
  | .decimal _ _ => .decimal
  | .string _ _ => .string
  | .symbol _ => .symbol
  | .keyword k => .keyword k
  | .punctuation p => .punctuation p

/-- The value of a literal token. -/
def literal? : Shape → Option Literal
  | .integer digits => some (.integer (Nat.ofDigitChars 10 digits.toList 0))
  | .decimal whole fraction =>
    some (.decimal ((Numeral.ofDigits whole.toList fraction.toList).toBinary64 false))
  | .string _ body => some (.text body)
  | _ => none

/-- The value that a token carries: that of a literal, or the name of a symbol. -/
def value? : Shape → Option Literal
  | .symbol name => some (.text name)
  | s => s.literal?

/-- A token in messages: its kind, and for literals and symbols its text. -/
def describe (s : Shape) : String :=
  match s with
  | .integer _ | .decimal _ _ | .string _ _ | .symbol _ =>
    s.kind.describe ++ " " ++ Text.quote s.lexeme
  | _ => s.kind.describe

end Shape

/-- A token at its place in the source. -/
structure Token where
  shape : Shape
  location : Location
deriving DecidableEq, Repr

namespace Token

/-- The kind of a token. -/
def kind (t : Token) : Kind := t.shape.kind

/-- The text of a token in the source. -/
def lexeme (t : Token) : String := t.shape.lexeme

/-- Whether a token ends its input. -/
def isEnd (t : Token) : Bool := t.kind == .endOfInput

end Token

end Juxta
