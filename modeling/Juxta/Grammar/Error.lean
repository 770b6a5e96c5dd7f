/-
  Juxta/Grammar/Error.lean
  ========================
  **Why a text is no program** — a text fails because something in it is no token, or
  because a token stands where the grammar has no place for it.  A `SyntaxError` says
  which place of the grammar was reached (`Problem`), which token was found there, and
  which kinds of token would have been accepted.

  The message names the token that was found and the accepted kinds, in the order of
  their names.  A block that is not closed is reported by its opening bracket instead.
-/
import Juxta.Expr
import Juxta.Report
import Juxta.Token.Scan

namespace Juxta

/-- The place of the grammar at which a token was refused. -/
inductive Problem where
  /-- A program that does not begin with an expression. -/
  | expression
  /-- A binding without a name. -/
  | nameAfter (keyword : Keyword)
  /-- A binding without a value. -/
  | valueFor (name : String)
  /-- A step of a chain without an operator. -/
  | operator
  /-- An operand that is none. -/
  | operand
  /-- A function without a body. -/
  | functionBody
  /-- A parameter that is no name. -/
  | parameterName
  /-- Parameters that are neither separated nor closed. -/
  | parameterEnd
  /-- A block with something else than a statement in it. -/
  | statement (bracket : Bracket)
  /-- Statements that are neither separated nor closed. -/
  | statementEnd (bracket : Bracket)
  /-- A block that the input leaves open, with the place of its opening bracket. -/
  | unclosed (bracket : Bracket) (opened : Location)
  /-- Something after the end of the expression. -/
  | trailing
  /-- More open brackets, values of bindings and bodies of functions than are allowed. -/
  | nesting
deriving DecidableEq, Repr

namespace Problem

/-- The kinds of token that would have been accepted. -/
def expected : Problem → List Kind
  | .expression | .valueFor _ | .functionBody => Kind.expressionStarts
  | .nameAfter _ | .parameterName => [.symbol]
  | .operator | .operand => Kind.operandStarts
  | .parameterEnd => [.punctuation .comma, .punctuation .closeParen]
  | .statement b => Kind.expressionStarts ++ [.punctuation b.closer]
  | .statementEnd b | .unclosed b _ => [.punctuation .semicolon, .punctuation b.closer]
  | .trailing => [.endOfInput]
  | .nesting => []

/-- Puts a name into an ascending list of names. -/
def insertName (name : String) : List String → List String
  | [] => [name]
  | other :: names =>
    if name ≤ other then name :: other :: names else other :: insertName name names

/-- The names of the accepted kinds: in ascending order, but for a block that is not closed
    the separator before the closing bracket. -/
def expectedNames (p : Problem) : List String :=
  let names := p.expected.map Kind.describe
  match p with
  | .unclosed _ _ => names
  | _ => names.foldr insertName []

/-- What is wrong, without the token that was found. -/
def headline : Problem → String
  | .expression => "Expected an expression"
  | .nameAfter k => "Expected a name after " ++ (Kind.keyword k).describe
  | .valueFor name => "Expected a value for '" ++ name ++ "'"
  | .operator => "Expected an operator after '\x60'"
  | .operand => "Expected an operand"
  | .functionBody => "Expected a function body"
  | .parameterName => "Expected a parameter name"
  | .parameterEnd => "Expected ',' or ')' in parameter list"
  | .statement _ => "Expected a statement"
  | .statementEnd b => "Expected ';' or " ++ (Kind.punctuation b.closer).describe ++ " in block"
  | .unclosed b opened =>
    "Unclosed delimiter " ++ (Kind.punctuation b.opener).describe ++ " opened at " ++ opened.text
  | .trailing => "Unexpected token after expression"
  | .nesting => "Expression nested too deeply"

/-- Alternatives in words: the only one, or `one of` all of them. -/
def alternatives : List String → String
  | [name] => name
  | names => "one of " ++ String.intercalate ", " names

/-- What is wrong, with the token that was found and the kinds that would have been
    accepted. -/
def message (p : Problem) (found : Token) : String :=
  match p, p.expectedNames with
  | .unclosed _ _, _ => p.headline
  | _, [] => p.headline ++ "; found " ++ found.shape.describe
  | _, names =>
    p.headline ++ "; found " ++ found.shape.describe ++ ", expected " ++ alternatives names

end Problem

/-- A token that the grammar has no place for. -/
structure SyntaxError where
  problem : Problem
  found : Token
  /-- The line in which the token stands, while it was at hand. -/
  sourceLine : Option String
deriving DecidableEq, Repr

/-- Why a text is no program. -/
inductive ParseError where
  | scan (error : ScanError)
  | syntactic (error : SyntaxError)
deriving DecidableEq, Repr

namespace LexicalError

/-- The fault as it is shown. -/
def report (e : LexicalError) : Report :=
  { message := e.fault.message, location := some e.location, sourceLine := some e.sourceLine }

end LexicalError

namespace SyntaxError

/-- The refused token as it is shown. -/
def report (e : SyntaxError) : Report :=
  { message := e.problem.message e.found, location := some e.found.location,
    sourceLine := e.sourceLine }

end SyntaxError

end Juxta
