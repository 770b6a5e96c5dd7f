/-
  Juxta/Grammar/Productions.lean
  ==============================
  **The grammar of expressions** — juxtaposition binds loosest, then the steps of a chain,
  then the mark `!`:

      program     =  expression, end of input
      expression  =  ("let" | "letrec") symbol expression  |  application
      application =  chained chained*
      chained     =  invoked ("\x60" invoked invoked*)*
      invoked     =  operand "!"*
      operand     =  literal | symbol | function | block
      function    =  "fn" symbol? ("(" (symbol ("," symbol)*)? ")")? (braces | expression)
      block       =  "(" statements? ")"  |  "{" statements? "}"
      statements  =  expression (";" expression)* ";"?

  Every repetition takes as many items as the next token allows, and after `fn` a symbol
  is always the name and an opening parenthesis always begins the parameters, so that no
  choice is ever taken back.  A block in parentheses around a single statement that is no
  binding and has no `;` is a grouping and stands for the statement itself; a chain on a
  grouped chain goes on with it.

  The productions are written over the reader of a nested expression, which they use for
  the statements of a block, the value of a binding and the body of a function.
  `expression` ties them together and counts how deeply expressions are nested.
-/
import Juxta.Grammar.Error
import Juxta.Token.Supply

namespace Juxta.Grammar

/-- A computation that takes tokens from a supply.  What it has taken stays taken when it
    fails. -/
abbrev Reader (σ : Type) := EStateM ParseError σ

variable {σ α : Type} [TokenSupply σ]

/-! ### Looking at tokens and taking them -/

/-- The next token, which stays in place. -/
def peek : Reader σ Token := EStateM.adaptExcept .scan TokenSupply.peek

/-- Takes the next token. -/
def take : Reader σ Token := EStateM.adaptExcept .scan TokenSupply.next

/-- Whether the next token is of one of the given kinds. -/
def nextIs (kinds : Kind → Bool) : Reader σ Bool := do
  return kinds (← peek).kind

/-- Fails at the next token. -/
def refuse (problem : Problem) : Reader σ α := do
  let found ← peek
  let tokens ← get
  throw (.syntactic ⟨problem, found, TokenSupply.lineText? tokens found.location.line⟩)

/-- Takes the next token if it is of the given kind, and tells whether it was. -/
def accept (kind : Kind) : Reader σ Bool := do
  if ← nextIs (· == kind) then
    let _ ← take
    return true
  else return false

/-- Takes the name that has to come next. -/
def name (problem : Problem) : Reader σ String := do
  match (← peek).shape with
  | .symbol name =>
    let _ ← take
    return name
  | _ => refuse problem

/-- Reads items, at most `n`, as long as the next token can begin one. -/
def manyUpTo (begins : Kind → Bool) (item : Reader σ α) : (n : Nat) → Reader σ (List α)
  | 0 => pure []
  | n + 1 => do
    if ← nextIs begins then
      let first ← item
      return first :: (← manyUpTo begins item n)
    else return []

/-- Reads items as long as the next token can begin one.  An item takes at least one
    token, so that there are no more items than tokens. -/
def many (begins : Kind → Bool) (item : Reader σ α) : Reader σ (List α) := do
  let tokens ← get
  manyUpTo begins item (TokenSupply.bound tokens)

/-! ### Functions and blocks -/

/-- The parameters after the opening parenthesis and up to the closing one, at most `n` of
    them. -/
def parametersUpTo : (n : Nat) → Reader σ (List String)
  | 0 => pure []
  | n + 1 => do
    let first ← name .parameterName
    if ← accept (.punctuation .closeParen) then return [first]
    else if ← accept (.punctuation .comma) then return first :: (← parametersUpTo n)
    else refuse .parameterEnd

/-- The parameters of a function, if an opening parenthesis comes next. -/
def parameters : Reader σ (List String) := do
  if ← accept (.punctuation .openParen) then
    if ← accept (.punctuation .closeParen) then return []
    else
      let tokens ← get
      parametersUpTo (TokenSupply.bound tokens + 1)
  else return []

/-- One statement of a block. -/
def statement (nested : Reader σ Expr) (bracket : Bracket) : Reader σ Expr := do
  if ← nextIs Kind.startsExpression then nested else refuse (.statement bracket)

/-- What follows a statement of a block: more statements, each after a `;`, at most `n` of
    them.  The first component tells whether there was a `;`. -/
def moreStatements (nested : Reader σ Expr) (bracket : Bracket) :
    (n : Nat) → Reader σ (Bool × List Expr)
  | 0 => pure (false, [])
  | n + 1 => do
    if ← accept (.punctuation .semicolon) then
      if ← nextIs (· == .punctuation bracket.closer) then return (true, [])
      else
        let first ← statement nested bracket
        let (_, later) ← moreStatements nested bracket n
        return (true, first :: later)
    else return (false, [])

/-- The statements between two brackets, and whether there was a `;` among them. -/
def statements (nested : Reader σ Expr) (bracket : Bracket) : Reader σ (Bool × List Expr) := do
  if ← nextIs (· == .punctuation bracket.closer) then return (false, [])
  else
    let first ← statement nested bracket
    let tokens ← get
    let (separated, later) ← moreStatements nested bracket (TokenSupply.bound tokens)
    return (separated, first :: later)

/-- What the statements between two brackets are: a block, or, for a single statement in
    parentheses that is no binding and has no `;`, that statement. -/
def blockOf (bracket : Bracket) (separated : Bool) (statements : List Expr)
    (location : Location) : Expr :=
  match bracket, separated, statements with
  | .paren, false, [e] => if e.isAssignment then .block .paren [e] (some location) else e
  | _, _, _ => .block bracket statements (some location)

/-- A block whose opening bracket comes next. -/
def block (nested : Reader σ Expr) (bracket : Bracket) : Reader σ Expr := do
  let opening ← take
  let (separated, body) ← statements nested bracket
  if ← nextIs (· == .endOfInput) then refuse (.unclosed bracket opening.location)
  else if ← accept (.punctuation bracket.closer) then
    return blockOf bracket separated body opening.location
  else refuse (.statementEnd bracket)

/-- The name of a function, if a symbol comes next. -/
def functionName : Reader σ (Option String) := do
  match (← peek).shape with
  | .symbol name =>
    let _ ← take
    return some name
  | _ => return none

/-- The body of a function: one block in braces, or an expression as far as it goes. -/
def functionBody (nested : Reader σ Expr) : Reader σ Expr := do
  if ← nextIs (· == .punctuation .openBrace) then block nested .brace
  else if ← nextIs Kind.startsExpression then nested
  else refuse .functionBody

/-- A function whose keyword comes next. -/
def function (nested : Reader σ Expr) : Reader σ Expr := do
  let keyword ← take
  let name ← functionName
  let params ← parameters
  let body ← functionBody nested
  return .function name params body (some keyword.location)

/-! ### Operands and what is applied to them -/

/-- A literal, a symbol, a function or a block. -/
def operand (nested : Reader σ Expr) : Reader σ Expr := do
  let token ← peek
  match token.shape with
  | .symbol name =>
    let _ ← take
    return .symbol name (some token.location)
  | .keyword .function => function nested
  | .punctuation .openBrace => block nested .brace
  | .punctuation .openParen => block nested .paren
  | shape =>
    match shape.literal? with
    | some value =>
      let _ ← take
      return .literal value (some token.location)
    | none => refuse .operand

/-- An operand with a call without arguments for each `!` after it. -/
def invoked (nested : Reader σ Expr) : Reader σ Expr := do
  let target ← operand nested
  let marks ← many (· == .punctuation .bang) take
  return marks.foldl (fun e _ => .invocation e e.location) target

/-- One step of a chain, whose backtick comes next. -/
def step (nested : Reader σ Expr) : Reader σ Step := do
  let _ ← take
  if ← nextIs Kind.startsOperand then
    let operator ← invoked nested
    let extra ← many Kind.startsOperand (invoked nested)
    return .mk operator extra
  else refuse .operator

/-- The seed with the steps after it; a seed that is a chain itself goes on. -/
def chainOf (seed : Expr) (steps : List Step) : Expr :=
  match steps, seed with
  | [], _ => seed
  | _, .chain first earlier location => .chain first (earlier ++ steps) location
  | _, _ => .chain seed steps seed.location

/-- An operand with the steps after it. -/
def chained (nested : Reader σ Expr) : Reader σ Expr := do
  let seed ← invoked nested
  let steps ← many (· == .punctuation .backtick) (step nested)
  return chainOf seed steps

/-- The callee with the arguments after it, if there are any. -/
def callOf (callee : Expr) (arguments : List Expr) : Expr :=
  match arguments with
  | [] => callee
  | _ => .call callee arguments callee.location

/-- Chained operands one after another: the first is called on the others. -/
def application (nested : Reader σ Expr) : Reader σ Expr := do
  let callee ← chained nested
  let arguments ← many Kind.startsOperand (chained nested)
  return callOf callee arguments

/-! ### Expressions and programs -/

/-- A binding with the given keyword, which comes next. -/
def assignment (nested : Reader σ Expr) (keyword : Keyword) : Reader σ Expr := do
  let token ← take
  let bound ← name (.nameAfter keyword)
  if ← nextIs Kind.startsExpression then
    let value ← nested
    return .assignment (keyword == .recursiveBinding) bound value (some token.location)
  else refuse (.valueFor bound)

/-- An expression, over the reader of a nested one. -/
def expressionOver (nested : Reader σ Expr) : Reader σ Expr := do
  match (← peek).kind with
  | .keyword .binding => assignment nested .binding
  | .keyword .recursiveBinding => assignment nested .recursiveBinding
  | _ => application nested

/-- An expression with at most `depth` expressions nested in each other. -/
def expression : (depth : Nat) → Reader σ Expr
  | 0 => refuse .nesting
  | depth + 1 => expressionOver (expression depth)

/-- A whole program with at most `depth` expressions nested in each other. -/
def program (depth : Nat) : Reader σ Expr := do
  if ← nextIs Kind.startsExpression then
    let e ← expression depth
    if ← nextIs (· == .endOfInput) then return e else refuse .trailing
  else refuse .expression

/-- How many expressions may be nested in each other. -/
def depthLimit : Nat := 200

end Juxta.Grammar
