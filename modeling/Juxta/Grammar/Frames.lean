/-
  Juxta/Grammar/Frames.lean
  =========================
  **Reading on a bounded stack** — the productions of the grammar as calls of one another.  Each
  call takes a frame of the stack, and a repetition takes none; a call for which there is no frame
  is refused like an expression that is nested too deeply.  `readWithin` reads with a number of
  frames as `expression` does with a number of expressions inside each other.

  From an expression to one inside it there are two calls to eight: a binding takes the fewest, a
  function with its body in braces the most.
-/
import Juxta.Program

namespace Juxta.Grammar

/-- The productions that call one another. -/
inductive Production where
  | expression
  | assignment (keyword : Keyword)
  | application
  | chained
  | invoked
  | operand
  | function
  | block (bracket : Bracket)
  | statement (bracket : Bracket)
deriving DecidableEq, Repr

namespace Production

section Bodies

variable {σ : Type} [TokenSupply σ] (call : Production → Reader σ Expr)

/-- One step of a chain, whose backtick comes next. -/
def step : Reader σ Step := do
  let _ ← take
  if ← nextIs Kind.startsOperand then
    let operator ← call .invoked
    let extra ← many Kind.startsOperand (call .invoked)
    return .mk operator extra
  else refuse .operator

/-- What follows a statement of a block, with at most `n` more statements. -/
def moreStatements (bracket : Bracket) : (n : Nat) → Reader σ (Bool × List Expr)
  | 0 => pure (false, [])
  | n + 1 => do
    if ← accept (.punctuation .semicolon) then
      if ← nextIs (· == .punctuation bracket.closer) then return (true, [])
      else
        let first ← call (.statement bracket)
        let (_, later) ← moreStatements bracket n
        return (true, first :: later)
    else return (false, [])

/-- The statements between two brackets, and whether there was a `;` among them. -/
def statements (bracket : Bracket) : Reader σ (Bool × List Expr) := do
  if ← nextIs (· == .punctuation bracket.closer) then return (false, [])
  else
    let first ← call (.statement bracket)
    let tokens ← get
    let (separated, later) ← moreStatements call bracket (TokenSupply.bound tokens)
    return (separated, first :: later)

/-- The body of a function. -/
def functionBody : Reader σ Expr := do
  if ← nextIs (· == .punctuation .openBrace) then call (.block .brace)
  else if ← nextIs Kind.startsExpression then call .expression
  else refuse .functionBody

/-- What a production reads, over the calls that it makes. -/
def body : Production → Reader σ Expr
  | .expression => do
    match (← peek).kind with
    | .keyword .binding => call (.assignment .binding)
    | .keyword .recursiveBinding => call (.assignment .recursiveBinding)
    | _ => call .application
  | .assignment keyword => Grammar.assignment (call .expression) keyword
  | .application => do
    let callee ← call .chained
    let arguments ← many Kind.startsOperand (call .chained)
    return callOf callee arguments
  | .chained => do
    let seed ← call .invoked
    let steps ← many (· == .punctuation .backtick) (step call)
    return chainOf seed steps
  | .invoked => do
    let target ← call .operand
    let marks ← many (· == .punctuation .bang) take
    return marks.foldl (fun e _ => .invocation e e.location) target
  | .operand => do
    let token ← peek
    match token.shape with
    | .symbol name =>
      let _ ← take
      return .symbol name (some token.location)
    | .keyword .function => call .function
    | .punctuation .openBrace => call (.block .brace)
    | .punctuation .openParen => call (.block .paren)
    | shape =>
      match shape.literal? with
      | some value =>
        let _ ← take
        return .literal value (some token.location)
      | none => refuse .operand
  | .function => do
    let keyword ← take
    let name ← functionName
    let params ← parameters
    let body ← functionBody call
    return .function name params body (some keyword.location)
  | .block bracket => do
    let opening ← take
    let (separated, body) ← statements call bracket
    if ← nextIs (· == .endOfInput) then refuse (.unclosed bracket opening.location)
    else if ← accept (.punctuation bracket.closer) then
      return blockOf bracket separated body opening.location
    else refuse (.statementEnd bracket)
  | .statement bracket => Grammar.statement (call .expression) bracket

end Bodies

end Production

variable {σ : Type} [TokenSupply σ]

/-- A production on a stack with room for `frames` calls. -/
def readWithin : (frames : Nat) → Production → Reader σ Expr
  | 0, _ => refuse .nesting
  | frames + 1, p => p.body (readWithin frames)

/-- A whole program on a stack with room for `frames` calls. -/
def programWithin (frames : Nat) : Reader σ Expr := do
  if ← nextIs Kind.startsExpression then
    let e ← readWithin frames .expression
    if ← nextIs (· == .endOfInput) then return e else refuse .trailing
  else refuse .expression

end Juxta.Grammar

namespace Juxta.Program

/-- The tree of a program text, on a stack with room for `frames` calls. -/
def parseWithin (frames : Nat) (text : String) (filename : Option String := none) :
    Except ParseError Expr :=
  match Grammar.programWithin frames (TokenSource.ofText text filename) with
  | .ok e _ => .ok e
  | .error e _ => .error e

end Juxta.Program
