/-
  Juxta/Grammar/Nesting.lean
  ==========================
  **What is open at a token** — going over the tokens of a program from the left, the brackets,
  the values of bindings and the bodies of functions that have begun and not ended are kept on a
  stack.  A bracket ends with the one that closes it.  A value, and a body without braces, goes as
  far as it can: up to a `;` or to the end of what is around it.

  The stack is a matter of the kinds of the tokens alone, and is there for every sequence of
  tokens, whether it begins a program or not.
-/
import Juxta.Token

namespace Juxta.Grammar

/-- Something that has begun and not ended. -/
inductive Unfinished where
  | bracket
  /-- The value of a binding, or the body of a function that is not in braces. -/
  | value
  /-- The body of a function that is in braces, with these. -/
  | braced
  /-- The parameters of a function, with their brackets. -/
  | parameters
  /-- A binding whose name comes next. -/
  | binding
  /-- A binding whose value comes next. -/
  | bound
  /-- A function, behind its keyword. -/
  | function
  /-- A function, behind its name. -/
  | named
  /-- A function, behind its parameters. -/
  | signed
deriving DecidableEq, Repr

namespace Unfinished

/-- How many brackets, values and bodies it stands for. -/
def weight : Unfinished → Nat
  | .bracket | .value | .parameters => 1
  | .braced => 2
  | .binding | .bound | .function | .named | .signed => 0

/-- Whether it is the beginning of a binding or of a function, up to its value or its body. -/
def isHeading : Unfinished → Bool
  | .bracket | .value | .braced => false
  | .parameters | .binding | .bound | .function | .named | .signed => true

end Unfinished

/-- How many brackets, values and bodies are on the stack. -/
def height : List Unfinished → Nat
  | [] => 0
  | i :: S => i.weight + height S

/-- Drops the values that end where something around them goes on. -/
def dropValues (S : List Unfinished) : List Unfinished := S.dropWhile (· == .value)

/-- What is open behind a token in an expression. -/
def inside (k : Kind) (S : List Unfinished) : List Unfinished :=
  match k with
  | .keyword .binding | .keyword .recursiveBinding => .binding :: S
  | .keyword .function => .function :: S
  | .punctuation .openParen | .punctuation .openBrace => .bracket :: S
  | .punctuation .closeParen | .punctuation .closeBrace => (dropValues S).tail
  | .punctuation .semicolon => dropValues S
  | _ => S

/-- What is open behind the first token of the body of a function. -/
def insideBody (k : Kind) (S : List Unfinished) : List Unfinished :=
  if k = .punctuation .openBrace then .braced :: S else inside k (.value :: S)

/-- What is open behind a token. -/
def advance (k : Kind) : List Unfinished → List Unfinished
  | .binding :: S => if k = .symbol then .bound :: S else inside k (.value :: S)
  | .bound :: S => inside k (.value :: S)
  | .function :: S =>
    if k = .symbol then .named :: S
    else if k = .punctuation .openParen then .parameters :: S
    else insideBody k S
  | .named :: S => if k = .punctuation .openParen then .parameters :: S else insideBody k S
  | .parameters :: S => if k = .punctuation .closeParen then .signed :: S else .parameters :: S
  | .signed :: S => insideBody k S
  | S => inside k S

/-- What is open behind some tokens. -/
def advanceAll (S : List Unfinished) (ts : List Token) : List Unfinished :=
  ts.foldl (fun S t => advance t.kind S) S

/-- How many brackets, values of bindings and bodies of functions are open behind the tokens that
    begin a program. -/
def opened (ts : List Token) : Nat := height (advanceAll [] ts)

end Juxta.Grammar
