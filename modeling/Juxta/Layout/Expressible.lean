/-
  Juxta/Layout/Expressible.lean
  =============================
  **Trees that have a written form** — not every tree can be written down as a program.
  A node stands in the way when

    * it is a binding and serves as callee, argument, seed, operator or target of an
      application;
    * it is a truth value, a negative whole number, a decimal number that is negative,
      infinite or undefined, or a text that holds both quote marks.

  `blemish?` finds the first such node in the order of the source.  A tree without one is
  written by `Layout.render`.
-/
import Juxta.Expr
import Juxta.Report

namespace Juxta

/-- Why a tree has no written form. -/
inductive FormatProblem where
  /-- A binding in the place of an operand. -/
  | bindingAsOperand (name : String)
  | truthValue (value : Bool)
  | negativeInteger (value : Int)
  | decimal (value : Binary64)
  /-- A text that holds both quote marks. -/
  | bothQuotes
  /-- A tree that is deeper than the writer goes. -/
  | depth
deriving DecidableEq, Repr

namespace FormatProblem

/-- What is wrong. -/
def message : FormatProblem → String
  | .bindingAsOperand name => "Binding of '" ++ name ++ "' cannot be written as an operand"
  | .truthValue b => "Unsupported literal value: " ++ (Literal.truth b).written
  | .negativeInteger n => "Negative literal has no source form: " ++ (Literal.integer n).written
  | .decimal x => "Decimal literal has no source form: " ++ (Literal.decimal x).written
  | .bothQuotes => "String contains both quote characters"
  | .depth => "Expression nested too deeply to format"

end FormatProblem

/-- Why a tree has no written form, and the place of the node that is to blame. -/
structure FormatError where
  problem : FormatProblem
  location : Option Location
deriving DecidableEq, Repr

namespace FormatError

/-- The error as it is shown. -/
def report (e : FormatError) : Report :=
  { message := e.problem.message, location := e.location }

end FormatError

namespace Literal

/-- What keeps a literal from being written, if anything does. -/
def problem? : Literal → Option FormatProblem
  | .integer n => if n < 0 then some (.negativeInteger n) else none
  | .decimal x => if !x.isFinite || x.isNegative then some (.decimal x) else none
  | .text s => if s.contains '"' && s.contains '\'' then some .bothQuotes else none
  | .truth b => some (.truthValue b)

end Literal

namespace Expr

/-- What keeps a node from being an operand: that it is a binding, or else what was found
    in it. -/
def operandBlemish? (e : Expr) (inside : Option FormatError) : Option FormatError :=
  match e with
  | .assignment _ name _ location => some ⟨.bindingAsOperand name, location⟩
  | _ => inside

mutual

/-- The first node, in the order of the source, that has no written form in its place. -/
def blemish? : Expr → Option FormatError
  | .literal v location => v.problem?.map (⟨·, location⟩)
  | .symbol _ _ => none
  | .function _ _ body _ => blemish? body
  | .block _ xs _ => blemishAll? xs
  | .assignment _ _ value _ => blemish? value
  | .call f xs _ => (f.operandBlemish? (blemish? f)).or (blemishOperands? xs)
  | .chain seed steps _ => (seed.operandBlemish? (blemish? seed)).or (blemishSteps? steps)
  | .invocation target _ => target.operandBlemish? (blemish? target)

/-- The first such node among statements. -/
def blemishAll? : List Expr → Option FormatError
  | [] => none
  | x :: xs => (blemish? x).or (blemishAll? xs)

/-- The first such node among operands. -/
def blemishOperands? : List Expr → Option FormatError
  | [] => none
  | x :: xs => (x.operandBlemish? (blemish? x)).or (blemishOperands? xs)

/-- The first such node among steps. -/
def blemishSteps? : List Step → Option FormatError
  | [] => none
  | .mk p xs :: ss =>
    ((p.operandBlemish? (blemish? p)).or (blemishOperands? xs)).or (blemishSteps? ss)

end

end Expr

end Juxta
