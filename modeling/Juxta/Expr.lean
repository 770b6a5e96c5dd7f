/-
  Juxta/Expr.lean
  ===============
  **Expression trees** — a program is one expression.  There are literals and names,
  function definitions, blocks of statements, bindings, and three forms of application:
  a call of a function on arguments written one after another, a chain of steps that each
  hand the running value to an operator, and a call without arguments.

  Every node may carry the location it was read from.  Locations take no part in the
  equality of trees, `Expr.same`; `Expr.unlocated` removes them.
-/
import Juxta.Token

namespace Juxta

/-- The brackets around a block.  Braces open a scope of their own, parentheses do not. -/
inductive Bracket where
  | brace
  | paren
deriving DecidableEq, Repr

namespace Bracket

/-- The mark that opens a block. -/
def opener : Bracket → Punctuation
  | .brace => .openBrace
  | .paren => .openParen

/-- The mark that closes a block. -/
def closer : Bracket → Punctuation
  | .brace => .closeBrace
  | .paren => .closeParen

end Bracket

mutual

/-- An expression. -/
inductive Expr where
  /-- A literal value. -/
  | literal (value : Literal) (location : Option Location)
  /-- A reference to a name. -/
  | symbol (name : String) (location : Option Location)
  /-- A function, which may have a name. -/
  | function (name : Option String) (parameters : List String) (body : Expr)
      (location : Option Location)
  /-- Statements in order, in brackets. -/
  | block (bracket : Bracket) (statements : List Expr) (location : Option Location)
  /-- A binding of a name; `recursive` when the name is known in its own value. -/
  | assignment (recursive : Bool) (name : String) (value : Expr) (location : Option Location)
  /-- A call on arguments. -/
  | call (callee : Expr) (arguments : List Expr) (location : Option Location)
  /-- A seed value that is handed on from step to step. -/
  | chain (seed : Expr) (steps : List Step) (location : Option Location)
  /-- A call without arguments. -/
  | invocation (target : Expr) (location : Option Location)

/-- A step of a chain: an operator and the arguments after the running value. -/
inductive Step where
  | mk (operator : Expr) (extra : List Expr)

end

namespace Step

/-- The operator of a step. -/
def operator : Step → Expr
  | .mk operator _ => operator

/-- The arguments of a step after the running value. -/
def extra : Step → List Expr
  | .mk _ extra => extra

end Step

namespace Expr

instance : Inhabited Expr := ⟨.block .paren [] none⟩

/-- Where an expression was read. -/
def location : Expr → Option Location
  | .literal _ l | .symbol _ l | .function _ _ _ l | .block _ _ l | .assignment _ _ _ l
  | .call _ _ l | .chain _ _ l | .invocation _ l => l

/-- Whether an expression is a binding. -/
def isAssignment : Expr → Bool
  | .assignment .. => true
  | _ => false

/-- Whether an expression is a block in braces. -/
def isBraceBlock : Expr → Bool
  | .block .brace _ _ => true
  | _ => false

/-- A call on the given arguments; there has to be one. -/
def call? (callee : Expr) (arguments : List Expr) (location : Option Location) : Option Expr :=
  if arguments.isEmpty then none else some (.call callee arguments location)

/-- What the omission of arguments in a call is answered with. -/
def emptyCallMessage : String := "Call requires at least one argument"

/-- The statement that gives a block its value, if it has statements; `none` for what is
    not a block. -/
def result? : Expr → Option (Option Expr)
  | .block _ statements _ => some statements.getLast?
  | _ => none

mutual

/-- Equality of trees, locations aside. -/
def same : Expr → Expr → Bool
  | .literal a _, .literal b _ => a.same b
  | .symbol a _, .symbol b _ => a == b
  | .function a ps x _, .function b qs y _ => a == b && ps == qs && same x y
  | .block a xs _, .block b ys _ => a == b && sameAll xs ys
  | .assignment r a x _, .assignment s b y _ => r == s && a == b && same x y
  | .call f xs _, .call g ys _ => same f g && sameAll xs ys
  | .chain x ss _, .chain y ts _ => same x y && sameSteps ss ts
  | .invocation x _, .invocation y _ => same x y
  | _, _ => false

/-- Equality of sequences of trees. -/
def sameAll : List Expr → List Expr → Bool
  | [], [] => true
  | x :: xs, y :: ys => same x y && sameAll xs ys
  | _, _ => false

/-- Equality of sequences of steps. -/
def sameSteps : List Step → List Step → Bool
  | [], [] => true
  | .mk p xs :: ss, .mk q ys :: ts => same p q && sameAll xs ys && sameSteps ss ts
  | _, _ => false

end

mutual

/-- The tree without its locations. -/
def unlocated : Expr → Expr
  | .literal v _ => .literal v none
  | .symbol n _ => .symbol n none
  | .function n ps x _ => .function n ps (unlocated x) none
  | .block s xs _ => .block s (unlocatedAll xs) none
  | .assignment r n x _ => .assignment r n (unlocated x) none
  | .call f xs _ => .call (unlocated f) (unlocatedAll xs) none
  | .chain x ss _ => .chain (unlocated x) (unlocatedSteps ss) none
  | .invocation x _ => .invocation (unlocated x) none

/-- The trees without their locations. -/
def unlocatedAll : List Expr → List Expr
  | [] => []
  | x :: xs => unlocated x :: unlocatedAll xs

/-- The steps without their locations. -/
def unlocatedSteps : List Step → List Step
  | [] => []
  | .mk p xs :: ss => .mk (unlocated p) (unlocatedAll xs) :: unlocatedSteps ss

end

mutual

/-- The number of nodes on the longest way from the root to a leaf. -/
def depth : Expr → Nat
  | .literal _ _ | .symbol _ _ => 1
  | .function _ _ x _ => depth x + 1
  | .block _ xs _ => depthAll xs + 1
  | .assignment _ _ x _ => depth x + 1
  | .call f xs _ => max (depth f) (depthAll xs) + 1
  | .chain x ss _ => max (depth x) (depthSteps ss) + 1
  | .invocation x _ => depth x + 1

/-- The greatest depth among trees. -/
def depthAll : List Expr → Nat
  | [] => 0
  | x :: xs => max (depth x) (depthAll xs)

/-- The greatest depth among the trees of steps. -/
def depthSteps : List Step → Nat
  | [] => 0
  | .mk p xs :: ss => max (max (depth p) (depthAll xs)) (depthSteps ss)

end

end Expr

end Juxta
