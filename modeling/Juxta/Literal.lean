/-
  Juxta/Literal.lean
  ==================
  **Literal values** — the values that a program can write down: whole numbers, decimal
  numbers and texts.  A tree built by hand may also hold truth values and negative
  numbers, which have no written form.

  Two literals are the same when they are of one kind and their values are equal; decimal
  numbers are compared as numbers, so that a zero equals the negative zero.
-/
import Juxta.Decimal.Shortest
import Juxta.Text.Quoted

namespace Juxta

/-- The value of a literal. -/
inductive Literal where
  | integer (value : Int)
  | decimal (value : Binary64)
  | text (value : String)
  | truth (value : Bool)
deriving DecidableEq, Repr

namespace Literal

/-- Equality of literals: of one kind, and equal in value. -/
def same : Literal → Literal → Bool
  | .integer a, .integer b => a == b
  | .decimal a, .decimal b => a.sameNumber b
  | .text a, .text b => a == b
  | .truth a, .truth b => a == b
  | _, _ => false

/-- The form of a value in listings and messages: numbers in digits, texts quoted. -/
def written : Literal → String
  | .integer n => n.repr
  | .decimal x => String.ofList x.written
  | .text s => Text.quote s
  | .truth b => if b then "True" else "False"

end Literal

end Juxta
