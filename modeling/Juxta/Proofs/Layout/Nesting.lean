/-
  Juxta/Proofs/Layout/Nesting.lean
  ================================
  **How deeply a canonical text is nested** — reading a text goes one expression deeper for each
  statement of a block, value of a binding and body of a function without braces, and for what
  stands in parentheses.  `Layout.nesting` is the number of expressions that are inside each other
  in the text of a tree: it counts the parentheses that the layout puts around operands and
  bodies, which need not be in the text that the tree was read from.
-/
import Juxta.Proofs.Layout.Shapes

namespace Juxta

namespace Layout

/-- Levels of a tree in the place of an operand, from those of the tree. -/
def operandNesting (e : Expr) (n : Nat) : Nat := if isClosed e then n else n + 1

/-- Levels of a tree in the place of the last argument. -/
def lastArgumentNesting (e : Expr) (n : Nat) : Nat :=
  match e with
  | .chain .. => n
  | _ => operandNesting e n

/-- Levels of the body of a function: braces belong to the function, any other body is an
    expression inside it, and may stand in parentheses. -/
def bodyNesting (body : Expr) (n : Nat) : Nat :=
  if body.isBraceBlock then n
  else if (shapes body).head? == some (.punctuation .openBrace) then n + 2
  else n + 1

mutual

/-- How many expressions are inside each other in the text of a tree. -/
def nesting : Expr → Nat
  | .literal _ _ | .symbol _ _ => 1
  | .function _ _ body _ => bodyNesting body (nesting body)
  | .block _ xs _ => nestingAll xs + 1
  | .assignment _ _ value _ => nesting value + 1
  | .call f xs _ => max (operandNesting f (nesting f)) (argumentNesting xs)
  | .chain seed steps _ => max (operandNesting seed (nesting seed)) (stepNesting steps)
  | .invocation target _ => operandNesting target (nesting target)

/-- The greatest number for several trees. -/
def nestingAll : List Expr → Nat
  | [] => 0
  | x :: xs => max (nesting x) (nestingAll xs)

/-- The greatest number for the arguments of a call. -/
def argumentNesting : List Expr → Nat
  | [] => 0
  | x :: xs =>
    max (if xs.isEmpty then lastArgumentNesting x (nesting x) else operandNesting x (nesting x))
      (argumentNesting xs)

/-- The greatest number for several operands. -/
def operandNestingAll : List Expr → Nat
  | [] => 0
  | x :: xs => max (operandNesting x (nesting x)) (operandNestingAll xs)

/-- The greatest number for steps. -/
def stepNesting : List Step → Nat
  | [] => 0
  | .mk p xs :: ss =>
    max (max (operandNesting p (nesting p)) (operandNestingAll xs)) (stepNesting ss)

end

theorem le_operandNesting (e : Expr) (n : Nat) : n ≤ operandNesting e n := by
  unfold operandNesting
  split <;> omega

theorem operandNesting_le (e : Expr) (n : Nat) : operandNesting e n ≤ n + 1 := by
  unfold operandNesting
  split <;> omega

theorem le_bodyNesting (body : Expr) (n : Nat) : n ≤ bodyNesting body n := by
  unfold bodyNesting
  split
  · exact Nat.le_refl n
  · split <;> omega

theorem nesting_pos (e : Expr) : 0 < nesting e := by
  induction e using Expr.induction with
  | h e ih =>
    cases e with
    | literal | symbol | block | assignment => exact Nat.succ_pos _
    | function name ps body l =>
      exact Nat.lt_of_lt_of_le (ih body (by simp [Expr.children])) (le_bodyNesting body _)
    | call f xs l =>
      have hf := ih f (by simp [Expr.children, Expr.operands])
      exact Nat.lt_of_lt_of_le hf (Nat.le_trans (le_operandNesting f _) (Nat.le_max_left _ _))
    | chain seed ss l =>
      have hseed := ih seed (by simp [Expr.children, Expr.operands])
      exact Nat.lt_of_lt_of_le hseed
        (Nat.le_trans (le_operandNesting seed _) (Nat.le_max_left _ _))
    | invocation target l =>
      have htarget := ih target (by simp [Expr.children, Expr.operands])
      exact Nat.lt_of_lt_of_le htarget (le_operandNesting target _)

theorem argumentNesting_concat (xs : List Expr) (x : Expr) :
    argumentNesting (xs ++ [x]) =
      max (operandNestingAll xs) (lastArgumentNesting x (nesting x)) := by
  induction xs with
  | nil => simp [argumentNesting, operandNestingAll]
  | cons y ys ih => simp [argumentNesting, operandNestingAll, ih, Nat.max_assoc]

end Layout

end Juxta
