/-
  Juxta/Proofs/Grammar/Statements.lean
  ====================================
  **Statements one after another** — tokens that are read as an expression in front of whatever
  stops one (`ReadsExpression`) can be a statement, for a `;` and a closing bracket stop every
  expression.  From such statements a block is put together, and it can stand in front of
  anything (`ReadsStatements.exists_block`); a binding of one is an expression again.
-/
import Juxta.Proofs.Grammar.Operands

namespace Juxta.Grammar

open TokenList

variable {nested : Reader (List Token) Expr} {t u c : Token} {ts us vs : List Token}
  {e x : Expr} {xs : List Expr} {b : Bracket} {separated : Bool}

/-- The tokens are read as the tree, up to locations, in front of whatever stops an expression. -/
def ReadsExpression (nested : Reader (List Token) Expr) (ts : List Token) (e : Expr) : Prop :=
  ∀ ⦃rest⦄, Stops rest → Kind.startsExpression (kind (ts ++ rest)) = true ∧
    ∃ e', nested (ts ++ rest) = .ok e' rest ∧ e'.unlocated = e.unlocated

/-- The tokens are what follows a statement of a block, up to the closing bracket. -/
def ReadsLater (nested : Reader (List Token) Expr) (b : Bracket) (ts : List Token)
    (separated : Bool) (xs : List Expr) : Prop :=
  ∀ ⦃rest⦄, kind rest = .punctuation b.closer →
    ∃ xs', Later nested b (ts ++ rest) (separated, xs') rest ∧
      xs'.map Expr.unlocated = xs.map Expr.unlocated

/-- The tokens are the statements of a block, up to the closing bracket. -/
def ReadsStatements (nested : Reader (List Token) Expr) (b : Bracket) (ts : List Token)
    (separated : Bool) (xs : List Expr) : Prop :=
  ∀ ⦃rest⦄, kind rest = .punctuation b.closer →
    ∃ xs', Statements nested b (ts ++ rest) (separated, xs') rest ∧
      xs'.map Expr.unlocated = xs.map Expr.unlocated

theorem readsLater_nil : ReadsLater nested b [] false [] :=
  fun _ hrest => ⟨[], .done hrest, rfl⟩

theorem readsLater_trailing (ht : t.kind = .punctuation .semicolon) :
    ReadsLater nested b [t] true [] :=
  fun _ hrest => ⟨[], .trailing ht hrest, rfl⟩

theorem ReadsLater.cons (h : ReadsLater nested b vs separated xs)
    (ht : t.kind = .punctuation .semicolon) (hx : ReadsExpression nested us x) :
    ReadsLater nested b (t :: (us ++ vs)) true (x :: xs) := by
  intro rest hrest
  obtain ⟨xs', hlater, hsame⟩ := h hrest
  obtain ⟨hstart, x', hx', hsame'⟩ := hx hlater.stops
  refine ⟨x' :: xs', ?_, by rw [List.map_cons, List.map_cons, hsame, hsame']⟩
  rw [List.cons_append, List.append_assoc]
  exact .more ht hstart hx' hlater

theorem readsStatements_nil : ReadsStatements nested b [] false [] :=
  fun _ hrest => ⟨[], .none hrest, rfl⟩

theorem ReadsLater.statements (h : ReadsLater nested b vs separated xs)
    (hx : ReadsExpression nested us x) :
    ReadsStatements nested b (us ++ vs) separated (x :: xs) := by
  intro rest hrest
  obtain ⟨xs', hlater, hsame⟩ := h hrest
  obtain ⟨hstart, x', hx', hsame'⟩ := hx hlater.stops
  refine ⟨x' :: xs', ?_, by rw [List.map_cons, List.map_cons, hsame, hsame']⟩
  rw [List.append_assoc]
  exact .some hstart hx' hlater

theorem blockOf_eq_block {b : Bracket} {s : Bool} {xs : List Expr} (l : Location)
    (h : b = .brace ∨ s = true ∨ xs.length ≠ 1 ∨ ∃ x ∈ xs, x.isAssignment = true) :
    blockOf b s xs l = .block b xs (some l) := by
  unfold blockOf
  split
  · rename_i e
    rcases h with h | h | h | ⟨x, hx, ha⟩
    · cases h
    · cases h
    · exact absurd rfl h
    · rw [List.mem_singleton] at hx
      rw [← hx, ha, if_pos rfl]
  · rfl

/-- Statements between two brackets, in front of anything. -/
theorem ReadsStatements.exists_block (hn : Takes nested (Builds .expression))
    (h : ReadsStatements nested b ts separated xs) (ht : t.kind = .punctuation b.opener)
    (hc : c.kind = .punctuation b.closer) (l : Location) (rest : List Token) :
    ∃ e, block nested b (t :: (ts ++ [c]) ++ rest) = .ok e rest ∧
      e.unlocated = (blockOf b separated xs l).unlocated := by
  have hcloser : kind (c :: rest) = .punctuation b.closer := hc
  obtain ⟨xs', hstatements, hsame⟩ := h hcloser
  refine ⟨blockOf b separated xs' t.location, ?_, unlocated_blockOf_congr l t.location hsame⟩
  have hassoc : t :: (ts ++ [c]) ++ rest = t :: (ts ++ c :: rest) := by simp
  rw [hassoc]
  exact block_eq_ok hn ht hstatements

/-! ### Expressions -/

/-- An operand is an expression by itself. -/
theorem ReadsOperand.readsExpression (hn : Takes nested (Builds .expression))
    (h : ReadsOperand nested ts e) : ReadsExpression (expressionOver nested) ts e := by
  intro rest hrest
  have hstart := h.startsOperand rest
  obtain ⟨e', he', hsame⟩ := h.exists_invoked hrest.bang
  refine ⟨startsExpression_of_startsOperand hstart, e', ?_, hsame⟩
  rw [expressionOver_of_startsOperand hstart]
  exact application_of_invoked hn he' hrest

/-- A binding of what is read as an expression. -/
theorem ReadsExpression.binding {k : Keyword} {n : String} (h : ReadsExpression nested ts e)
    (ht : t.kind = .keyword k) (hk : k ≠ .function) (hu : u.shape = .symbol n)
    (l : Option Location) :
    ReadsExpression (expressionOver nested) (t :: u :: ts)
      (.assignment (k == .recursiveBinding) n e l) := by
  intro rest hrest
  obtain ⟨hstart, e', he', hsame⟩ := h hrest
  have hkind : kind (t :: u :: ts ++ rest) = .keyword k := ht
  refine ⟨?_, .assignment (k == .recursiveBinding) n e' (some t.location), ?_, ?_⟩
  · rw [hkind]
    cases k <;> rfl
  · rw [expressionOver_binding hk hkind]
    exact assignment_eq_ok ht hu hstart he'
  · rw [Expr.unlocated, Expr.unlocated, hsame]

end Juxta.Grammar
