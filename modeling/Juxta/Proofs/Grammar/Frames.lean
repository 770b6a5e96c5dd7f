/-
  Juxta/Proofs/Grammar/Frames.lean
  ================================
  **Frames and depths** — a limit on the calls of a reader lies between two limits on the
  expressions inside each other: as a program is read with 8 frames for each expression, if it is
  not refused with as many expressions (`goesDeeper_programWithin`), and, with two frames for each
  expression, it is read as with as many expressions, if it is not refused
  (`programWithin_goesDeeper`).

  `GoesDeeper x y` is the order of limits: on every source `x` and `y` come to the same, or `x`
  refuses to nest any deeper.  It goes through a production when it holds of the calls that the
  production makes (`body_goesDeeper`).
-/
import Juxta.Grammar.Frames
import Juxta.Proofs.Grammar.Fault

namespace Juxta.Grammar

/-! ### The order of limits -/

section Order

variable {α β : Type} {x y : Reader TokenSource α} {b : Bool}

/-- Both come to the same, or the first refuses to nest any deeper. -/
def GoesDeeper (x y : Reader TokenSource α) : Prop :=
  ∀ s, x s = y s ∨ ∃ t l s', x s = .error (.syntactic ⟨.nesting, t, l⟩) s'

theorem goesDeeper_refl (x : Reader TokenSource α) : GoesDeeper x x := by
  intro s
  left
  rfl

theorem GoesDeeper.bind {f g : α → Reader TokenSource β} (hxy : GoesDeeper x y)
    (hfg : ∀ a, GoesDeeper (f a) (g a)) : GoesDeeper (x >>= f) (y >>= g) := by
  intro s
  rcases hxy s with h | ⟨t, l, s', h⟩
  · cases hy : y s with
    | ok a s' =>
      rw [bind_of_ok (h.trans hy), bind_of_ok hy]
      exact hfg a s'
    | error e s' =>
      left
      rw [bind_of_error (h.trans hy), bind_of_error hy]
  · right
    exact ⟨t, l, s', bind_of_error h⟩

theorem goesDeeper_bind (x : Reader TokenSource α) {f g : α → Reader TokenSource β}
    (hfg : ∀ a, GoesDeeper (f a) (g a)) : GoesDeeper (x >>= f) (x >>= g) :=
  (goesDeeper_refl x).bind hfg

theorem GoesDeeper.then (hxy : GoesDeeper x y) (f : α → Reader TokenSource β) :
    GoesDeeper (x >>= f) (y >>= f) :=
  hxy.bind fun a => goesDeeper_refl (f a)

theorem goesDeeper_ite {x' y' : Reader TokenSource α} (hx : GoesDeeper x x')
    (hy : GoesDeeper y y') :
    GoesDeeper (if b then x else y) (if b then x' else y') := by
  cases b with
  | true => exact hx
  | false => exact hy

theorem goesDeeper_many (begins : Kind → Bool) (h : GoesDeeper x y) :
    GoesDeeper (many begins x) (many begins y) := by
  have hupTo : ∀ n, GoesDeeper (manyUpTo begins x n) (manyUpTo begins y n) := by
    intro n
    induction n with
    | zero => exact goesDeeper_refl _
    | succ n ih =>
      apply goesDeeper_bind
      intro going
      apply goesDeeper_ite
      · apply h.bind
        intro first
        exact ih.then _
      · exact goesDeeper_refl _
  intro s
  exact hupTo (TokenSupply.bound s) s

/-- The reader fails as looking at the next token does. -/
def Strict (x : Reader TokenSource α) : Prop :=
  ∀ ⦃s e s'⦄, (peek : Reader TokenSource Token) s = .error e s' → x s = .error e s'

theorem Strict.bind (h : Strict x) (f : α → Reader TokenSource β) : Strict (x >>= f) := by
  intro s e s' hpeek
  exact bind_of_error (h hpeek)

theorem strict_peek : Strict peek := by
  intro s e s' hpeek
  exact hpeek

theorem strict_take : Strict take := by
  intro s e s' hpeek
  change EStateM.adaptExcept ParseError.scan TokenSource.peek s = _ at hpeek
  change EStateM.adaptExcept ParseError.scan TokenSource.next s = _
  unfold EStateM.adaptExcept at hpeek ⊢
  cases h : TokenSource.peek s with
  | ok t s'' =>
    rw [h] at hpeek
    cases hpeek
  | error e' s'' =>
    rw [h] at hpeek
    rw [TokenSource.next, bind_of_error h]
    exact hpeek

theorem strict_nextIs (p : Kind → Bool) : Strict (nextIs p) := strict_peek.bind _

/-- Nothing is read without a frame. -/
theorem goesDeeper_of_strict (h : Strict x) : GoesDeeper (refuse .nesting) x := by
  intro s
  cases hpeek : (peek : Reader TokenSource Token) s with
  | ok t s' =>
    right
    exact ⟨t, _, s', by rw [refuse, bind_of_ok hpeek]; rfl⟩
  | error e s' =>
    left
    rw [h hpeek, refuse, bind_of_error hpeek]

end Order

/-! ### Productions and the calls they make -/

namespace Production

/-- The productions that a production calls. -/
def Calls : Production → Production → Prop
  | .expression, .assignment _ | .expression, .application => True
  | .assignment _, .expression => True
  | .application, .chained | .chained, .invoked | .invoked, .operand => True
  | .operand, .function | .operand, .block _ => True
  | .function, .block _ | .function, .expression => True
  | .block _, .statement _ => True
  | .statement _, .expression => True
  | _, _ => False

/-- The calls that lead from a production to an expression inside it, at the most. -/
def distance : Production → Nat
  | .expression => 0
  | .assignment _ | .statement _ => 1
  | .block _ => 2
  | .function => 3
  | .operand => 4
  | .invoked => 5
  | .chained => 6
  | .application => 7

theorem distance_le (p : Production) : p.distance ≤ 7 := by
  cases p <;> simp [distance]

theorem Calls.distance_lt {p q : Production} (h : p.Calls q) (hp : p ≠ .expression) :
    q.distance < p.distance := by
  cases p <;> cases q <;> simp_all [Calls, distance]

theorem not_calls_expression : ¬ Calls .expression .expression := not_false

end Production

section Bodies

open Production

variable {x y : Production → Reader TokenSource Expr}

theorem moreStatements_goesDeeper (b : Bracket)
    (h : GoesDeeper (x (.statement b)) (y (.statement b))) (n : Nat) :
    GoesDeeper (Production.moreStatements x b n) (Production.moreStatements y b n) := by
  induction n with
  | zero => exact goesDeeper_refl _
  | succ n ih =>
    apply goesDeeper_bind
    intro separated
    apply goesDeeper_ite
    · apply goesDeeper_bind
      intro closed
      apply goesDeeper_ite (goesDeeper_refl _)
      apply h.bind
      intro first
      exact ih.then _
    · exact goesDeeper_refl _

theorem statements_goesDeeper (b : Bracket)
    (h : GoesDeeper (x (.statement b)) (y (.statement b))) :
    GoesDeeper (Production.statements x b) (Production.statements y b) := by
  apply goesDeeper_bind
  intro closed
  apply goesDeeper_ite (goesDeeper_refl _)
  apply h.bind
  intro first
  apply goesDeeper_bind
  intro tokens
  exact (moreStatements_goesDeeper b h _).then _

/-- **Who goes deeper in all calls of a production, goes deeper in it.** -/
theorem body_goesDeeper {p : Production} (h : ∀ q, p.Calls q → GoesDeeper (x q) (y q)) :
    GoesDeeper (p.body x) (p.body y) := by
  cases p with
  | expression =>
    apply goesDeeper_bind
    intro t
    cases t.kind with
    | keyword k =>
      cases k with
      | function => exact h .application trivial
      | binding => exact h (.assignment .binding) trivial
      | recursiveBinding => exact h (.assignment .recursiveBinding) trivial
    | _ => exact h .application trivial
  | assignment k =>
    apply goesDeeper_bind
    intro token
    apply goesDeeper_bind
    intro bound
    apply goesDeeper_bind
    intro starts
    exact goesDeeper_ite ((h .expression trivial).then _) (goesDeeper_refl _)
  | application =>
    apply (h .chained trivial).bind
    intro callee
    exact (goesDeeper_many _ (h .chained trivial)).then _
  | chained =>
    apply (h .invoked trivial).bind
    intro seed
    refine GoesDeeper.then (goesDeeper_many _ ?_) _
    apply goesDeeper_bind
    intro mark
    apply goesDeeper_bind
    intro starts
    apply goesDeeper_ite
    · apply (h .invoked trivial).bind
      intro operator
      exact (goesDeeper_many _ (h .invoked trivial)).then _
    · exact goesDeeper_refl _
  | invoked => exact (h .operand trivial).then _
  | operand =>
    apply goesDeeper_bind
    intro t
    cases t.shape with
    | keyword k =>
      cases k with
      | function => exact h .function trivial
      | _ => exact goesDeeper_refl _
    | punctuation p =>
      cases p with
      | openBrace => exact h (.block .brace) trivial
      | openParen => exact h (.block .paren) trivial
      | _ => exact goesDeeper_refl _
    | _ => exact goesDeeper_refl _
  | function =>
    apply goesDeeper_bind
    intro keyword
    apply goesDeeper_bind
    intro n
    apply goesDeeper_bind
    intro params
    refine GoesDeeper.then ?_ _
    apply goesDeeper_bind
    intro braces
    apply goesDeeper_ite (h (.block .brace) trivial)
    apply goesDeeper_bind
    intro starts
    exact goesDeeper_ite (h .expression trivial) (goesDeeper_refl _)
  | block b =>
    apply goesDeeper_bind
    intro opening
    exact (statements_goesDeeper b (h (.statement b) trivial)).then _
  | statement b =>
    apply goesDeeper_bind
    intro starts
    exact goesDeeper_ite (h .expression trivial) (goesDeeper_refl _)

theorem strict_body {call : Production → Reader TokenSource Expr} (h : ∀ q, Strict (call q))
    (p : Production) : Strict (p.body call) := by
  cases p with
  | expression | operand => exact strict_peek.bind _
  | assignment | function | block => exact strict_take.bind _
  | application => exact (h .chained).bind _
  | chained => exact (h .invoked).bind _
  | invoked => exact (h .operand).bind _
  | statement => exact (strict_nextIs _).bind _

end Bodies

/-! ### Frames for expressions -/

section Reading

variable {σ : Type} [TokenSupply σ]

/-- The productions over the reader of an expression inside them. -/
def reading (nested : Reader σ Expr) : Production → Reader σ Expr
  | .expression => nested
  | .assignment k => assignment nested k
  | .application => application nested
  | .chained => chained nested
  | .invoked => invoked nested
  | .operand => operand nested
  | .function => function nested
  | .block b => block nested b
  | .statement b => statement nested b

theorem moreStatements_reading (nested : Reader σ Expr) (b : Bracket) (n : Nat) :
    Production.moreStatements (reading nested) b n = moreStatements nested b n := by
  induction n with
  | zero => rfl
  | succ n ih =>
    simp only [Production.moreStatements, moreStatements, ih]
    rfl

theorem statements_reading (nested : Reader σ Expr) (b : Bracket) :
    Production.statements (reading nested) b = statements nested b := by
  simp only [Production.statements, statements, moreStatements_reading]
  rfl

/-- The productions call one another as they are written in one another. -/
theorem body_reading (nested : Reader σ Expr) {p : Production} (hp : p ≠ .expression) :
    p.body (reading nested) = reading nested p := by
  cases p with
  | expression => exact absurd rfl hp
  | block b =>
    simp only [Production.body, reading, block, statements_reading]
  | _ => rfl

theorem body_reading_expression (depth : Nat) :
    Production.expression.body (reading (expression depth)) =
      (expression (depth + 1) : Reader σ Expr) := rfl

end Reading

section Limits

variable {d frames : Nat} {p : Production}

theorem strict_expression (depth : Nat) : Strict (expression depth) := by
  cases depth with
  | zero => exact strict_peek.bind _
  | succ depth => exact strict_peek.bind _

theorem strict_reading (depth : Nat) (p : Production) : Strict (reading (expression depth) p) := by
  have hoperand : Strict (operand (expression depth)) := strict_peek.bind _
  have hinvoked : Strict (invoked (expression depth)) := hoperand.bind _
  have hchained : Strict (chained (expression depth)) := hinvoked.bind _
  cases p with
  | expression => exact strict_expression depth
  | assignment | function | block => exact strict_take.bind _
  | application => exact hchained.bind _
  | chained => exact hchained
  | invoked => exact hinvoked
  | operand => exact hoperand
  | statement => exact (strict_nextIs _).bind _

theorem strict_readWithin (frames : Nat) (p : Production) : Strict (readWithin frames p) := by
  induction frames generalizing p with
  | zero => exact strict_peek.bind _
  | succ frames ih => exact strict_body ih p

/-- With eight frames for each expression, a reader goes as deep as with the expressions. -/
theorem reading_goesDeeper (h : 8 * d + p.distance ≤ frames) :
    GoesDeeper (reading (expression d) p) (readWithin frames p) := by
  induction frames generalizing d p with
  | zero =>
    obtain rfl : d = 0 := by omega
    cases p with
    | expression => exact goesDeeper_refl _
    | _ => simp [Production.distance] at h
  | succ frames ih =>
    by_cases hp : p = .expression
    · subst hp
      cases d with
      | zero => exact goesDeeper_of_strict (strict_readWithin _ _)
      | succ d =>
        change GoesDeeper (expression (d + 1)) _
        rw [← body_reading_expression]
        apply body_goesDeeper
        intro q _
        have hq := q.distance_le
        exact ih (by omega)
    · rw [← body_reading _ hp]
      apply body_goesDeeper
      intro q hq
      have hlt := hq.distance_lt hp
      exact ih (by omega)

/-- With two frames for each expression, a reader goes no deeper than with the expressions. -/
theorem readWithin_goesDeeper (h : frames ≤ 2 * d + if p = .expression then 0 else 1) :
    GoesDeeper (readWithin frames p) (reading (expression d) p) := by
  induction frames generalizing d p with
  | zero => exact goesDeeper_of_strict (strict_reading d p)
  | succ frames ih =>
    by_cases hp : p = .expression
    · subst hp
      rw [if_pos rfl] at h
      obtain ⟨d, rfl⟩ : ∃ d', d = d' + 1 := ⟨d - 1, by omega⟩
      change GoesDeeper _ (expression (d + 1))
      rw [← body_reading_expression]
      apply body_goesDeeper
      intro q hq
      have hne : q ≠ .expression := by
        rintro rfl
        exact Production.not_calls_expression hq
      exact ih (by rw [if_neg hne]; omega)
    · rw [if_neg hp] at h
      rw [← body_reading _ hp]
      apply body_goesDeeper
      intro q _
      exact ih (by omega)

theorem GoesDeeper.reading {x y : Reader TokenSource Expr} (h : GoesDeeper x y)
    (p : Production) : GoesDeeper (reading x p) (reading y p) := by
  by_cases hp : p = .expression
  · subst hp
    exact h
  · rw [← body_reading _ hp, ← body_reading _ hp]
    apply body_goesDeeper
    intro q hq
    have hlt := hq.distance_lt hp
    exact h.reading q
termination_by p.distance

theorem expression_goesDeeper {depth depth' : Nat} (h : depth ≤ depth') :
    GoesDeeper (expression depth) (expression depth') := by
  induction depth generalizing depth' with
  | zero => exact goesDeeper_of_strict (strict_expression depth')
  | succ depth ih =>
    obtain ⟨more, rfl⟩ := Nat.exists_eq_add_of_le' h
    change GoesDeeper _ (expression (more + depth + 1))
    rw [← body_reading_expression, ← body_reading_expression]
    apply body_goesDeeper
    intro q _
    exact (ih (Nat.le_add_left depth more)).reading q

/-! ### Programs -/

theorem program_goesDeeper {depth depth' : Nat} (h : depth ≤ depth') :
    GoesDeeper (program depth) (program depth') := by
  apply goesDeeper_bind
  intro starts
  exact goesDeeper_ite ((expression_goesDeeper h).then _) (goesDeeper_refl _)

theorem goesDeeper_programWithin {depth : Nat} (h : 8 * depth ≤ frames) :
    GoesDeeper (program depth) (programWithin frames) := by
  have hexpression : GoesDeeper (expression depth) (readWithin frames .expression) :=
    reading_goesDeeper (p := .expression) h
  apply goesDeeper_bind
  intro starts
  exact goesDeeper_ite (hexpression.then _) (goesDeeper_refl _)

theorem programWithin_goesDeeper {depth : Nat} (h : frames ≤ 2 * depth) :
    GoesDeeper (programWithin frames) (program depth) := by
  have hexpression : GoesDeeper (readWithin frames .expression) (expression depth) :=
    readWithin_goesDeeper (p := .expression) h
  apply goesDeeper_bind
  intro starts
  exact goesDeeper_ite (hexpression.then _) (goesDeeper_refl _)

end Limits

end Juxta.Grammar
