/-
  Juxta/Proofs/Layout/Depth.lean
  ==============================
  **How many levels a canonical text needs** — the text of an expressible tree is read back under
  every limit that allows the levels of the text (`readsFrom_programText`), and refused as nested
  too deeply under every other: `RefusesTrees n nested` says so of the reader of nested expressions,
  `refusesTrees_expressionOver` goes one level up, production by production.

  In each production the parts in front of the one that is too deep are read back, so that the
  reader comes to it; the rest plays no part.
-/
import Juxta.Proofs.Grammar.Guard
import Juxta.Proofs.Grammar.Overflow
import Juxta.Proofs.Layout.Canonical

namespace Juxta

open Grammar TokenList

namespace Layout

/-- The reader refuses every expressible tree of more than `n` levels. -/
def RefusesTrees (n : Nat) (nested : Reader (List Token) Expr) : Prop :=
  ∀ ⦃e ts m⦄, e.Everywhere Expr.Expressible → IsWritten e (ts.map Token.shape) m → n < m →
    Overflows nested ts

section Nested

variable {nested : Reader (List Token) Expr} {n : Nat} (hn : Takes nested (Builds .expression))
  (hr : ReadsTrees n nested) (ho : RefusesTrees n nested)

/-! ### Blocks -/

include ho in
theorem nestsOut_statement_shapes {b : Bracket} {x : Expr} (hx : x.Everywhere Expr.Expressible)
    {ts : List Token} (hts : ts.map Token.shape = shapes x) (hlt : n < nesting x)
    (rest : List Token) : NestsOut (statement nested b (ts ++ rest)) := by
  have hwritten : IsWritten x (ts.map Token.shape) (nesting x) := Or.inl ⟨hts, rfl⟩
  exact nestsOut_statement (startsExpression_kind hx hwritten rest) (ho hx hwritten hlt rest)

include hr ho in
/-- The statements behind the first one. -/
theorem later_nestsOut {b : Bracket} {xs : List Expr}
    (hxs : ∀ x ∈ xs, x.Everywhere Expr.Expressible) (hlt : n < nestingAll xs) {ts : List Token}
    (hts : ts.map Token.shape = (xs.map shapes).flatMap (.punctuation .semicolon :: ·))
    (rest : List Token) {k : Nat} (hk : (ts ++ rest).length ≤ k) :
    NestsOut (moreStatements nested b k (ts ++ rest)) ∧
      kind (ts ++ rest) = .punctuation .semicolon := by
  induction xs generalizing ts k with
  | nil => cases hlt
  | cons x xs ih =>
    obtain ⟨hx, hxs⟩ := List.forall_mem_cons.mp hxs
    rw [List.map_cons, List.flatMap_cons, List.cons_append] at hts
    obtain ⟨t, us, rfl, ht, hus⟩ := List.map_eq_cons_iff.mp hts
    obtain ⟨vs, ws, rfl, hvs, hws⟩ := List.map_eq_append_iff.mp hus
    refine ⟨?_, kind_of_shape ht⟩
    have hstart : Kind.startsExpression (kind (vs ++ (ws ++ rest))) = true :=
      startsExpression_kind hx (Or.inl ⟨hvs, rfl⟩) (ws ++ rest)
    have hassoc : t :: (vs ++ ws) ++ rest = t :: (vs ++ (ws ++ rest)) := by simp
    rw [hassoc] at hk ⊢
    cases k with
    | zero => cases hk
    | succ k =>
      rw [moreStatements, bind_of_ok (accept_cons (kind_of_shape ht) _), if_pos rfl, nextIs_bind,
        ne_closer_of_startsExpression b hstart, if_neg (by decide)]
      by_cases hfirst : n < nesting x
      · exact (nestsOut_statement_shapes ho hx hvs hfirst (ws ++ rest)).bind _
      · have hlater : n < nestingAll xs := (lt_max_iff.mp hlt).resolve_left hfirst
        simp only [List.length_cons, List.length_append] at hk
        obtain ⟨hdeep, hkind⟩ := ih hxs hlater hws (k := k) (by simp; omega)
        obtain ⟨-, x', hx', -⟩ :=
          hr.readsExpression hx hvs (Nat.not_lt.mp hfirst) (stops_of_semicolon hkind)
        exact nestsOut_bind_of_ok (statement_eq_ok hstart hx') (hdeep.bind _)

include hr ho in
theorem statements_nestsOut {b : Bracket} {xs : List Expr}
    (hxs : ∀ x ∈ xs, x.Everywhere Expr.Expressible) (hlt : n < nestingAll xs) {ts : List Token}
    (hts : ts.map Token.shape = separated .semicolon (xs.map shapes)) (rest : List Token) :
    NestsOut (statements nested b (ts ++ rest)) := by
  cases xs with
  | nil => cases hlt
  | cons x xs =>
    obtain ⟨hx, hxs⟩ := List.forall_mem_cons.mp hxs
    obtain ⟨us, vs, rfl, hus, hvs⟩ := List.map_eq_append_iff.mp hts
    have hstart : Kind.startsExpression (kind (us ++ (vs ++ rest))) = true :=
      startsExpression_kind hx (Or.inl ⟨hus, rfl⟩) (vs ++ rest)
    rw [List.append_assoc, statements, nextIs_bind, ne_closer_of_startsExpression b hstart,
      if_neg (by decide)]
    by_cases hfirst : n < nesting x
    · exact (nestsOut_statement_shapes ho hx hus hfirst (vs ++ rest)).bind _
    · have hlater : n < nestingAll xs := (lt_max_iff.mp hlt).resolve_left hfirst
      obtain ⟨hdeep, hkind⟩ := later_nestsOut hr ho (b := b) hxs hlater hvs rest (Nat.le_refl _)
      obtain ⟨-, x', hx', -⟩ :=
        hr.readsExpression hx hus (Nat.not_lt.mp hfirst) (stops_of_semicolon hkind)
      refine nestsOut_bind_of_ok (statement_eq_ok hstart hx') ?_
      rw [get_bind]
      exact hdeep.bind _

include hr ho in
/-- Statements between two brackets. -/
theorem brackets_overflow {b : Bracket} {xs : List Expr} {keep : Bool}
    (hxs : ∀ x ∈ xs, x.Everywhere Expr.Expressible) (hlt : n < nestingAll xs) {ts : List Token}
    (hts : ts.map Token.shape = blockShapes b keep (xs.map shapes)) :
    Overflows (block nested b) ts := by
  intro rest
  obtain ⟨t, us, rfl, ht, hus⟩ := List.map_eq_cons_iff.mp hts
  obtain ⟨vs, ws, rfl, hvs, -⟩ := List.map_eq_append_iff.mp hus
  have hassoc : t :: (vs ++ ws) ++ rest = t :: (vs ++ (ws ++ rest)) := by simp
  rw [hassoc]
  exact nestsOut_block (kind_of_shape ht) (statements_nestsOut hr ho hxs hlt hvs _)

include hr ho in
theorem block_overflows {b : Bracket} {xs : List Expr} {l : Option Location}
    (h : Expr.Everywhere Expr.Expressible (.block b xs l)) {ts : List Token}
    (hts : ts.map Token.shape = shapes (.block b xs l)) (hlt : n + 1 < nesting (.block b xs l)) :
    Overflows (block nested b) ts := by
  rw [shapes, shapesAll_eq_map] at hts
  exact brackets_overflow hr ho (Expr.everywhere_block.mp h).2 (Nat.succ_lt_succ_iff.mp hlt) hts

include hr ho in
theorem group_overflows {e : Expr} (h : e.Everywhere Expr.Expressible) {ts : List Token}
    (hts : ts.map Token.shape = parens (shapes e)) (hlt : n < nesting e) :
    Overflows (operand nested) ts := by
  have hshapes : parens (shapes e) = blockShapes .paren false ([e].map shapes) := by
    simp [parens, blockShapes, separated, Bracket.opener, Bracket.closer]
  rw [hshapes] at hts
  intro rest
  have hopener : kind (ts ++ rest) = .punctuation Bracket.paren.opener := kind_of_shapes hts rest
  rw [operand_block hopener]
  exact brackets_overflow hr ho (by simpa using h) (by simpa [nestingAll] using hlt) hts rest

/-! ### Functions -/

/-- A function is refused with its body. -/
theorem function_overflows {name : Option String} {ps : List String} {body : List Shape}
    {ts : List Token} (hts : ts.map Token.shape = functionShapes name ps body)
    (hbody : ∀ ws, ws.map Token.shape = body → Overflows (functionBody nested) ws) :
    Overflows (operand nested) ts := by
  intro rest
  obtain ⟨ws, l, hws, hread⟩ := exists_function_eq_bind nested hts rest
  rw [hread]
  exact (hbody ws hws rest).bind _

include hr ho in
theorem braceBody_overflows {body : Expr} (h : body.Everywhere Expr.Expressible)
    (hbrace : body.isBraceBlock = true) {ts : List Token}
    (hts : ts.map Token.shape = bodyShapes body (shapes body)) (hlt : n + 1 < nesting body) :
    Overflows (functionBody nested) ts := by
  have hbody : bodyShapes body (shapes body) = shapes body := by simp [bodyShapes, hbrace]
  rw [hbody] at hts
  cases body with
  | block b xs l =>
    cases b with
    | paren => cases hbrace
    | brace =>
      intro rest
      have hopener : kind (ts ++ rest) = .punctuation .openBrace := kind_of_shapes hts rest
      rw [functionBody_brace hopener]
      exact block_overflows hr ho h hts hlt rest
  | _ => cases hbrace

include ho in
theorem openBody_overflows {body : Expr} (h : body.Everywhere Expr.Expressible)
    (hbrace : body.isBraceBlock = false) {ts : List Token}
    (hts : ts.map Token.shape = bodyShapes body (shapes body))
    (hlt : n + 1 < bodyNesting body (nesting body)) : Overflows (functionBody nested) ts := by
  obtain ⟨m, hm, hwritten⟩ := exists_isWritten_body hbrace hts
  rw [hm] at hlt
  intro rest
  rw [functionBody_of_isWritten h hbrace hts hwritten rest]
  exact ho h hwritten (Nat.succ_lt_succ_iff.mp hlt) rest

/-! ### Operands -/

include hr ho in
/-- An operand in parentheses, or one that needs none. -/
theorem operand_overflows : (e : Expr) → e.Everywhere Expr.Expressible →
    e.isAssignment = false → ∀ ts : List Token,
    ts.map Token.shape = operandShapes e (shapes e) → n + 1 < operandNesting e (nesting e) →
    Overflows (operand nested) ts
  | .literal _ _, _, _, _, _, hlt => absurd (Nat.succ_lt_succ_iff.mp hlt) (Nat.not_lt_zero n)
  | .symbol _ _, _, _, _, _, hlt => absurd (Nat.succ_lt_succ_iff.mp hlt) (Nat.not_lt_zero n)
  | .block b xs l, h, _, ts, hts, hlt => by
    intro rest
    have hopener : kind (ts ++ rest) = .punctuation b.opener := kind_of_shapes hts rest
    rw [operand_block hopener]
    exact block_overflows hr ho h hts hlt rest
  | .function name ps body l, h, _, ts, hts, hlt => by
    cases hbrace : body.isBraceBlock with
    | false =>
      rw [operandShapes, isClosed, hbrace, if_neg (by decide)] at hts
      rw [operandNesting, isClosed, hbrace, if_neg (by decide)] at hlt
      exact group_overflows hr ho h hts (Nat.succ_lt_succ_iff.mp hlt)
    | true =>
      rw [operandShapes, isClosed, hbrace, if_pos rfl, shapes] at hts
      rw [operandNesting, isClosed, hbrace, if_pos rfl, nesting, bodyNesting, if_pos hbrace] at hlt
      exact function_overflows hts fun ws hws =>
        braceBody_overflows hr ho (Expr.everywhere_function.mp h).2 hbrace hws hlt
  | .invocation target l, h, _, ts, hts, hlt => by
    have htarget := h.self.operands target (by simp [Expr.operands])
    obtain ⟨us, vs, rfl, hus, -⟩ := List.map_eq_append_iff.mp hts
    have hdeep :=
      operand_overflows target (Expr.everywhere_invocation.mp h).2 htarget us hus hlt
    intro rest
    rw [List.append_assoc]
    exact hdeep (vs ++ rest)
  | .assignment _ _ _ _, _, ha, _, _, _ => by cases ha
  | .call f xs l, h, _, ts, hts, hlt =>
    group_overflows hr ho h hts (Nat.succ_lt_succ_iff.mp hlt)
  | .chain seed ss l, h, _, ts, hts, hlt =>
    group_overflows hr ho h hts (Nat.succ_lt_succ_iff.mp hlt)

/-! ### Operands one after another -/

theorem startsOperand_operandShapes {x : Expr} (hx : IsOperand x) {ts : List Token}
    (hts : ts.map Token.shape = operandShapes x (shapes x)) (rest : List Token) :
    Kind.startsOperand (kind (ts ++ rest)) = true :=
  startsOperand_kind hts ((startsOperand_shapes x hx.1 hx.2).operandShapes x) rest

include hn hr ho in
theorem operands_jam {xs : List Expr} (hxs : ∀ x ∈ xs, IsOperand x) {ts : List Token}
    (hts : ts.map Token.shape = (operandShapesAll xs).flatten)
    (hlt : n + 1 < operandNestingAll xs) (rest : List Token) :
    Jams Kind.startsOperand (invoked nested) (ts ++ rest) := by
  induction xs generalizing ts with
  | nil => cases hlt
  | cons x xs ih =>
    obtain ⟨hx, hxs⟩ := List.forall_mem_cons.mp hxs
    rw [operandShapesAll, List.flatten_cons] at hts
    obtain ⟨us, vs, rfl, hus, hvs⟩ := List.map_eq_append_iff.mp hts
    have hbegins := startsOperand_operandShapes hx hus (vs ++ rest)
    rw [List.append_assoc]
    by_cases hfirst : n + 1 < operandNesting x (nesting x)
    · exact .here hbegins (nestsOut_invoked (operand_overflows hr ho x hx.1 hx.2 us hus hfirst _))
    · have hlater := ih hxs hvs ((lt_max_iff.mp hlt).resolve_left hfirst)
      obtain ⟨x', hx', -⟩ := (readsOperand_shapes hn hr x hx.1 hx.2 us hus
        (Nat.not_lt.mp hfirst)).exists_invoked (ne_of_startsOperand hlater.begins_kind).1
      exact .later hbegins hx' hlater

include hn hr ho in
theorem steps_jam {ss : List Step}
    (hss : ∀ s ∈ ss, IsOperand s.operator ∧ ∀ x ∈ s.extra, IsOperand x) {ts : List Token}
    (hts : ts.map Token.shape = (stepShapes ss).flatten) (hlt : n + 1 < stepNesting ss)
    (rest : List Token) : Jams (· == .punctuation .backtick) (step nested) (ts ++ rest) := by
  induction ss generalizing ts with
  | nil => cases hlt
  | cons s ss ih =>
    obtain ⟨p, xs⟩ := s
    obtain ⟨⟨hp, hxs⟩, hss⟩ := List.forall_mem_cons.mp hss
    change IsOperand p at hp
    rw [stepShapes, List.flatten_cons, List.flatten_append, List.cons_append] at hts
    obtain ⟨t, later, rfl, ht, hlater⟩ := List.map_eq_cons_iff.mp hts
    obtain ⟨us, more, rfl, hus, hmore⟩ := List.map_eq_append_iff.mp hlater
    obtain ⟨vs, ws, rfl, hvs, hws⟩ := List.map_eq_append_iff.mp hmore
    have hassoc : t :: (us ++ (vs ++ ws)) ++ rest = t :: (us ++ (vs ++ (ws ++ rest))) := by simp
    rw [hassoc]
    replace ht : t.kind = .punctuation .backtick := kind_of_shape ht
    have hbegins : (kind (t :: (us ++ (vs ++ (ws ++ rest)))) == .punctuation .backtick) = true := by
      rw [kind_cons, ht, beq_self_eq_true]
    have hstart := startsOperand_operandShapes hp hus (vs ++ (ws ++ rest))
    by_cases hfirst : n + 1 < operandNesting p (nesting p)
    · have hdeep := operand_overflows hr ho p hp.1 hp.2 us hus hfirst (vs ++ (ws ++ rest))
      exact .here hbegins (nestsOut_step ht hstart ((nestsOut_invoked hdeep).bind _))
    · have hp' := readsOperand_shapes hn hr p hp.1 hp.2 us hus (Nat.not_lt.mp hfirst)
      by_cases hextra : n + 1 < operandNestingAll xs
      · have hjam := operands_jam hn hr ho hxs hvs hextra (ws ++ rest)
        obtain ⟨p', hread, -⟩ := hp'.exists_invoked (ne_of_startsOperand hjam.begins_kind).1
        have hdeep := hjam.many rfl (invoked_consumes hn _)
        exact .here hbegins (nestsOut_step ht hstart (nestsOut_bind_of_ok hread (hdeep.bind _)))
      · have hsteps : n + 1 < stepNesting ss :=
          (lt_max_iff.mp hlt).resolve_left fun h => (lt_max_iff.mp h).elim hfirst hextra
        have hjam := ih hss hws hsteps
        have hkind : kind (ws ++ rest) = .punctuation .backtick := beq_iff_eq.mp hjam.begins_kind
        have hbang : kind (ws ++ rest) ≠ .punctuation .bang := by rw [hkind]; decide
        have hoperand : Kind.startsOperand (kind (ws ++ rest)) = false := by rw [hkind]; rfl
        have hxs' := readsOperands_shapes hn hr hxs hvs (Nat.not_lt.mp hextra)
        obtain ⟨xs', hmany, -⟩ := hxs'.exists_many_invoked hoperand hbang
        obtain ⟨p', hread, -⟩ := hp'.exists_invoked (hxs'.kind_ne_bang hbang)
        exact .later hbegins (step_eq_ok hn ht hstart hread hmany) hjam

include hn hr ho in
/-- The seed of a chain and its steps. -/
theorem chain_overflows {seed : Expr} {ss : List Step} {l : Option Location}
    (h : Expr.Everywhere Expr.Expressible (.chain seed ss l)) {ts : List Token}
    (hts : ts.map Token.shape = shapes (.chain seed ss l))
    (hlt : n + 1 < nesting (.chain seed ss l)) : Overflows (chained nested) ts := by
  obtain ⟨hseed, hss⟩ := isOperand_chain h
  obtain ⟨us, vs, rfl, hus, hvs⟩ := List.map_eq_append_iff.mp hts
  intro rest
  rw [List.append_assoc]
  by_cases hfirst : n + 1 < operandNesting seed (nesting seed)
  · have hdeep := operand_overflows hr ho seed hseed.1 hseed.2 us hus hfirst (vs ++ rest)
    exact nestsOut_chained (nestsOut_invoked hdeep)
  · have hjam := steps_jam hn hr ho hss hvs ((lt_max_iff.mp hlt).resolve_left hfirst) rest
    have hkind : kind (vs ++ rest) = .punctuation .backtick := beq_iff_eq.mp hjam.begins_kind
    obtain ⟨seed', hread, -⟩ := (readsOperand_shapes hn hr seed hseed.1 hseed.2 us hus
      (Nat.not_lt.mp hfirst)).exists_invoked (by rw [hkind]; decide)
    exact nestsOut_bind_of_ok hread ((hjam.many rfl (step_consumes hn)).bind _)

include hn hr ho in
theorem lastArgument_overflows {x : Expr} (hx : IsOperand x) {ts : List Token}
    (hts : ts.map Token.shape = lastArgumentShapes x (shapes x))
    (hlt : n + 1 < lastArgumentNesting x (nesting x)) : Overflows (chained nested) ts := by
  have hoperand : ts.map Token.shape = operandShapes x (shapes x) →
      n + 1 < operandNesting x (nesting x) → Overflows (chained nested) ts := by
    intro hts hlt rest
    exact nestsOut_chained (nestsOut_invoked (operand_overflows hr ho x hx.1 hx.2 ts hts hlt rest))
  cases x with
  | chain seed ss l => exact chain_overflows hn hr ho hx.1 hts hlt
  | _ => exact hoperand hts hlt

theorem startsOperand_lastArgumentShapes {x : Expr} (hx : IsOperand x) {ts : List Token}
    (hts : ts.map Token.shape = lastArgumentShapes x (shapes x)) (rest : List Token) :
    Kind.startsOperand (kind (ts ++ rest)) = true := by
  cases x with
  | chain => exact startsOperand_kind hts (startsOperand_shapes _ hx.1 hx.2) rest
  | _ => exact startsOperand_operandShapes hx hts rest

include hn hr ho in
theorem arguments_jam {xs : List Expr} (hxs : ∀ x ∈ xs, IsOperand x) {ts : List Token}
    (hts : ts.map Token.shape = (argumentShapes xs).flatten) (hlt : n + 1 < argumentNesting xs)
    (rest : List Token) : Jams Kind.startsOperand (chained nested) (ts ++ rest) := by
  induction xs generalizing ts with
  | nil => cases hlt
  | cons x xs ih =>
    obtain ⟨hx, hxs⟩ := List.forall_mem_cons.mp hxs
    rw [argumentShapes, List.flatten_cons] at hts
    obtain ⟨us, vs, rfl, hus, hvs⟩ := List.map_eq_append_iff.mp hts
    rw [List.append_assoc]
    cases xs with
    | nil =>
      have hlast : n + 1 < lastArgumentNesting x (nesting x) := by
        simpa [argumentNesting] using hlt
      exact .here (startsOperand_lastArgumentShapes hx hus _)
        (lastArgument_overflows hn hr ho hx hus hlast _)
    | cons y ys =>
      -- An argument that is not the last one is an operand.
      have hbegins := startsOperand_operandShapes hx hus (vs ++ rest)
      by_cases hfirst : n + 1 < operandNesting x (nesting x)
      · have hdeep := operand_overflows hr ho x hx.1 hx.2 us hus hfirst (vs ++ rest)
        exact .here hbegins (nestsOut_chained (nestsOut_invoked hdeep))
      · have hlater := ih hxs hvs ((lt_max_iff.mp hlt).resolve_left hfirst)
        obtain ⟨hbang, hbacktick⟩ := ne_of_startsOperand hlater.begins_kind
        obtain ⟨x', hx', -⟩ := (readsOperand_shapes hn hr x hx.1 hx.2 us hus
          (Nat.not_lt.mp hfirst)).exists_invoked hbang
        exact .later hbegins (chained_of_invoked hn hx' hbacktick) hlater

include hn hr ho in
theorem call_overflows {f : Expr} {xs : List Expr} {l : Option Location}
    (h : Expr.Everywhere Expr.Expressible (.call f xs l)) {ts : List Token}
    (hts : ts.map Token.shape = shapes (.call f xs l)) (hlt : n + 1 < nesting (.call f xs l)) :
    Overflows (application nested) ts := by
  obtain ⟨hf, hxs⟩ := isOperand_call h
  obtain ⟨us, vs, rfl, hus, hvs⟩ := List.map_eq_append_iff.mp hts
  intro rest
  rw [List.append_assoc]
  by_cases hfirst : n + 1 < operandNesting f (nesting f)
  · have hdeep := operand_overflows hr ho f hf.1 hf.2 us hus hfirst (vs ++ rest)
    exact nestsOut_application (nestsOut_chained (nestsOut_invoked hdeep))
  · have hjam := arguments_jam hn hr ho hxs hvs ((lt_max_iff.mp hlt).resolve_left hfirst) rest
    obtain ⟨hbang, hbacktick⟩ := ne_of_startsOperand hjam.begins_kind
    obtain ⟨f', hf', -⟩ := (readsOperand_shapes hn hr f hf.1 hf.2 us hus
      (Nat.not_lt.mp hfirst)).exists_invoked hbang
    exact nestsOut_bind_of_ok (chained_of_invoked hn hf' hbacktick)
      ((hjam.many rfl (chained_consumes hn _)).bind _)

/-! ### Expressions -/

include hn hr ho in
/-- A tree that is no binding, by itself or in parentheses. -/
theorem application_overflows {e : Expr} (he : IsOperand e) {ts : List Token} {m : Nat}
    (hts : IsWritten e (ts.map Token.shape) m) (hlt : n + 1 < m) :
    Overflows (application nested) ts := by
  have hinner (h : Overflows (operand nested) ts) : Overflows (application nested) ts :=
    fun rest => nestsOut_application (nestsOut_chained (nestsOut_invoked (h rest)))
  have hoperand (hts : ts.map Token.shape = operandShapes e (shapes e))
      (hlt : n + 1 < operandNesting e (nesting e)) : Overflows (application nested) ts :=
    hinner (operand_overflows hr ho e he.1 he.2 ts hts hlt)
  rcases hts with ⟨hts, rfl⟩ | ⟨⟨-, hts⟩, rfl⟩
  · cases e with
    | literal | symbol | block | invocation => exact hoperand hts hlt
    | assignment => cases he.2
    | call f xs l => exact call_overflows hn hr ho he.1 hts hlt
    | chain seed ss l =>
      intro rest
      exact nestsOut_application (chain_overflows hn hr ho he.1 hts hlt rest)
    | function name ps body l =>
      cases hbrace : body.isBraceBlock with
      | true =>
        refine hoperand ?_ ?_
        · rw [hts, operandShapes, isClosed, hbrace, if_pos rfl]
        · rwa [operandNesting, isClosed, hbrace, if_pos rfl]
      | false =>
        have hbody := (Expr.everywhere_function.mp he.1).2
        exact hinner (function_overflows hts fun ws hws =>
          openBody_overflows ho hbody hbrace hws hlt)
  · exact hinner (group_overflows hr ho he.1 hts (Nat.succ_lt_succ_iff.mp hlt))

include ho in
theorem binding_overflows {r : Bool} {name : String} {value : Expr} {l : Option Location}
    (h : Expr.Everywhere Expr.Expressible (.assignment r name value l)) {ts : List Token}
    (hts : ts.map Token.shape = shapes (.assignment r name value l))
    (hlt : n + 1 < nesting (.assignment r name value l)) :
    Overflows (expressionOver nested) ts := by
  have hvalue := (Expr.everywhere_assignment.mp h).2
  obtain ⟨t, us, rfl, ht, hus⟩ := List.map_eq_cons_iff.mp hts
  obtain ⟨u, vs, rfl, hu, hvs⟩ := List.map_eq_cons_iff.mp hus
  replace ht : t.kind = .keyword (bindingKeyword r) := kind_of_shape ht
  have hbinding : bindingKeyword r ≠ .function := by cases r <;> decide
  have hwritten : IsWritten value (vs.map Token.shape) (nesting value) := Or.inl ⟨hvs, rfl⟩
  intro rest
  have hkind : kind (t :: u :: vs ++ rest) = .keyword (bindingKeyword r) := ht
  rw [expressionOver_binding hbinding hkind, List.cons_append, List.cons_append, assignment,
    bind_of_ok (take_cons (isEnd_of_keyword ht) _), bind_of_ok (name_cons hu _ _), nextIs_bind,
    startsExpression_kind hvalue hwritten rest, if_pos rfl]
  exact (ho hvalue hwritten (Nat.succ_lt_succ_iff.mp hlt) rest).bind _

include hn hr ho in
/-- **One more level of the text** is too much for one more level of nesting. -/
theorem refusesTrees_expressionOver : RefusesTrees (n + 1) (expressionOver nested) := by
  intro e ts m h hts hlt
  cases he : e.isAssignment with
  | false =>
    intro rest
    have hstart : Kind.startsOperand (kind (ts ++ rest)) = true := by
      rcases hts with ⟨hts, -⟩ | ⟨⟨-, hts⟩, -⟩
      · exact startsOperand_kind hts (startsOperand_shapes e h he) rest
      · exact startsOperand_kind hts (startsOperand_parens _) rest
    rw [expressionOver_of_startsOperand hstart]
    exact application_overflows hn hr ho ⟨h, he⟩ hts hlt rest
  | true =>
    rcases hts with ⟨hts, rfl⟩ | ⟨⟨hoperand, -⟩, -⟩
    · cases e with
      | assignment r name value l => exact binding_overflows ho h hts hlt
      | _ => cases he
    · rw [he] at hoperand
      cases hoperand

end Nested

/-- **Trees are refused** by every reader that allows fewer levels than their texts have. -/
theorem refusesTrees_expression (depth : Nat) : RefusesTrees depth (expression depth) := by
  induction depth with
  | zero => exact fun e ts m _ _ _ rest => nestsOut_refuse (ts ++ rest)
  | succ depth ih =>
    exact refusesTrees_expressionOver (expression_takes depth) (readsTrees_expression depth) ih

/-! ### Texts -/

theorem isTooDeep_programText (c : Layout) {e : Expr} (h : e.Everywhere Expr.Expressible)
    {limit : Nat} (hlt : limit < nesting e) (filename : Option String) :
    IsTooDeep (Program.parseTo limit (String.ofList (c.programText e)) filename) := by
  have hspells := c.spells_programText (h.imp fun n hn => hn.legible)
  obtain ⟨ts, hscans, hshapes⟩ := hspells.exists_scans
    (k := .start (String.ofList (c.programText e)).toList filename) String.toList_ofList
  obtain ⟨us, ends, rfl, hus, -⟩ := List.map_eq_append_iff.mp hshapes
  have hwritten : IsWritten e (us.map Token.shape) (nesting e) := Or.inl ⟨hus, rfl⟩
  have hdeep : NestsOut (program limit (us ++ ends)) := by
    rw [program, nextIs_bind, startsExpression_kind h hwritten, if_pos rfl]
    exact (refusesTrees_expression limit h hwritten hlt ends).bind _
  obtain ⟨t, l, rest, hprogram⟩ := hdeep
  have htokens : parseTokens limit (us ++ ends) = .error (.syntactic ⟨.nesting, t, l⟩) := by
    rw [parseTokens, hprogram]
  exact (Program.nestsTooDeeply_iff_of_scans hscans).mpr
    ⟨_, refusesWithin_of_nesting htokens rfl, rfl⟩

/-- **A text is too deep for a limit** exactly when it has more levels. -/
theorem isTooDeep_programText_iff (c : Layout) {e : Expr} (h : e.Everywhere Expr.Expressible)
    (limit : Nat) (filename : Option String) :
    IsTooDeep (Program.parseTo limit (String.ofList (c.programText e)) filename) ↔
      limit < nesting e := by
  refine ⟨fun hdeep => ?_, fun hlt => c.isTooDeep_programText h hlt filename⟩
  by_contra hle
  obtain ⟨e', he', -⟩ := c.readsFrom_programText h limit (Nat.not_lt.mp hle) filename
  obtain ⟨t, l, hdeep⟩ := hdeep
  rw [he'] at hdeep
  cases hdeep

end Layout

end Juxta
