/-
  Juxta/Proofs/Grammar/Completeness.lean
  ======================================
  **Greed rejects nothing** — the reader takes operands, steps and marks as long as the next
  token allows.  Tokens that follow each other (`Follows`) keep doing so whatever part of them
  has been taken, so that the reader never has to give a token back: an operand leaves tokens
  that can follow an operand, and a repetition stops where its items end.

  The argument is by the number of tokens.  `ReadsUpTo n nested` says that the reader of
  nested expressions accepts up to `n` tokens; the productions over it then accept one token
  more, which is the bracket, the keyword or the backtick in front of what is nested.
-/
import Juxta.Proofs.Grammar.Greedy
import Juxta.Proofs.Grammar.Language

namespace Juxta.Grammar

open TokenList

/-! ### First tokens -/

theorem Follows.startsOperand {ts : List Token} (h : Follows .operand ts) :
    Kind.startsOperand (kind ts) = true := by
  cases h with
  | literal ht _ =>
    have hkind := isLiteral_of_literal? ht
    rw [kind_cons]
    cases hk : Token.kind _ <;> rw [hk] at hkind <;> first | rfl | cases hkind
  | symbol ht _ =>
    rw [kind_cons, kind_of_shape_eq_symbol ht]
    rfl
  | function ht =>
    rw [kind_cons, ht]
    rfl
  | @bracketed b _ h =>
    cases h with
    | block ht =>
      rw [List.cons_append, kind_cons, ht]
      cases b <;> rfl

theorem Follows.startsExpression {ts : List Token} (h : Follows .expression ts) :
    Kind.startsExpression (kind ts) = true := by
  cases h with
  | @binding _ _ k _ _ ht hk =>
    rw [kind_cons, ht]
    cases k with
    | function => exact absurd rfl hk
    | _ => rfl
  | application h => exact startsExpression_of_startsOperand h.startsOperand

/-- What can follow an operand and begins like one is an operand. -/
theorem Follows.operand_of_after {vs rest : List Token} (h : Follows .after vs)
    (hrest : Stops rest) (hstart : Kind.startsOperand (kind (vs ++ rest)) = true) :
    Follows .operand vs := by
  cases h with
  | done =>
    rw [List.nil_append, hrest.operand] at hstart
    cases hstart
  | bang ht | step ht =>
    rw [List.cons_append, kind_cons, ht] at hstart
    cases hstart
  | another h => exact h

/-- What can follow an operand and begins with a mark goes on after it. -/
theorem Follows.exists_bang {vs rest : List Token} (h : Follows .after vs) (hrest : Stops rest)
    (hbang : kind (vs ++ rest) = .punctuation .bang) :
    ∃ t us, vs = t :: us ∧ t.kind = .punctuation .bang ∧ Follows .after us := by
  cases h with
  | done => exact absurd hbang hrest.bang
  | bang ht hus => exact ⟨_, _, rfl, ht, hus⟩
  | step ht =>
    rw [List.cons_append, kind_cons, ht] at hbang
    cases hbang
  | another h =>
    have hstart := h.startsOperand
    rw [kind_append (h.ne_nil rfl)] at hbang
    rw [hbang] at hstart
    cases hstart

/-- What can follow an operand and begins with a backtick is a step. -/
theorem Follows.exists_backtick {vs rest : List Token} (h : Follows .after vs)
    (hrest : Stops rest) (hbacktick : kind (vs ++ rest) = .punctuation .backtick) :
    ∃ t us, vs = t :: us ∧ t.kind = .punctuation .backtick ∧ Follows .operand us := by
  cases h with
  | done => exact absurd hbacktick hrest.backtick
  | bang ht =>
    rw [List.cons_append, kind_cons, ht] at hbacktick
    cases hbacktick
  | step ht hus => exact ⟨_, _, rfl, ht, hus⟩
  | another h =>
    have hstart := h.startsOperand
    rw [kind_append (h.ne_nil rfl)] at hbacktick
    rw [hbacktick] at hstart
    cases hstart

/-! ### Repetitions -/

section Leaving

variable {α : Type} {rest : List Token}

/-- Of the tokens in front of `rest` the reader leaves fewer, and they are of the class `P`. -/
def Leaves (x : Reader (List Token) α) (P : List Token → Prop) (rest us : List Token) : Prop :=
  ∃ a vs, x (us ++ rest) = .ok a (vs ++ rest) ∧ P vs ∧ vs.length < us.length

/-- Items that leave tokens of the class at which they begin are read until none can begin. -/
theorem exists_many (begins : Kind → Bool) {item : Reader (List Token) α}
    (P : List Token → Prop) {n : Nat}
    (hitem : ∀ vs, P vs → vs.length ≤ n → begins (kind (vs ++ rest)) = true →
      Leaves item P rest vs)
    {vs : List Token} (hP : P vs) (hn : vs.length ≤ n) :
    ∃ xs ws, Many begins item (vs ++ rest) xs (ws ++ rest) ∧ P ws ∧ ws.length ≤ vs.length ∧
      begins (kind (ws ++ rest)) = false := by
  induction hlen : vs.length using Nat.strongRecOn generalizing vs with
  | _ m ih =>
    cases hbegins : begins (kind (vs ++ rest)) with
    | false => exact ⟨[], vs, .done hbegins, hP, Nat.le_of_eq hlen, hbegins⟩
    | true =>
      obtain ⟨x, us, hx, hus, hlt⟩ := hitem vs hP hn hbegins
      obtain ⟨xs, ws, hxs, hws, hle, hdone⟩ := ih us.length (by omega) hus (by omega) rfl
      exact ⟨x :: xs, ws, .more hbegins hx hxs, hws, by omega, hdone⟩

/-- What is left after an operand and its marks. -/
structure Unmarked (rest vs : List Token) : Prop where
  follows : Follows .after vs
  bang : kind (vs ++ rest) ≠ .punctuation .bang

/-- What is left after an operand, its marks and its steps. -/
structure Unchained (rest vs : List Token) : Prop extends Unmarked rest vs where
  backtick : kind (vs ++ rest) ≠ .punctuation .backtick

end Leaving

/-! ### Nested expressions of bounded length -/

/-- The reader accepts every expression of at most `n` tokens. -/
def ReadsUpTo (n : Nat) (nested : Reader (List Token) Expr) : Prop :=
  ∀ ⦃us rest⦄, Follows .expression us → us.length ≤ n → Stops rest →
    ∃ e, nested (us ++ rest) = .ok e rest

section Nested

variable {nested : Reader (List Token) Expr} {n : Nat}

theorem ReadsUpTo.exists_later (hr : ReadsUpTo n nested) {b : Bracket} {vs rest : List Token}
    (h : Follows .later vs) (hlen : vs.length ≤ n) (hrest : kind rest = .punctuation b.closer) :
    ∃ v, Later nested b (vs ++ rest) v rest := by
  induction hm : vs.length using Nat.strongRecOn generalizing vs with
  | _ m ih =>
    cases h with
    | noMore => exact ⟨_, .done hrest⟩
    | trailing ht => exact ⟨_, .trailing ht hrest⟩
    | @later t us ws ht hus hws =>
      simp only [List.length_append, List.length_cons] at hlen hm
      obtain ⟨⟨separated, xs⟩, hxs⟩ := ih ws.length (by omega) hws (by omega) rfl
      obtain ⟨e, he⟩ := hr hus (by omega) hxs.stops
      have hstart : Kind.startsExpression (kind (us ++ (ws ++ rest))) = true := by
        rw [kind_append (hus.ne_nil rfl)]
        exact hus.startsExpression
      refine ⟨(true, e :: xs), ?_⟩
      rw [List.append_assoc]
      exact .more ht hstart he hxs

theorem ReadsUpTo.exists_statements (hr : ReadsUpTo n nested) {b : Bracket}
    {vs rest : List Token} (h : Follows .statements vs) (hlen : vs.length ≤ n)
    (hrest : kind rest = .punctuation b.closer) :
    ∃ v, Statements nested b (vs ++ rest) v rest := by
  cases h with
  | noStatement => exact ⟨_, .none hrest⟩
  | @statements us ws hus hws =>
    simp only [List.length_append] at hlen
    obtain ⟨⟨separated, xs⟩, hxs⟩ := hr.exists_later hws (by omega) hrest
    obtain ⟨e, he⟩ := hr hus (by omega) hxs.stops
    have hstart : Kind.startsExpression (kind (us ++ (ws ++ rest))) = true := by
      rw [kind_append (hus.ne_nil rfl)]
      exact hus.startsExpression
    refine ⟨(separated, e :: xs), ?_⟩
    rw [List.append_assoc]
    exact .some hstart he hxs

variable (hn : Takes nested (Builds .expression)) (hr : ReadsUpTo n nested)
include hn hr

theorem block_leaves {b : Bracket} {us : List Token} (rest : List Token)
    (h : Follows (.block b) us) (hlen : us.length ≤ n + 1) :
    Leaves (block nested b) (Follows .after) rest us := by
  cases h with
  | @block _ t c us ws ht hus hc hws =>
    simp only [List.length_append, List.length_cons] at hlen
    have hcloser : kind (c :: (ws ++ rest)) = .punctuation b.closer := hc
    obtain ⟨⟨separated, xs⟩, hxs⟩ := hr.exists_statements hus (by omega) hcloser
    refine ⟨blockOf b separated xs t.location, ws, ?_, hws, by simp; omega⟩
    have hassoc : t :: us ++ c :: ws ++ rest = t :: (us ++ c :: (ws ++ rest)) := by simp
    rw [hassoc]
    exact block_eq_ok hn ht hxs

theorem functionBody_leaves {us rest : List Token} (h : Follows .body us)
    (hlen : us.length ≤ n) (hrest : Stops rest) :
    Leaves (functionBody nested) (Follows .after) rest us := by
  have hne : us ≠ [] := h.ne_nil rfl
  cases h with
  | braces h =>
    obtain ⟨e, vs, he, hvs, hlt⟩ := block_leaves hn hr rest h (by omega)
    refine ⟨e, vs, ?_, hvs, hlt⟩
    have hbrace : kind (us ++ rest) = .punctuation .openBrace := by
      cases h with
      | block ht => exact ht
    rw [functionBody_brace hbrace]
    exact he
  | «open» h hbrace =>
    obtain ⟨e, he⟩ := hr h hlen hrest
    refine ⟨e, [], ?_, .done, List.length_pos_iff.mpr hne⟩
    rw [← kind_append hne rest] at hbrace
    have hstart : Kind.startsExpression (kind (us ++ rest)) = true := by
      rw [kind_append hne]
      exact h.startsExpression
    rw [functionBody_open hbrace hstart, he]
    rfl

theorem operand_leaves {us rest : List Token} (h : Follows .operand us)
    (hlen : us.length ≤ n + 1) (hrest : Stops rest) :
    Leaves (operand nested) (Follows .after) rest us := by
  cases h with
  | literal ht hvs => exact ⟨_, _, operand_literal ht _, hvs, Nat.lt_succ_self _⟩
  | symbol ht hvs => exact ⟨_, _, operand_symbol ht _, hvs, Nat.lt_succ_self _⟩
  | @function t ns ps ws m qs ht hm hps hws hsymbol hparen =>
    simp only [List.length_append, List.length_cons] at hlen
    have hne : ws ≠ [] := hws.ne_nil rfl
    obtain ⟨e, vs, he, hvs, hlt⟩ := functionBody_leaves hn hr hws (by omega) hrest
    refine ⟨.function m qs e (some t.location), vs, ?_, hvs, by simp; omega⟩
    have hassoc : t :: (ns ++ ps ++ ws) ++ rest = t :: (ns ++ ps ++ (ws ++ rest)) := by simp
    rw [hassoc, operand_function (by rw [kind_cons, ht])]
    refine function_eq_ok ht hm hps ?_ ?_ he
    · intro hnil
      rw [← List.append_assoc, kind_append (by simp [hne])]
      exact hsymbol hnil
    · intro hnil
      rw [kind_append hne]
      exact hparen hnil
  | @bracketed b _ h =>
    obtain ⟨e, vs, he, hvs, hlt⟩ := block_leaves hn hr rest h hlen
    have hopener : kind (us ++ rest) = .punctuation b.opener := by
      cases h with
      | block ht => exact ht
    refine ⟨e, vs, ?_, hvs, hlt⟩
    rw [operand_block hopener]
    exact he

/-- An operand with its marks leaves no mark behind. -/
theorem invoked_leaves {us rest : List Token} (h : Follows .operand us)
    (hlen : us.length ≤ n + 1) (hrest : Stops rest) :
    Leaves (invoked nested) (Unmarked rest) rest us := by
  obtain ⟨e, vs, he, hvs, hlt⟩ := operand_leaves hn hr h hlen hrest
  have hmark : ∀ ws, Follows .after ws → ws.length ≤ vs.length →
      (kind (ws ++ rest) == .punctuation .bang) = true →
      Leaves (take : Reader (List Token) Token) (Follows .after) rest ws := by
    intro ws hws _ hbegins
    obtain ⟨t, ws, rfl, ht, hws⟩ := hws.exists_bang hrest (beq_iff_eq.mp hbegins)
    exact ⟨t, ws, take_cons (isEnd_of_punctuation ht) _, hws, Nat.lt_succ_self _⟩
  obtain ⟨marks, ws, hmarks, hws, hle, hdone⟩ :=
    exists_many (· == .punctuation .bang) (Follows .after) hmark hvs (Nat.le_refl _)
  exact ⟨_, ws, invoked_eq_ok he hmarks, ⟨hws, beq_eq_false_iff_ne.mp hdone⟩, by omega⟩

/-- A step leaves neither a mark nor an operand behind. -/
theorem step_leaves {us rest : List Token} (h : Follows .after us)
    (hlen : us.length ≤ n + 1) (hrest : Stops rest)
    (hbacktick : kind (us ++ rest) = .punctuation .backtick) :
    Leaves (step nested) (Unmarked rest) rest us := by
  obtain ⟨t, us, rfl, ht, hus⟩ := h.exists_backtick hrest hbacktick
  rw [List.length_cons] at hlen
  obtain ⟨p, vs, hp, hvs, hlt⟩ := invoked_leaves hn hr hus (by omega) hrest
  have hextra : ∀ ws, Unmarked rest ws → ws.length ≤ vs.length →
      Kind.startsOperand (kind (ws ++ rest)) = true →
      Leaves (invoked nested) (Unmarked rest) rest ws := by
    intro ws hws hle hbegins
    exact invoked_leaves hn hr (hws.follows.operand_of_after hrest hbegins) (by omega) hrest
  obtain ⟨xs, ws, hxs, hws, hle, -⟩ := exists_many _ (Unmarked rest) hextra hvs (Nat.le_refl _)
  have hstart : Kind.startsOperand (kind (us ++ rest)) = true := by
    rw [kind_append (hus.ne_nil rfl)]
    exact hus.startsOperand
  exact ⟨.mk p xs, ws, step_eq_ok hn ht hstart hp hxs, hws, by rw [List.length_cons]; omega⟩

/-- An operand with its steps leaves neither a mark nor a step behind. -/
theorem chained_leaves {us rest : List Token} (h : Follows .operand us)
    (hlen : us.length ≤ n + 1) (hrest : Stops rest) :
    Leaves (chained nested) (Unchained rest) rest us := by
  obtain ⟨seed, vs, hseed, hvs, hlt⟩ := invoked_leaves hn hr h hlen hrest
  have hstep : ∀ ws, Unmarked rest ws → ws.length ≤ vs.length →
      (kind (ws ++ rest) == .punctuation .backtick) = true →
      Leaves (step nested) (Unmarked rest) rest ws := by
    intro ws hws hle hbegins
    exact step_leaves hn hr hws.follows (by omega) hrest (beq_iff_eq.mp hbegins)
  obtain ⟨ss, ws, hss, hws, hle, hdone⟩ :=
    exists_many (· == .punctuation .backtick) (Unmarked rest) hstep hvs (Nat.le_refl _)
  exact ⟨_, ws, chained_eq_ok hn hseed hss, ⟨hws, beq_eq_false_iff_ne.mp hdone⟩, by omega⟩

/-- An application leaves nothing behind. -/
theorem exists_application {us rest : List Token} (h : Follows .operand us)
    (hlen : us.length ≤ n + 1) (hrest : Stops rest) :
    ∃ e, application nested (us ++ rest) = .ok e rest := by
  obtain ⟨f, vs, hf, hvs, hlt⟩ := chained_leaves hn hr h hlen hrest
  have hargument : ∀ ws, Unchained rest ws → ws.length ≤ vs.length →
      Kind.startsOperand (kind (ws ++ rest)) = true →
      Leaves (chained nested) (Unchained rest) rest ws := by
    intro ws hws hle hbegins
    exact chained_leaves hn hr (hws.follows.operand_of_after hrest hbegins) (by omega) hrest
  obtain ⟨xs, ws, hxs, ⟨⟨hws, hbang⟩, hbacktick⟩, -, hdone⟩ :=
    exists_many _ (Unchained rest) hargument hvs (Nat.le_refl _)
  -- A mark, a step or an operand would have been taken.
  have hnil : ws = [] := by
    cases hws with
    | done => rfl
    | bang ht => exact absurd ht hbang
    | step ht => exact absurd ht hbacktick
    | another h =>
      rw [kind_append (h.ne_nil rfl), h.startsOperand] at hdone
      cases hdone
  subst hnil
  exact ⟨callOf f xs, application_eq_ok hn hf hxs⟩

/-- Over a reader of `n` tokens an expression of one token more is accepted. -/
theorem readsUpTo_expressionOver : ReadsUpTo (n + 1) (expressionOver nested) := by
  intro us rest h hlen hrest
  cases h with
  | @binding t u k m ts ht hk hu hts =>
    simp only [List.length_cons] at hlen
    obtain ⟨e, he⟩ := hr hts (by omega) hrest
    have hstart : Kind.startsExpression (kind (ts ++ rest)) = true := by
      rw [kind_append (hts.ne_nil rfl)]
      exact hts.startsExpression
    refine ⟨.assignment (k == .recursiveBinding) m e (some t.location), ?_⟩
    rw [List.cons_append, List.cons_append, expressionOver_binding hk (by rw [kind_cons, ht])]
    exact assignment_eq_ok ht hu hstart he
  | application h =>
    obtain ⟨e, he⟩ := exists_application hn hr h hlen hrest
    have hstart : Kind.startsOperand (kind (us ++ rest)) = true := by
      rw [kind_append (h.ne_nil rfl)]
      exact h.startsOperand
    exact ⟨e, by rw [expressionOver_of_startsOperand hstart, he]⟩

end Nested

/-- **Completeness.**  At a depth of as many expressions as there are tokens, every sequence of
    tokens that can follow as an expression is read. -/
theorem readsUpTo_expression (depth : Nat) : ReadsUpTo depth (expression depth) := by
  induction depth with
  | zero =>
    intro us rest h hlen
    exact absurd (List.length_eq_zero_iff.mp (Nat.le_zero.mp hlen)) (h.ne_nil rfl)
  | succ depth ih => exact readsUpTo_expressionOver (expression_takes depth) ih

/-- Tokens before the end of input end where the reader stops. -/
theorem eq_of_append_eq {us ts rest : List Token} {last : Token}
    (h : ts ++ [last] = us ++ rest) (hus : ∀ t ∈ us, t.isEnd = false)
    (hts : ∀ t ∈ ts, t.isEnd = false) (hlast : last.isEnd = true)
    (hrest : kind rest = .endOfInput) : us = ts := by
  rcases List.append_eq_append_iff.mp h with ⟨vs, rfl, hvs⟩ | ⟨vs, rfl, hvs⟩
  · cases vs with
    | nil => simp
    | cons v vs =>
      have hv : v = last := by simpa using congrArg List.head? hvs.symm
      have hend := hus v (by simp)
      rw [hv, hlast] at hend
      cases hend
  · cases vs with
    | nil => simp
    | cons v vs =>
      have hend := hts v (by simp)
      rw [hvs, List.cons_append, kind_cons] at hrest
      rw [Token.isEnd, hrest] at hend
      cases hend

/-- **The reader accepts the grammar and nothing else.**  Tokens before the end of input are
    read as a program exactly when the grammar generates them, at any depth that does not fall
    short of their number. -/
theorem program_ok_iff_generates {ts : List Token} {last : Token} {depth : Nat}
    (hts : ∀ t ∈ ts, t.isEnd = false) (hlast : last.isEnd = true) (hdepth : ts.length ≤ depth) :
    (∃ e rest, program depth (ts ++ [last]) = .ok e rest) ↔ Generates .expression ts := by
  constructor
  · rintro ⟨e, rest, h⟩
    obtain ⟨used, hused, hbuilds, hrest⟩ := program_takes h
    rw [← eq_of_append_eq hused hbuilds.isEnd hts hlast hrest]
    exact hbuilds.generates
  · intro h
    have hfollows := h.follows
    have hend : kind [last] = .endOfInput := by simpa [Token.isEnd] using hlast
    obtain ⟨e, he⟩ := readsUpTo_expression depth hfollows hdepth (stops_of_end hend)
    refine ⟨e, [last], program_eq_ok ?_ he hend⟩
    rw [kind_append (hfollows.ne_nil rfl)]
    exact hfollows.startsExpression

/-- A function whose body could end before the mark, before the step or before the last
    operand. -/
theorem program_ok_iff_generates_function :
    ∃ ts : List Token,
      ts.map Token.shape =
        [.symbol "f", .keyword .function, .symbol "g", .punctuation .openParen,
          .punctuation .closeParen, .symbol "x", .punctuation .bang, .punctuation .backtick,
          .symbol "h", .symbol "y"] ∧
        (∀ t ∈ ts, t.isEnd = false) ∧ Generates .expression ts := by
  let ts : List Token :=
    [.symbol "f", .keyword .function, .symbol "g", .punctuation .openParen,
      .punctuation .closeParen, .symbol "x", .punctuation .bang, .punctuation .backtick,
      .symbol "h", .symbol "y"].map (⟨·, ending.location⟩)
  have hts : ∀ t ∈ ts, t.isEnd = false := by decide
  have hread : ∃ e rest, program ts.length (ts ++ [ending]) = .ok e rest := ⟨_, _, rfl⟩
  exact ⟨ts, rfl, hts, (program_ok_iff_generates hts rfl (Nat.le_refl _)).mp hread⟩

end Juxta.Grammar
