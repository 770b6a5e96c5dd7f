/-
  Juxta/Proofs/Grammar/Greedy.lean
  ================================
  **What each production returns** — one equation for each production of the grammar over a
  list of tokens, from what its parts return.  A repetition is given by its items (`Many`,
  `Later`), so that none of the equations mentions a bound.

  `Stops rest` describes the tokens behind which nothing that comes before them goes on: no
  operand, no mark `!` and no step.  All that closes a statement is of this kind.
-/
import Juxta.Proofs.Grammar.Derivation

namespace Juxta.Grammar

open TokenList

/-! ### Where expressions end -/

/-- Tokens behind which nothing goes on that comes before them. -/
structure Stops (rest : List Token) : Prop where
  operand : Kind.startsOperand (kind rest) = false
  bang : kind rest ≠ .punctuation .bang
  backtick : kind rest ≠ .punctuation .backtick

theorem stops_of_end {rest : List Token} (h : kind rest = .endOfInput) : Stops rest := by
  constructor <;> rw [h] <;> decide

theorem stops_of_semicolon {rest : List Token} (h : kind rest = .punctuation .semicolon) :
    Stops rest := by
  constructor <;> rw [h] <;> decide

theorem stops_of_closer {rest : List Token} {b : Bracket}
    (h : kind rest = .punctuation b.closer) : Stops rest := by
  constructor <;> rw [h] <;> cases b <;> decide

theorem startsExpression_of_startsOperand {k : Kind} (h : k.startsOperand = true) :
    k.startsExpression = true := by
  simp only [Kind.startsOperand, Kind.startsExpression, Kind.expressionStarts,
    List.contains_iff_mem] at h ⊢
  exact List.mem_append_left _ h

theorem startsExpression_closer (b : Bracket) :
    Kind.startsExpression (.punctuation b.closer) = false := by
  cases b <;> rfl

/-! ### Functions and parameters -/

theorem functionName_eq_ok {us rest : List Token} {n : Option String} (h : IsFunctionName us n)
    (hsymbol : us = [] → kind rest ≠ .symbol) : functionName (us ++ rest) = .ok n rest := by
  cases h with
  | unnamed => exact functionName_of_ne (hsymbol rfl)
  | named ht => exact functionName_cons ht rest

theorem parametersUpTo_eq_ok {ts : List Token} {ns : List String} (h : AreNames ts ns)
    (rest : List Token) {n : Nat} (hn : ts.length ≤ n) :
    parametersUpTo n (ts ++ rest) = .ok ns rest := by
  induction h generalizing n with
  | @last t c m ht hc =>
    cases n with
    | zero => simp at hn
    | succ n =>
      change parametersUpTo (n + 1) (t :: c :: rest) = _
      rw [parametersUpTo, bind_of_ok (name_cons ht _ _), bind_of_ok (accept_cons hc rest)]
      rfl
  | @more t c m ts ms ht hc _ ih =>
    cases n with
    | zero => simp at hn
    | succ n =>
      have hlater := ih (n := n) (by simp at hn; omega)
      have hopen : kind (c :: (ts ++ rest)) ≠ .punctuation .closeParen := by
        rw [kind_cons, hc]
        decide
      change parametersUpTo (n + 1) (t :: c :: (ts ++ rest)) = _
      rw [parametersUpTo, bind_of_ok (name_cons ht _ _), bind_of_ok (accept_of_ne hopen)]
      rw [if_neg (by decide), bind_of_ok (accept_cons hc _), if_pos rfl, bind_of_ok hlater]
      rfl

theorem AreNames.kind_eq {ts : List Token} {ns : List String} (h : AreNames ts ns) :
    kind ts = .symbol := by
  cases h with
  | last ht | more ht => rw [kind_cons, Token.kind, ht]; rfl

theorem parameters_eq_ok {ts rest : List Token} {ns : List String} (h : AreParameters ts ns)
    (hparen : ts = [] → kind rest ≠ .punctuation .openParen) :
    parameters (ts ++ rest) = .ok ns rest := by
  cases h with
  | absent =>
    rw [parameters, List.nil_append, bind_of_ok (accept_of_ne (hparen rfl))]
    rfl
  | @empty t c ht hc =>
    change parameters (t :: c :: rest) = _
    rw [parameters, bind_of_ok (accept_cons ht _), if_pos rfl, bind_of_ok (accept_cons hc _)]
    rfl
  | @names t ts _ ht hns =>
    have hopen : kind (ts ++ rest) ≠ .punctuation .closeParen := by
      have hne : ts ≠ [] := by
        rintro rfl
        cases hns
      rw [kind_append hne, hns.kind_eq]
      decide
    have hbound : ts.length ≤ TokenSupply.bound (ts ++ rest) + 1 := by
      have hlen : TokenSupply.bound (ts ++ rest) = ts.length + rest.length := List.length_append
      omega
    rw [List.cons_append, parameters, bind_of_ok (accept_cons ht _), if_pos rfl,
      bind_of_ok (accept_of_ne hopen), if_neg (by decide), get_bind]
    exact parametersUpTo_eq_ok hns rest hbound

section Nested

variable {nested : Reader (List Token) Expr}

/-- A function is known by its body once its name and its parameters are. -/
theorem function_eq_bind {t : Token} {us vs ws : List Token} {n : Option String}
    {ps : List String} (ht : t.kind = .keyword .function) (hn : IsFunctionName us n)
    (hps : AreParameters vs ps) (hsymbol : us = [] → kind (vs ++ ws) ≠ .symbol)
    (hparen : vs = [] → kind ws ≠ .punctuation .openParen) :
    function nested (t :: (us ++ vs ++ ws)) =
      (functionBody nested >>= fun e => pure (.function n ps e (some t.location))) ws := by
  rw [List.append_assoc, function, bind_of_ok (take_cons (isEnd_of_keyword ht) _),
    bind_of_ok (functionName_eq_ok hn hsymbol), bind_of_ok (parameters_eq_ok hps hparen)]

theorem function_eq_ok {t : Token} {us vs ws rest : List Token} {n : Option String}
    {ps : List String} {e : Expr} (ht : t.kind = .keyword .function) (hn : IsFunctionName us n)
    (hps : AreParameters vs ps) (hsymbol : us = [] → kind (vs ++ ws) ≠ .symbol)
    (hparen : vs = [] → kind ws ≠ .punctuation .openParen)
    (hbody : functionBody nested ws = .ok e rest) :
    function nested (t :: (us ++ vs ++ ws)) = .ok (.function n ps e (some t.location)) rest := by
  rw [function_eq_bind ht hn hps hsymbol hparen, bind_of_ok hbody]
  rfl

/-! ### Blocks -/

/-- What follows a statement of a block, up to its closing bracket. -/
inductive Later (nested : Reader (List Token) Expr) (b : Bracket) :
    List Token → Bool × List Expr → List Token → Prop where
  | done {rest : List Token} :
      kind rest = .punctuation b.closer → Later nested b rest (false, []) rest
  | trailing {t : Token} {rest : List Token} :
      t.kind = .punctuation .semicolon → kind rest = .punctuation b.closer →
      Later nested b (t :: rest) (true, []) rest
  | more {t : Token} {ts mid rest : List Token} {e : Expr} {separated : Bool} {xs : List Expr} :
      t.kind = .punctuation .semicolon → Kind.startsExpression (kind ts) = true →
      nested ts = .ok e mid → Later nested b mid (separated, xs) rest →
      Later nested b (t :: ts) (true, e :: xs) rest

theorem statement_eq_ok {b : Bracket} {ts rest : List Token} {e : Expr}
    (hstart : Kind.startsExpression (kind ts) = true) (h : nested ts = .ok e rest) :
    statement nested b ts = .ok e rest := by
  rw [statement, nextIs_bind, hstart, if_pos rfl, h]

theorem ne_closer_of_startsExpression {ts : List Token} (b : Bracket)
    (h : Kind.startsExpression (kind ts) = true) :
    (kind ts == .punctuation b.closer) = false := by
  rw [beq_eq_false_iff_ne]
  intro hcloser
  rw [hcloser, startsExpression_closer] at h
  cases h

theorem Later.kind_eq {b : Bracket} {ts rest : List Token} {v : Bool × List Expr}
    (h : Later nested b ts v rest) : kind rest = .punctuation b.closer := by
  induction h with
  | done hcloser | trailing _ hcloser => exact hcloser
  | more _ _ _ _ ih => exact ih

theorem Later.stops {b : Bracket} {ts rest : List Token} {v : Bool × List Expr}
    (h : Later nested b ts v rest) : Stops ts := by
  cases h with
  | done hcloser => exact stops_of_closer hcloser
  | trailing ht | more ht => exact stops_of_semicolon ht

theorem Later.moreStatements_eq_ok (hn : Takes nested (Builds .expression)) {b : Bracket}
    {ts rest : List Token} {v : Bool × List Expr} (h : Later nested b ts v rest) {n : Nat}
    (hle : ts.length ≤ n) : moreStatements nested b n ts = .ok v rest := by
  induction h generalizing n with
  | done hcloser =>
    refine moreStatements_done b ?_ n
    rw [hcloser]
    cases b <;> decide
  | trailing ht hcloser =>
    cases n with
    | zero => simp at hle
    | succ n =>
      rw [moreStatements, bind_of_ok (accept_cons ht _), if_pos rfl, nextIs_bind, hcloser,
        beq_self_eq_true]
      rfl
  | @more t ts mid rest e separated xs ht hstart he _ ih =>
    cases n with
    | zero => simp at hle
    | succ n =>
      obtain ⟨used, rfl, -⟩ := hn he
      have hlater := ih (n := n) (by simp at hle; omega)
      rw [moreStatements, bind_of_ok (accept_cons ht _), if_pos rfl, nextIs_bind,
        ne_closer_of_startsExpression b hstart, if_neg (by decide),
        bind_of_ok (statement_eq_ok hstart he), bind_of_ok hlater]
      rfl

/-- The statements of a block, up to its closing bracket. -/
inductive Statements (nested : Reader (List Token) Expr) (b : Bracket) :
    List Token → Bool × List Expr → List Token → Prop where
  | none {rest : List Token} :
      kind rest = .punctuation b.closer → Statements nested b rest (false, []) rest
  | some {ts mid rest : List Token} {e : Expr} {separated : Bool} {xs : List Expr} :
      Kind.startsExpression (kind ts) = true → nested ts = .ok e mid →
      Later nested b mid (separated, xs) rest → Statements nested b ts (separated, e :: xs) rest

theorem Statements.statements_eq_ok (hn : Takes nested (Builds .expression)) {b : Bracket}
    {ts rest : List Token} {v : Bool × List Expr} (h : Statements nested b ts v rest) :
    statements nested b ts = .ok v rest := by
  cases h with
  | none hcloser =>
    rw [statements, nextIs_bind, hcloser, beq_self_eq_true]
    rfl
  | @some mid _ e separated xs hstart he hlater =>
    have hmore : moreStatements nested b (TokenSupply.bound mid) mid = .ok (separated, xs) rest :=
      hlater.moreStatements_eq_ok hn (Nat.le_refl _)
    rw [statements, nextIs_bind, ne_closer_of_startsExpression b hstart, if_neg (by decide),
      bind_of_ok (statement_eq_ok hstart he), get_bind, bind_of_ok hmore]
    rfl

theorem Statements.kind_eq {b : Bracket} {ts rest : List Token} {v : Bool × List Expr}
    (h : Statements nested b ts v rest) : kind rest = .punctuation b.closer := by
  cases h with
  | none hcloser => exact hcloser
  | some _ _ hlater => exact hlater.kind_eq

/-- A block returns what its statements are, up to the closing bracket that comes next. -/
theorem block_eq_ok (hn : Takes nested (Builds .expression)) {b : Bracket} {t c : Token}
    {ts rest : List Token} {separated : Bool} {xs : List Expr}
    (ht : t.kind = .punctuation b.opener)
    (h : Statements nested b ts (separated, xs) (c :: rest)) :
    block nested b (t :: ts) = .ok (blockOf b separated xs t.location) rest := by
  have hc : c.kind = .punctuation b.closer := h.kind_eq
  have hopen : (kind (c :: rest) == .endOfInput) = false := by
    rw [kind_cons, hc]
    rfl
  rw [block, bind_of_ok (take_cons (isEnd_of_punctuation ht) ts),
    bind_of_ok (h.statements_eq_ok hn)]
  dsimp only
  rw [nextIs_bind, hopen, if_neg (by decide), bind_of_ok (accept_cons hc rest)]
  rfl

/-! ### Operands and what is applied to them -/

theorem invoked_eq_ok {ts mid rest : List Token} {e : Expr} {marks : List Token}
    (h : operand nested ts = .ok e mid)
    (hmarks : Many (· == .punctuation .bang) take mid marks rest) :
    invoked nested ts = .ok (marks.foldl (fun e _ => .invocation e e.location) e) rest := by
  rw [invoked, bind_of_ok h, bind_of_ok (hmarks.many_eq_ok take_consumes)]
  rfl

theorem step_eq_ok (hn : Takes nested (Builds .expression)) {t : Token}
    {ts mid rest : List Token} {p : Expr} {xs : List Expr}
    (ht : t.kind = .punctuation .backtick) (hstart : Kind.startsOperand (kind ts) = true)
    (hp : invoked nested ts = .ok p mid)
    (hxs : Many Kind.startsOperand (invoked nested) mid xs rest) :
    step nested (t :: ts) = .ok (.mk p xs) rest := by
  rw [step, bind_of_ok (take_cons (isEnd_of_punctuation ht) ts), nextIs_bind, hstart, if_pos rfl,
    bind_of_ok hp, bind_of_ok (hxs.many_eq_ok (invoked_consumes hn _))]
  rfl

theorem chained_eq_ok (hn : Takes nested (Builds .expression)) {ts mid rest : List Token}
    {e : Expr} {ss : List Step} (he : invoked nested ts = .ok e mid)
    (hss : Many (· == .punctuation .backtick) (step nested) mid ss rest) :
    chained nested ts = .ok (chainOf e ss) rest := by
  rw [chained, bind_of_ok he, bind_of_ok (hss.many_eq_ok (step_consumes hn))]
  rfl

theorem application_eq_ok (hn : Takes nested (Builds .expression)) {ts mid rest : List Token}
    {f : Expr} {xs : List Expr} (hf : chained nested ts = .ok f mid)
    (hxs : Many Kind.startsOperand (chained nested) mid xs rest) :
    application nested ts = .ok (callOf f xs) rest := by
  rw [application, bind_of_ok hf, bind_of_ok (hxs.many_eq_ok (chained_consumes hn _))]
  rfl

theorem assignment_eq_ok {t u : Token} {k : Keyword} {n : String} {ts rest : List Token}
    {e : Expr} (ht : t.kind = .keyword k) (hu : u.shape = .symbol n)
    (hstart : Kind.startsExpression (kind ts) = true) (he : nested ts = .ok e rest) :
    assignment nested k (t :: u :: ts) =
      .ok (.assignment (k == .recursiveBinding) n e (some t.location)) rest := by
  rw [assignment, bind_of_ok (take_cons (isEnd_of_keyword ht) _), bind_of_ok (name_cons hu _ _),
    nextIs_bind, hstart, if_pos rfl, bind_of_ok he]
  rfl

end Nested

/-- An expression that begins with an operand is no binding. -/
theorem expressionOver_of_startsOperand {nested : Reader (List Token) Expr} {ts : List Token}
    (h : Kind.startsOperand (kind ts) = true) :
    expressionOver nested ts = application nested ts := by
  refine expressionOver_application fun k hk hkeyword => ?_
  rw [hkeyword] at h
  cases k with
  | function => exact hk rfl
  | binding | recursiveBinding => cases h

theorem program_eq_ok {depth : Nat} {ts rest : List Token} {e : Expr}
    (hstart : Kind.startsExpression (kind ts) = true) (he : expression depth ts = .ok e rest)
    (hrest : kind rest = .endOfInput) : program depth ts = .ok e rest := by
  rw [program, nextIs_bind, hstart, if_pos rfl, bind_of_ok he, nextIs_bind, hrest,
    beq_self_eq_true]
  rfl

end Juxta.Grammar
