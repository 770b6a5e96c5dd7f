/-
  Juxta/Proofs/Grammar/Derivation.lean
  ====================================
  **Which tokens build which tree** — `Builds phrase tokens value` derives what a sequence of
  tokens stands for, one rule for each form of the grammar.  The rules say how a phrase is
  made of its parts and nothing about the way in which the parts are found: where an operand
  could belong to two phrases, both are derivable.

  `expression_takes` is the one analysis of the productions that the properties of trees
  rest on: whatever the reader returns is built by the tokens that it has taken.  Anything
  that holds of all trees read from tokens is then an induction over `Builds`.
-/
import Juxta.Proofs.Grammar.Reader

namespace Juxta.Grammar

open TokenList

/-! ### Derivations -/

/-- The phrases of the grammar. -/
inductive Phrase where
  | expression
  /-- The arguments of a call, one chained operand after another. -/
  | arguments
  | chained
  /-- The steps of a chain. -/
  | steps
  /-- The extra arguments of a step. -/
  | extras
  | invoked
  | operand
  /-- The body of a function. -/
  | body
  | block (bracket : Bracket)
  /-- The statements between two brackets. -/
  | statements
  /-- What follows a statement: more statements, each after a `;`. -/
  | later
deriving DecidableEq, Repr

/-- What a phrase stands for.  The statements of a block come with the answer whether there is
    a `;` among them. -/
abbrev Phrase.Value : Phrase → Type
  | .expression | .chained | .invoked | .operand | .body | .block _ => Expr
  | .arguments | .extras => List Expr
  | .steps => List Step
  | .statements | .later => Bool × List Expr

/-- A function may have a name. -/
inductive IsFunctionName : List Token → Option String → Prop where
  | unnamed : IsFunctionName [] none
  | named {t : Token} {n : String} : t.shape = .symbol n → IsFunctionName [t] (some n)

/-- Names with commas between them, and the closing parenthesis. -/
inductive AreNames : List Token → List String → Prop where
  | last {t c : Token} {n : String} :
      t.shape = .symbol n → c.kind = .punctuation .closeParen → AreNames [t, c] [n]
  | more {t c : Token} {n : String} {ts : List Token} {ns : List String} :
      t.shape = .symbol n → c.kind = .punctuation .comma → AreNames ts ns →
      AreNames (t :: c :: ts) (n :: ns)

/-- A function may have a list of parameters. -/
inductive AreParameters : List Token → List String → Prop where
  | absent : AreParameters [] []
  | empty {t c : Token} :
      t.kind = .punctuation .openParen → c.kind = .punctuation .closeParen →
      AreParameters [t, c] []
  | names {t : Token} {ts : List Token} {ns : List String} :
      t.kind = .punctuation .openParen → AreNames ts ns → AreParameters (t :: ts) ns

/-- What a sequence of tokens stands for. -/
inductive Builds : (p : Phrase) → List Token → p.Value → Prop where
  | binding {t u : Token} {k : Keyword} {n : String} {ts : List Token} {e : Expr} :
      t.kind = .keyword k → k ≠ .function → u.shape = .symbol n → Builds .expression ts e →
      Builds .expression (t :: u :: ts)
        (.assignment (k == .recursiveBinding) n e (some t.location))
  | application {us vs : List Token} {f : Expr} {xs : List Expr} :
      Builds .chained us f → Builds .arguments vs xs →
      Builds .expression (us ++ vs) (callOf f xs)
  | noArgument : Builds .arguments [] []
  | argument {us vs : List Token} {x : Expr} {xs : List Expr} :
      Builds .chained us x → Builds .arguments vs xs → Builds .arguments (us ++ vs) (x :: xs)
  | chained {us vs : List Token} {e : Expr} {ss : List Step} :
      Builds .invoked us e → Builds .steps vs ss → Builds .chained (us ++ vs) (chainOf e ss)
  | noStep : Builds .steps [] []
  | step {t : Token} {us vs ws : List Token} {p : Expr} {xs : List Expr} {ss : List Step} :
      t.kind = .punctuation .backtick → Builds .invoked us p → Builds .extras vs xs →
      Builds .steps ws ss → Builds .steps (t :: (us ++ vs) ++ ws) (.mk p xs :: ss)
  | noExtra : Builds .extras [] []
  | extra {us vs : List Token} {x : Expr} {xs : List Expr} :
      Builds .invoked us x → Builds .extras vs xs → Builds .extras (us ++ vs) (x :: xs)
  | operand {ts : List Token} {e : Expr} : Builds .operand ts e → Builds .invoked ts e
  | invocation {t : Token} {ts : List Token} {e : Expr} :
      Builds .invoked ts e → t.kind = .punctuation .bang →
      Builds .invoked (ts ++ [t]) (.invocation e e.location)
  | literal {t : Token} {v : Literal} :
      t.shape.literal? = some v → Builds .operand [t] (.literal v (some t.location))
  | symbol {t : Token} {n : String} :
      t.shape = .symbol n → Builds .operand [t] (.symbol n (some t.location))
  | function {t : Token} {us vs ws : List Token} {n : Option String} {ps : List String}
      {e : Expr} :
      t.kind = .keyword .function → IsFunctionName us n → AreParameters vs ps →
      Builds .body ws e → (us = [] → kind (vs ++ ws) ≠ .symbol) →
      (vs = [] → kind ws ≠ .punctuation .openParen) →
      Builds .operand (t :: (us ++ vs ++ ws)) (.function n ps e (some t.location))
  | bracketed {b : Bracket} {ts : List Token} {e : Expr} :
      Builds (.block b) ts e → Builds .operand ts e
  | braces {ts : List Token} {e : Expr} : Builds (.block .brace) ts e → Builds .body ts e
  | open {ts : List Token} {e : Expr} :
      Builds .expression ts e → kind ts ≠ .punctuation .openBrace → Builds .body ts e
  | block {b : Bracket} {t c : Token} {ts : List Token} {separated : Bool} {xs : List Expr} :
      t.kind = .punctuation b.opener → Builds .statements ts (separated, xs) →
      c.kind = .punctuation b.closer →
      Builds (.block b) (t :: ts ++ [c]) (blockOf b separated xs t.location)
  | noStatement : Builds .statements [] (false, [])
  | statements {us vs : List Token} {e : Expr} {separated : Bool} {xs : List Expr} :
      Builds .expression us e → Builds .later vs (separated, xs) →
      Builds .statements (us ++ vs) (separated, e :: xs)
  | noMore : Builds .later [] (false, [])
  | trailing {t : Token} : t.kind = .punctuation .semicolon → Builds .later [t] (true, [])
  | later {t : Token} {us vs : List Token} {e : Expr} {separated : Bool} {xs : List Expr} :
      t.kind = .punctuation .semicolon → Builds .expression us e →
      Builds .later vs (separated, xs) → Builds .later (t :: us ++ vs) (true, e :: xs)

/-- Phrases that may be empty. -/
def Phrase.mayBeEmpty : Phrase → Bool
  | .arguments | .steps | .extras | .statements | .later => true
  | _ => false

/-- The tokens of an expression, and of its parts that are one, are at least one. -/
theorem Builds.ne_nil {p : Phrase} {ts : List Token} {v : p.Value} (h : Builds p ts v)
    (hp : p.mayBeEmpty = false) : ts ≠ [] := by
  induction h with
  | application _ _ ihf _ => exact List.append_ne_nil_of_left_ne_nil (ihf rfl) _
  | chained _ _ ihe _ => exact List.append_ne_nil_of_left_ne_nil (ihe rfl) _
  | operand _ ih => exact ih rfl
  | bracketed _ ih => exact ih rfl
  | braces _ ih => exact ih rfl
  | «open» _ _ ih => exact ih rfl
  | noArgument => cases hp
  | argument => cases hp
  | noStep => cases hp
  | step => cases hp
  | noExtra => cases hp
  | extra => cases hp
  | noStatement => cases hp
  | statements => cases hp
  | noMore => cases hp
  | trailing => cases hp
  | later => cases hp
  | _ => simp

/-! ### The tokens of a derivation -/

theorem isEnd_of_kind {t : Token} {k : Kind} (h : t.kind = k) (hk : k ≠ .endOfInput) :
    t.isEnd = false := by
  rw [Token.isEnd, h, beq_eq_false_iff_ne]
  exact hk

theorem isEnd_of_punctuation {t : Token} {p : Punctuation} (h : t.kind = .punctuation p) :
    t.isEnd = false := isEnd_of_kind h (punctuation_ne_endOfInput p)

theorem isEnd_of_keyword {t : Token} {k : Keyword} (h : t.kind = .keyword k) :
    t.isEnd = false := isEnd_of_kind h (keyword_ne_endOfInput k)

theorem isEnd_of_literal? {t : Token} {v : Literal} (h : t.shape.literal? = some v) :
    t.isEnd = false := by
  refine isEnd_of_kind rfl ?_
  rw [Token.kind]
  intro hend
  cases hs : t.shape <;> rw [hs] at h hend <;> cases h <;> cases hend

theorem AreNames.isEnd {ts : List Token} {ns : List String} (h : AreNames ts ns) :
    ∀ t ∈ ts, t.isEnd = false := by
  induction h with
  | last ht hc =>
    simp only [List.forall_mem_cons]
    exact ⟨isEnd_of_shape_eq_symbol ht, isEnd_of_punctuation hc, by simp⟩
  | more ht hc _ ih =>
    simp only [List.forall_mem_cons]
    exact ⟨isEnd_of_shape_eq_symbol ht, isEnd_of_punctuation hc, ih⟩

theorem AreParameters.isEnd {ts : List Token} {ns : List String} (h : AreParameters ts ns) :
    ∀ t ∈ ts, t.isEnd = false := by
  cases h with
  | absent => simp
  | empty ht hc =>
    simp only [List.forall_mem_cons]
    exact ⟨isEnd_of_punctuation ht, isEnd_of_punctuation hc, by simp⟩
  | names ht hns =>
    simp only [List.forall_mem_cons]
    exact ⟨isEnd_of_punctuation ht, hns.isEnd⟩

theorem IsFunctionName.isEnd {ts : List Token} {n : Option String} (h : IsFunctionName ts n) :
    ∀ t ∈ ts, t.isEnd = false := by
  cases h with
  | unnamed => simp
  | named ht => simpa using isEnd_of_shape_eq_symbol ht

/-- The end of input takes no part in a derivation. -/
theorem Builds.isEnd {p : Phrase} {ts : List Token} {v : p.Value} (h : Builds p ts v) :
    ∀ t ∈ ts, t.isEnd = false := by
  induction h with
  | binding ht _ hu _ ih =>
    simp only [List.forall_mem_cons]
    exact ⟨isEnd_of_keyword ht, isEnd_of_shape_eq_symbol hu, ih⟩
  | application _ _ ihf ihxs => exact List.forall_mem_append.mpr ⟨ihf, ihxs⟩
  | argument _ _ ihx ihxs => exact List.forall_mem_append.mpr ⟨ihx, ihxs⟩
  | chained _ _ ihe ihss => exact List.forall_mem_append.mpr ⟨ihe, ihss⟩
  | step ht _ _ _ ihp ihxs ihss =>
    simp only [List.cons_append, List.forall_mem_cons, List.forall_mem_append]
    exact ⟨isEnd_of_punctuation ht, ⟨ihp, ihxs⟩, ihss⟩
  | extra _ _ ihx ihxs => exact List.forall_mem_append.mpr ⟨ihx, ihxs⟩
  | invocation _ ht ih =>
    simp only [List.forall_mem_append, List.forall_mem_singleton]
    exact ⟨ih, isEnd_of_punctuation ht⟩
  | literal ht => simpa using isEnd_of_literal? ht
  | symbol ht => simpa using isEnd_of_shape_eq_symbol ht
  | function ht hn hps _ _ _ ih =>
    simp only [List.forall_mem_cons, List.forall_mem_append]
    exact ⟨isEnd_of_keyword ht, ⟨hn.isEnd, hps.isEnd⟩, ih⟩
  | @block b _ _ _ _ _ ht _ hc ih =>
    simp only [List.cons_append, List.forall_mem_cons, List.forall_mem_append]
    exact ⟨isEnd_of_punctuation ht, ih, isEnd_of_punctuation hc, by simp⟩
  | trailing ht => simpa using isEnd_of_punctuation ht
  | later ht _ _ ihe ihxs =>
    simp only [List.cons_append, List.forall_mem_cons, List.forall_mem_append]
    exact ⟨isEnd_of_punctuation ht, ihe, ihxs⟩
  | statements _ _ ihe ihxs => exact List.forall_mem_append.mpr ⟨ihe, ihxs⟩
  | operand _ ih | bracketed _ ih | braces _ ih | «open» _ _ ih => exact ih
  | noArgument | noStep | noExtra | noStatement | noMore => simp

/-! ### What the productions take -/

/-- The parameters up to the closing parenthesis, when the bound exceeds the tokens. -/
theorem parametersUpTo_takes {n : Nat} {ts rest : List Token} {ps : List String}
    (hn : ts.length < n) (h : parametersUpTo n ts = .ok ps rest) :
    ∃ used, ts = used ++ rest ∧ AreNames used ps := by
  induction n generalizing ts ps with
  | zero => omega
  | succ n ih =>
    obtain ⟨first, mid, hfirst, h₁⟩ := bind_eq_ok.mp h
    obtain ⟨t, rfl, ht⟩ := name_eq_ok.mp hfirst
    obtain ⟨closed, mid', hclosed, h₂⟩ := bind_eq_ok.mp h₁
    rcases accept_eq_ok.mp hclosed with ⟨rfl, c, rfl, hc⟩ | ⟨rfl, rfl, -⟩
    · obtain ⟨rfl, rfl⟩ := pure_eq_ok.mp h₂
      exact ⟨[t, c], rfl, .last ht hc⟩
    · obtain ⟨separated, mid'', hseparated, h₃⟩ := bind_eq_ok.mp h₂
      rcases accept_eq_ok.mp hseparated with ⟨rfl, c, rfl, hc⟩ | ⟨rfl, rfl, -⟩
      · obtain ⟨later, mid₃, hlater, h₄⟩ := bind_eq_ok.mp h₃
        obtain ⟨rfl, rfl⟩ := pure_eq_ok.mp h₄
        obtain ⟨used, rfl, hnames⟩ := ih (by simp at hn; omega) hlater
        exact ⟨t :: c :: used, rfl, .more ht hc hnames⟩
      · exact absurd h₃ (refuse_ne_ok _ _ _ _)

theorem parameters_takes {ts rest : List Token} {ps : List String}
    (h : parameters ts = .ok ps rest) :
    ∃ used, ts = used ++ rest ∧ AreParameters used ps ∧
      (used = [] → kind rest ≠ .punctuation .openParen) := by
  obtain ⟨opened, mid, hopened, h₁⟩ := bind_eq_ok.mp h
  rcases accept_eq_ok.mp hopened with ⟨rfl, t, rfl, ht⟩ | ⟨rfl, rfl, hne⟩
  · obtain ⟨closed, mid', hclosed, h₂⟩ := bind_eq_ok.mp h₁
    rcases accept_eq_ok.mp hclosed with ⟨rfl, c, rfl, hc⟩ | ⟨rfl, rfl, -⟩
    · obtain ⟨rfl, rfl⟩ := pure_eq_ok.mp h₂
      exact ⟨[t, c], rfl, .empty ht hc, by simp⟩
    · obtain ⟨used, rfl, hnames⟩ := parametersUpTo_takes (Nat.lt_succ_self _) h₂
      exact ⟨t :: used, rfl, .names ht hnames, by simp⟩
  · obtain ⟨rfl, rfl⟩ := pure_eq_ok.mp h₁
    exact ⟨[], rfl, .absent, fun _ => hne⟩

theorem functionName_takes {ts rest : List Token} {n : Option String}
    (h : functionName ts = .ok n rest) :
    ∃ used, ts = used ++ rest ∧ IsFunctionName used n ∧ (used = [] → kind rest ≠ .symbol) := by
  by_cases hkind : kind ts = .symbol
  · obtain ⟨t, m, us, rfl, ht⟩ := exists_cons_of_kind_symbol hkind
    rw [functionName_cons ht] at h
    cases h
    exact ⟨[t], rfl, .named ht, by simp⟩
  · rw [functionName_of_ne hkind] at h
    cases h
    exact ⟨[], rfl, .unnamed, fun _ => hkind⟩

section Nested

variable {nested : Reader (List Token) Expr}

theorem statement_takes (hn : Takes nested (Builds .expression)) (b : Bracket) :
    Takes (statement nested b) (Builds .expression) := by
  intro ts e rest h
  rw [statement, nextIs_bind] at h
  split at h
  · exact hn h
  · exact absurd h (refuse_ne_ok _ _ _ _)

theorem moreStatements_takes (hn : Takes nested (Builds .expression)) (b : Bracket) (n : Nat) :
    Takes (moreStatements nested b n) (Builds .later) := by
  induction n with
  | zero =>
    intro ts v rest h
    obtain ⟨rfl, rfl⟩ := pure_eq_ok.mp h
    exact ⟨[], rfl, .noMore⟩
  | succ n ih =>
    intro ts v rest h
    obtain ⟨separated, mid, hseparated, h₁⟩ := bind_eq_ok.mp h
    rcases accept_eq_ok.mp hseparated with ⟨rfl, t, rfl, ht⟩ | ⟨rfl, rfl, -⟩
    · rw [if_pos rfl, nextIs_bind] at h₁
      split at h₁
      · obtain ⟨rfl, rfl⟩ := pure_eq_ok.mp h₁
        exact ⟨[t], rfl, .trailing ht⟩
      · obtain ⟨first, mid', hfirst, h₂⟩ := bind_eq_ok.mp h₁
        obtain ⟨⟨again, later⟩, mid'', hlater, h₃⟩ := bind_eq_ok.mp h₂
        obtain ⟨rfl, rfl⟩ := pure_eq_ok.mp h₃
        obtain ⟨us, rfl, hus⟩ := statement_takes hn b hfirst
        obtain ⟨vs, rfl, hvs⟩ := ih hlater
        exact ⟨t :: us ++ vs, by simp, .later ht hus hvs⟩
    · obtain ⟨rfl, rfl⟩ := pure_eq_ok.mp h₁
      exact ⟨[], rfl, .noMore⟩

theorem statements_takes (hn : Takes nested (Builds .expression)) (b : Bracket) :
    Takes (statements nested b) (Builds .statements) := by
  intro ts v rest h
  rw [statements, nextIs_bind] at h
  split at h
  · obtain ⟨rfl, rfl⟩ := pure_eq_ok.mp h
    exact ⟨[], rfl, .noStatement⟩
  · obtain ⟨first, mid, hfirst, h₁⟩ := bind_eq_ok.mp h
    rw [get_bind] at h₁
    obtain ⟨⟨separated, later⟩, mid', hlater, h₂⟩ := bind_eq_ok.mp h₁
    obtain ⟨rfl, rfl⟩ := pure_eq_ok.mp h₂
    obtain ⟨us, rfl, hus⟩ := statement_takes hn b hfirst
    obtain ⟨vs, rfl, hvs⟩ := moreStatements_takes hn b _ hlater
    exact ⟨us ++ vs, by simp, .statements hus hvs⟩

theorem block_takes (hn : Takes nested (Builds .expression)) (b : Bracket) :
    TakesAt (· == .punctuation b.opener) (block nested b) (Builds (.block b)) := by
  intro ts e rest hbegins h
  have hopener : kind ts = .punctuation b.opener := by simpa using hbegins
  obtain ⟨t, mid, ht, h₁⟩ := bind_eq_ok.mp h
  obtain rfl := (take_eq_ok hopener (punctuation_ne_endOfInput _)).mp ht
  obtain ⟨⟨separated, body⟩, mid', hbody, h₂⟩ := bind_eq_ok.mp h₁
  dsimp only at h₂
  rw [nextIs_bind] at h₂
  split at h₂
  · exact absurd h₂ (refuse_ne_ok _ _ _ _)
  · obtain ⟨closed, mid'', hclosed, h₃⟩ := bind_eq_ok.mp h₂
    rcases accept_eq_ok.mp hclosed with ⟨rfl, c, rfl, hc⟩ | ⟨rfl, rfl, -⟩
    · obtain ⟨rfl, rfl⟩ := pure_eq_ok.mp h₃
      obtain ⟨us, rfl, hus⟩ := statements_takes hn b hbody
      exact ⟨t :: us ++ [c], by simp, .block hopener hus hc⟩
    · exact absurd h₃ (refuse_ne_ok _ _ _ _)

theorem functionBody_takes (hn : Takes nested (Builds .expression)) :
    Takes (functionBody nested) (Builds .body) := by
  intro ts e rest h
  by_cases hbrace : kind ts = .punctuation .openBrace
  · rw [functionBody_brace hbrace] at h
    obtain ⟨used, rfl, hused⟩ := block_takes hn .brace (beq_iff_eq.mpr hbrace) h
    exact ⟨used, rfl, .braces hused⟩
  · cases hstart : Kind.startsExpression (kind ts) with
    | true =>
      rw [functionBody_open hbrace hstart] at h
      obtain ⟨used, rfl, hused⟩ := hn h
      refine ⟨used, rfl, .open hused ?_⟩
      rwa [kind_append (hused.ne_nil rfl)] at hbrace
    | false =>
      rw [functionBody, nextIs_bind, beq_eq_false_iff_ne.mpr hbrace, if_neg (by decide),
        nextIs_bind, hstart] at h
      exact absurd h (refuse_ne_ok _ _ _ _)

theorem function_takes (hn : Takes nested (Builds .expression)) :
    TakesAt (· == .keyword .function) (function nested) (Builds .operand) := by
  intro ts e rest hbegins h
  have hkeyword : kind ts = .keyword .function := by simpa using hbegins
  obtain ⟨t, mid, ht, h₁⟩ := bind_eq_ok.mp h
  obtain rfl := (take_eq_ok hkeyword (keyword_ne_endOfInput _)).mp ht
  obtain ⟨n, mid', hname, h₂⟩ := bind_eq_ok.mp h₁
  obtain ⟨ps, mid'', hparams, h₃⟩ := bind_eq_ok.mp h₂
  obtain ⟨body, mid₃, hbody, h₄⟩ := bind_eq_ok.mp h₃
  obtain ⟨rfl, rfl⟩ := pure_eq_ok.mp h₄
  obtain ⟨us, rfl, hus, hsymbol⟩ := functionName_takes hname
  obtain ⟨vs, rfl, hvs, hparen⟩ := parameters_takes hparams
  obtain ⟨ws, rfl, hws⟩ := functionBody_takes hn hbody
  have hne : ws ≠ [] := hws.ne_nil rfl
  refine ⟨t :: (us ++ vs ++ ws), by simp, .function hkeyword hus hvs hws ?_ ?_⟩
  · intro hu
    have hkind := hsymbol hu
    rwa [← List.append_assoc, kind_append (by simp [hne])] at hkind
  · intro hv
    have hkind := hparen hv
    rwa [kind_append hne] at hkind

theorem operand_takes (hn : Takes nested (Builds .expression)) :
    Takes (operand nested) (Builds .operand) := by
  intro ts e rest h
  have hstart := startsOperand_of_operand_eq_ok h
  obtain ⟨t, us, rfl, -, -⟩ := exists_cons_of_kind rfl hstart
  cases hs : t.shape with
  | integer _ | decimal _ _ | string _ _ =>
    rw [operand_literal (by rw [hs]; rfl)] at h
    cases h
    exact ⟨[t], rfl, .literal (by rw [hs]; rfl)⟩
  | symbol n =>
    rw [operand_symbol hs] at h
    cases h
    exact ⟨[t], rfl, .symbol hs⟩
  | keyword k =>
    cases k with
    | function =>
      have hkind : kind (t :: us) = .keyword .function := by simp [Token.kind, hs, Shape.kind]
      rw [operand_function hkind] at h
      exact function_takes hn (by simp [hkind]) h
    | _ => simp [Token.kind, hs, Shape.kind] at hstart; cases hstart
  | punctuation p =>
    have hblock (b : Bracket) (hb : p = b.opener) :
        ∃ used, t :: us = used ++ rest ∧ Builds .operand used e := by
      have hkind : kind (t :: us) = .punctuation b.opener := by
        simp [Token.kind, hs, Shape.kind, hb]
      rw [operand_block hkind] at h
      obtain ⟨used, hused, hbuilds⟩ := block_takes hn b (by simp [hkind]) h
      exact ⟨used, hused, .bracketed hbuilds⟩
    cases p with
    | openBrace => exact hblock .brace rfl
    | openParen => exact hblock .paren rfl
    | _ => simp [Token.kind, hs, Shape.kind] at hstart; cases hstart
  | endOfInput => simp [Token.kind, hs, Shape.kind] at hstart; cases hstart

/-- Marks turn what stands before them into one invocation after another. -/
theorem Builds.invocations {ts : List Token} {e : Expr} (h : Builds .invoked ts e)
    {marks : List Token} (hmarks : ∀ t ∈ marks, t.kind = .punctuation .bang) :
    Builds .invoked (ts ++ marks) (marks.foldl (fun e _ => .invocation e e.location) e) := by
  induction marks generalizing ts e with
  | nil => simpa using h
  | cons t marks ih =>
    have ht : t.kind = .punctuation .bang := hmarks t List.mem_cons_self
    have hlater := ih (h.invocation ht) fun u hu => hmarks u (List.mem_cons_of_mem t hu)
    simpa using hlater

/-- The marks after an operand are the tokens that are taken. -/
theorem marks_takes :
    Takes (many (· == .punctuation .bang) (take : Reader (List Token) Token))
      (fun used marks => used = marks ∧ ∀ t ∈ marks, t.kind = .punctuation .bang) := by
  have hitem : TakesAt (· == .punctuation .bang) (take : Reader (List Token) Token)
      (fun used t => used = [t] ∧ t.kind = .punctuation .bang) := by
    intro ts t rest hbegins ht
    have hbang : kind ts = .punctuation .bang := by simpa using hbegins
    obtain rfl := (take_eq_ok hbang (punctuation_ne_endOfInput _)).mp ht
    exact ⟨[t], rfl, rfl, hbang⟩
  refine hitem.many ⟨rfl, by simp⟩ ?_
  rintro us vs t ts ⟨rfl, ht⟩ ⟨rfl, hts⟩
  exact ⟨rfl, by simpa using ⟨ht, hts⟩⟩

theorem invoked_takes (hn : Takes nested (Builds .expression)) :
    Takes (invoked nested) (Builds .invoked) := by
  intro ts e rest h
  obtain ⟨target, mid, htarget, h₁⟩ := bind_eq_ok.mp h
  obtain ⟨marks, mid', hmarks, h₂⟩ := bind_eq_ok.mp h₁
  obtain ⟨rfl, rfl⟩ := pure_eq_ok.mp h₂
  obtain ⟨us, rfl, hus⟩ := operand_takes hn htarget
  obtain ⟨used, rfl, rfl, hbangs⟩ := marks_takes hmarks
  exact ⟨us ++ used, by simp, (Builds.operand hus).invocations hbangs⟩

theorem step_takes (hn : Takes nested (Builds .expression)) :
    TakesAt (· == .punctuation .backtick) (step nested)
      (fun used s => ∃ t us vs, used = t :: (us ++ vs) ∧ t.kind = .punctuation .backtick ∧
        Builds .invoked us s.operator ∧ Builds .extras vs s.extra) := by
  intro ts s rest hbegins h
  have hmark : kind ts = .punctuation .backtick := by simpa using hbegins
  obtain ⟨t, mid, ht, h₁⟩ := bind_eq_ok.mp h
  obtain rfl := (take_eq_ok hmark (punctuation_ne_endOfInput _)).mp ht
  rw [nextIs_bind] at h₁
  split at h₁
  · obtain ⟨p, mid', hp, h₂⟩ := bind_eq_ok.mp h₁
    obtain ⟨xs, mid'', hxs, h₃⟩ := bind_eq_ok.mp h₂
    obtain ⟨rfl, rfl⟩ := pure_eq_ok.mp h₃
    obtain ⟨us, rfl, hus⟩ := invoked_takes hn hp
    obtain ⟨vs, rfl, hvs⟩ := ((invoked_takes hn).at Kind.startsOperand).many
      (Q := Builds .extras) .noExtra (fun _ _ _ _ => .extra) hxs
    exact ⟨t :: (us ++ vs), by simp, t, us, vs, rfl, hmark, hus, hvs⟩
  · exact absurd h₁ (refuse_ne_ok _ _ _ _)

theorem chained_takes (hn : Takes nested (Builds .expression)) :
    Takes (chained nested) (Builds .chained) := by
  intro ts e rest h
  obtain ⟨seed, mid, hseed, h₁⟩ := bind_eq_ok.mp h
  obtain ⟨ss, mid', hss, h₂⟩ := bind_eq_ok.mp h₁
  obtain ⟨rfl, rfl⟩ := pure_eq_ok.mp h₂
  obtain ⟨us, rfl, hus⟩ := invoked_takes hn hseed
  have hsteps := (step_takes hn).many (Q := Builds .steps) .noStep (by
    rintro _ ws ⟨p, xs⟩ ss ⟨t, us, vs, rfl, ht, hp, hxs⟩ hss
    exact .step ht hp hxs hss)
  obtain ⟨vs, rfl, hvs⟩ := hsteps hss
  exact ⟨us ++ vs, by simp, .chained hus hvs⟩

theorem application_takes (hn : Takes nested (Builds .expression)) :
    Takes (application nested) (Builds .expression) := by
  intro ts e rest h
  obtain ⟨f, mid, hf, h₁⟩ := bind_eq_ok.mp h
  obtain ⟨xs, mid', hxs, h₂⟩ := bind_eq_ok.mp h₁
  obtain ⟨rfl, rfl⟩ := pure_eq_ok.mp h₂
  obtain ⟨us, rfl, hus⟩ := chained_takes hn hf
  obtain ⟨vs, rfl, hvs⟩ := ((chained_takes hn).at Kind.startsOperand).many
    (Q := Builds .arguments) .noArgument (fun _ _ _ _ => .argument) hxs
  exact ⟨us ++ vs, by simp, .application hus hvs⟩

theorem assignment_takes (hn : Takes nested (Builds .expression)) {k : Keyword}
    (hk : k ≠ .function) :
    TakesAt (· == .keyword k) (assignment nested k) (Builds .expression) := by
  intro ts e rest hbegins h
  have hkeyword : kind ts = .keyword k := by simpa using hbegins
  obtain ⟨t, mid, ht, h₁⟩ := bind_eq_ok.mp h
  obtain rfl := (take_eq_ok hkeyword (keyword_ne_endOfInput _)).mp ht
  obtain ⟨n, mid', hname, h₂⟩ := bind_eq_ok.mp h₁
  obtain ⟨u, rfl, hu⟩ := name_eq_ok.mp hname
  rw [nextIs_bind] at h₂
  split at h₂
  · obtain ⟨value, mid'', hvalue, h₃⟩ := bind_eq_ok.mp h₂
    obtain ⟨rfl, rfl⟩ := pure_eq_ok.mp h₃
    obtain ⟨us, rfl, hus⟩ := hn hvalue
    exact ⟨t :: u :: us, rfl, .binding hkeyword hk hu hus⟩
  · exact absurd h₂ (refuse_ne_ok _ _ _ _)

theorem expressionOver_takes (hn : Takes nested (Builds .expression)) :
    Takes (expressionOver nested) (Builds .expression) := by
  intro ts e rest h
  by_cases hkind : ∃ k, k ≠ .function ∧ kind ts = .keyword k
  · obtain ⟨k, hk, hkeyword⟩ := hkind
    rw [expressionOver_binding hk hkeyword] at h
    exact assignment_takes hn hk (by simpa using hkeyword) h
  · rw [expressionOver_application fun k hk hkeyword => hkind ⟨k, hk, hkeyword⟩] at h
    exact application_takes hn h

/-! ### Progress -/

theorem Builds.consumes {p : Phrase} (hp : p.mayBeEmpty = false)
    {x : Reader (List Token) p.Value} (h : Takes x (Builds p)) (begins : Kind → Bool) :
    Consumes begins x := by
  intro ts v rest _ hx
  obtain ⟨used, rfl, hused⟩ := h hx
  exact ⟨used, rfl, hused.ne_nil hp, hused.isEnd⟩

theorem invoked_consumes (hn : Takes nested (Builds .expression)) (begins : Kind → Bool) :
    Consumes begins (invoked nested) :=
  Builds.consumes (p := .invoked) rfl (invoked_takes hn) begins

theorem chained_consumes (hn : Takes nested (Builds .expression)) (begins : Kind → Bool) :
    Consumes begins (chained nested) :=
  Builds.consumes (p := .chained) rfl (chained_takes hn) begins

theorem step_consumes (hn : Takes nested (Builds .expression)) :
    Consumes (· == .punctuation .backtick) (step nested) := by
  intro ts s rest hbegins h
  obtain ⟨_, hts, t, us, vs, rfl, ht, hus, hvs⟩ := step_takes hn hbegins h
  refine ⟨_, hts, by simp, ?_⟩
  simp only [List.forall_mem_cons, List.forall_mem_append]
  exact ⟨isEnd_of_punctuation ht, hus.isEnd, hvs.isEnd⟩

theorem take_consumes :
    Consumes (· == .punctuation .bang) (take : Reader (List Token) Token) := by
  intro ts t rest hbegins h
  have hbang : kind ts = .punctuation .bang := by simpa using hbegins
  obtain rfl := (take_eq_ok hbang (punctuation_ne_endOfInput _)).mp h
  exact ⟨[t], rfl, by simp, by simpa using isEnd_of_punctuation hbang⟩

end Nested

/-- **What is read is built by the tokens that were taken.** -/
theorem expression_takes (depth : Nat) :
    Takes (expression depth : Reader (List Token) Expr) (Builds .expression) := by
  induction depth with
  | zero =>
    intro ts e rest h
    exact absurd h (refuse_ne_ok _ _ _ _)
  | succ depth ih => exact expressionOver_takes ih

/-- A program takes all tokens up to the end of input. -/
theorem program_takes {depth : Nat} {ts rest : List Token} {e : Expr}
    (h : program depth ts = .ok e rest) :
    ∃ used, ts = used ++ rest ∧ Builds .expression used e ∧ kind rest = .endOfInput := by
  rw [program, nextIs_bind] at h
  split at h
  · obtain ⟨e', mid, he, h₁⟩ := bind_eq_ok.mp h
    rw [nextIs_bind] at h₁
    split at h₁
    · rename_i hend
      obtain ⟨rfl, rfl⟩ := pure_eq_ok.mp h₁
      obtain ⟨used, rfl, hused⟩ := expression_takes depth he
      exact ⟨used, rfl, hused, by simpa using hend⟩
    · exact absurd h₁ (refuse_ne_ok _ _ _ _)
  · exact absurd h (refuse_ne_ok _ _ _ _)

end Juxta.Grammar
