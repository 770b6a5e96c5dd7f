/-
  Juxta/Proofs/Grammar/Completion.lean
  ====================================
  **What was read before a refusal can be completed** — a reader that refuses a token names
  the kinds that it would have accepted.  It promises nothing in vain: for each of these kinds
  the tokens before the refused one go on with a token of that kind to a sequence of the
  grammar.  `Completes S p before` states this of a set `S` of sequences, and `RefusesAt` of all
  refusals of a reader.

  The completions are the shortest ones: a name, an empty block in braces, a closing bracket.
  Only after `fn` a kind does not stand for what the place is named after: where a body is
  missing, a symbol becomes the name of the function and an opening parenthesis begins its
  parameters, unless these are already there.
-/
import Juxta.Proofs.Grammar.Language

namespace Juxta.Grammar

open TokenList

/-! ### Completions -/

/-- Whichever expected kind comes next, the tokens can be completed to a member of `S`. -/
def Completes (S : List Token → Prop) (p : Problem) (before : List Token) : Prop :=
  ∀ k ∈ p.expected, ∃ t us, t.kind = k ∧ S (before ++ t :: us)

theorem Completes.map {S S' : List Token → Prop} {p : Problem} {us vs : List Token}
    (h : Completes S p us) (hS : ∀ ws, S (us ++ ws) → S' (vs ++ ws)) : Completes S' p vs := by
  intro k hk
  obtain ⟨t, ws, ht, hws⟩ := h k hk
  exact ⟨t, ws, ht, hS _ hws⟩

theorem Completes.prepend {S S' : List Token → Prop} {p : Problem} {us : List Token}
    (h : Completes S p us) (vs : List Token) (hS : ∀ ws, S ws → S' (vs ++ ws)) :
    Completes S' p (vs ++ us) := by
  refine h.map fun ws hws => ?_
  rw [List.append_assoc]
  exact hS _ hws

theorem Completes.extend {S S' : List Token → Prop} {p : Problem} {us : List Token}
    (h : Completes S p us) (vs : List Token) (hS : ∀ ws, S ws → S' (ws ++ vs)) :
    Completes S' p us := by
  intro k hk
  obtain ⟨t, ws, ht, hws⟩ := h k hk
  refine ⟨t, ws ++ vs, ht, ?_⟩
  simpa using hS _ hws

/-- A token of the kind, where it was never read. -/
def sample (k : Kind) : Token :=
  ⟨match k with
    | .endOfInput => .endOfInput
    | .integer => .integer "0"
    | .decimal => .decimal "0" "0"
    | .string => .string .double ""
    | .symbol => .symbol "x"
    | .keyword k => .keyword k
    | .punctuation p => .punctuation p, ending.location⟩

theorem kind_sample (k : Kind) : (sample k).kind = k := by
  cases k <;> rfl

theorem shape_sample_symbol : (sample .symbol).shape = .symbol "x" := rfl

/-- An opening bracket and the closing one. -/
def emptyBlock (b : Bracket) : List Token :=
  [sample (.punctuation b.opener), sample (.punctuation b.closer)]

theorem generates_emptyBlock (b : Bracket) : Generates (.block b) (emptyBlock b) :=
  .block (kind_sample _) .noStatement (kind_sample _)

theorem generates_emptyBody : Generates .body (emptyBlock .brace) :=
  .braces (generates_emptyBlock .brace)

theorem Generates.expression_of_operand {ts : List Token} (h : Generates .operand ts) :
    Generates .expression ts := by
  have happlication := Generates.application (.chained (.operand h) .noStep) .noArgument
  simpa using happlication

theorem exists_operand {k : Kind} (hk : k ∈ Kind.operandStarts) :
    ∃ us, Generates .operand (sample k :: us) := by
  simp only [Kind.operandStarts, List.mem_cons, List.not_mem_nil, or_false] at hk
  rcases hk with rfl | rfl | rfl | rfl | rfl | rfl | rfl
  · exact ⟨[], .literal rfl⟩
  · exact ⟨[], .literal rfl⟩
  · exact ⟨[], .literal rfl⟩
  · exact ⟨[], .symbol rfl⟩
  · have hfunction := Generates.function (t := sample (.keyword .function)) rfl .unnamed .absent
      generates_emptyBody (fun _ => by decide) fun _ => by decide
    exact ⟨emptyBlock .brace, hfunction⟩
  · exact ⟨_, .bracketed (generates_emptyBlock .brace)⟩
  · exact ⟨_, .bracketed (generates_emptyBlock .paren)⟩

/-- Every kind that can begin an expression begins one. -/
theorem exists_expression {k : Kind} (hk : k ∈ Kind.expressionStarts) :
    ∃ us, Generates .expression (sample k :: us) := by
  have hvalue : Generates .expression [sample .symbol] :=
    (Generates.symbol rfl).expression_of_operand
  rcases List.mem_append.mp hk with hk | hk
  · obtain ⟨us, hus⟩ := exists_operand hk
    exact ⟨us, hus.expression_of_operand⟩
  · simp only [List.mem_cons, List.not_mem_nil, or_false] at hk
    rcases hk with rfl | rfl
    · exact ⟨[sample .symbol, sample .symbol], .binding (k := .binding) rfl (by decide) rfl hvalue⟩
    · exact ⟨[sample .symbol, sample .symbol],
        .binding (k := .recursiveBinding) rfl (by decide) rfl hvalue⟩

theorem exists_body {k : Kind} (hk : k ∈ Kind.expressionStarts) :
    ∃ us, Generates .body (sample k :: us) := by
  by_cases hbrace : k = .punctuation .openBrace
  · subst hbrace
    exact ⟨_, generates_emptyBody⟩
  · obtain ⟨us, hus⟩ := exists_expression hk
    refine ⟨us, .open hus ?_⟩
    rwa [kind_cons, kind_sample]

/-! ### Refusals of elementary readers -/

section Elements

variable {α β : Type} {ts rest : List Token} {p : Problem} {t : Token} {l : Option String}

theorem bind_eq_error {ε σ : Type} {x : EStateM ε σ α} {f : α → EStateM ε σ β} {s r : σ} {e : ε}
    (h : (x >>= f) s = .error e r) :
    x s = .error e r ∨ ∃ a m, x s = .ok a m ∧ f a m = .error e r := by
  cases hx : x s with
  | ok a m =>
    rw [bind_of_ok hx] at h
    exact Or.inr ⟨a, m, rfl, h⟩
  | error e' m =>
    rw [bind_of_error hx] at h
    cases h
    exact Or.inl rfl

theorem pure_ne_error {ε σ : Type} (a : α) (s r : σ) (e : ε) :
    (pure a : EStateM ε σ α) s ≠ .error e r := by
  intro h
  cases h

/-- What is only built from a result is refused with the reader of the result. -/
theorem bind_pure_eq_error {ε σ : Type} {x : EStateM ε σ α} {g : α → β} {s r : σ} {e : ε}
    (h : (x >>= fun a => pure (g a)) s = .error e r) : x s = .error e r := by
  rcases bind_eq_error h with herror | ⟨a, m, -, hpure⟩
  · exact herror
  · exact absurd hpure (pure_ne_error _ _ _ _)

theorem refuse_eq_error {q : Problem}
    (h : (refuse q : Reader (List Token) α) ts = .error (.syntactic ⟨p, t, l⟩) rest) :
    p = q ∧ rest = ts := by
  change EStateM.Result.error _ ts = _ at h
  cases h
  exact ⟨rfl, rfl⟩

theorem take_ne_error (e : ParseError) :
    (take : Reader (List Token) Token) ts ≠ .error e rest := by
  intro h
  change EStateM.adaptExcept _ TokenList.next ts = _ at h
  cases ts with
  | nil => cases h
  | cons u us =>
    simp only [EStateM.adaptExcept, TokenList.next] at h
    cases hu : u.isEnd <;> simp [hu] at h

theorem accept_ne_error (k : Kind) (e : ParseError) :
    (accept k : Reader (List Token) Bool) ts ≠ .error e rest := by
  intro h
  rw [accept, nextIs_bind] at h
  split at h
  · exact take_ne_error e (bind_pure_eq_error h)
  · exact pure_ne_error _ _ _ _ h

/-- What comes after a mark that may be there is refused behind it, or without it. -/
theorem accept_bind_eq_error {q : Punctuation} {f : Bool → Reader (List Token) α}
    {e : ParseError} (h : (accept (.punctuation q) >>= f) ts = .error e rest) :
    (∃ u us, ts = u :: us ∧ u.kind = .punctuation q ∧ f true us = .error e rest) ∨
      kind ts ≠ .punctuation q ∧ f false ts = .error e rest := by
  rcases bind_eq_error h with herror | ⟨b, m, hb, hf⟩
  · exact absurd herror (accept_ne_error _ _)
  · rcases accept_eq_ok.mp hb with ⟨rfl, u, rfl, hu⟩ | ⟨rfl, rfl, hne⟩
    · exact Or.inl ⟨u, m, rfl, hu, hf⟩
    · exact Or.inr ⟨hne, hf⟩

theorem name_eq_error {q : Problem}
    (h : (name q : Reader (List Token) String) ts = .error (.syntactic ⟨p, t, l⟩) rest) :
    p = q ∧ rest = ts := by
  rw [name, peek_bind] at h
  cases hs : (ts.headD ending).shape with
  | symbol n =>
    simp only [hs] at h
    exact absurd (bind_pure_eq_error h) (take_ne_error _)
  | _ =>
    simp only [hs] at h
    exact refuse_eq_error h

theorem name_bind_eq_error {q : Problem} {f : String → Reader (List Token) α}
    (h : (name q >>= f) ts = .error (.syntactic ⟨p, t, l⟩) rest) :
    (p = q ∧ rest = ts) ∨
      ∃ u us n, ts = u :: us ∧ u.shape = .symbol n ∧
        f n us = .error (.syntactic ⟨p, t, l⟩) rest := by
  rcases bind_eq_error h with herror | ⟨n, m, hn, hf⟩
  · exact Or.inl (name_eq_error herror)
  · obtain ⟨u, rfl, hu⟩ := name_eq_ok.mp hn
    exact Or.inr ⟨u, m, n, rfl, hu, hf⟩

/-- Behind a token that is taken for its kind. -/
theorem take_bind_eq_error {k : Kind} (hk : k ≠ .endOfInput) (hkind : kind ts = k)
    {f : Token → Reader (List Token) α} {e : ParseError} (h : (take >>= f) ts = .error e rest) :
    ∃ u us, ts = u :: us ∧ u.kind = k ∧ f u us = .error e rest := by
  rcases bind_eq_error h with herror | ⟨u, m, hu, hf⟩
  · exact absurd herror (take_ne_error e)
  · obtain rfl := (take_eq_ok hkind hk).mp hu
    exact ⟨u, m, rfl, hkind, hf⟩

end Elements

/-! ### Refusals of repetitions -/

section Repetition

variable {α : Type}

/-- Whenever the reader refuses a token, in front of a token of a kind that `begins` allows, it
    has taken at least one token, and what it has taken can be completed to a member of `S`. -/
def RefusesAt (begins : Kind → Bool) (x : Reader (List Token) α) (S : List Token → Prop) : Prop :=
  ∀ ⦃ts rest p t l⦄, begins (kind ts) = true → x ts = .error (.syntactic ⟨p, t, l⟩) rest →
    p ≠ .nesting → ∃ before, before ≠ [] ∧ ts = before ++ rest ∧ Completes S p before

/-- A repetition is refused within an item, behind items that are complete. -/
theorem RefusesAt.manyUpTo {begins : Kind → Bool} {item : Reader (List Token) α}
    {P : List Token → α → Prop} {S S' : List Token → Prop} (hitem : RefusesAt begins item S)
    (htakes : TakesAt begins item P) (hP : ∀ us x, P us x → S us) (hnil : S' [])
    (hcons : ∀ us vs, S us → S' vs → S' (us ++ vs)) (n : Nat) :
    RefusesAt (fun _ => true) (Grammar.manyUpTo begins item n) S' := by
  induction n with
  | zero =>
    intro ts rest p t l _ h
    exact absurd h (pure_ne_error _ _ _ _)
  | succ n ih =>
    intro ts rest p t l _ h hp
    rw [Grammar.manyUpTo, nextIs_bind] at h
    split at h
    · rename_i hbegins
      rcases bind_eq_error h with hfirst | ⟨x, mid, hx, h₁⟩
      · obtain ⟨before, hne, rfl, hbefore⟩ := hitem hbegins hfirst hp
        refine ⟨before, hne, rfl, hbefore.map fun ws hws => ?_⟩
        simpa using hcons _ _ hws hnil
      · obtain ⟨us, rfl, hus⟩ := htakes hbegins hx
        obtain ⟨before, hne, rfl, hbefore⟩ := ih rfl (bind_pure_eq_error h₁) hp
        refine ⟨us ++ before, by simp [hne], (List.append_assoc ..).symm, ?_⟩
        exact hbefore.prepend us fun ws hws => hcons _ _ (hP _ _ hus) hws
    · exact absurd h (pure_ne_error _ _ _ _)

theorem RefusesAt.many {begins : Kind → Bool} {item : Reader (List Token) α}
    {P : List Token → α → Prop} {S S' : List Token → Prop} (hitem : RefusesAt begins item S)
    (htakes : TakesAt begins item P) (hP : ∀ us x, P us x → S us) (hnil : S' [])
    (hcons : ∀ us vs, S us → S' vs → S' (us ++ vs)) :
    RefusesAt (fun _ => true) (Grammar.many begins item) S' := by
  intro ts rest p t l hbegins h hp
  rw [Grammar.many, get_bind] at h
  exact hitem.manyUpTo htakes hP hnil hcons _ hbegins h hp

end Repetition

/-! ### Refusals of productions -/

section Productions

variable {ts rest : List Token} {p : Problem} {t : Token} {l : Option String}

theorem parametersUpTo_refuses {n : Nat}
    (h : parametersUpTo n ts = .error (.syntactic ⟨p, t, l⟩) rest) :
    ∃ before, ts = before ++ rest ∧ Completes (fun us => ∃ ns, AreNames us ns) p before := by
  induction n generalizing ts with
  | zero => exact absurd h (pure_ne_error _ _ _ _)
  | succ n ih =>
    rcases name_bind_eq_error h with ⟨rfl, rfl⟩ | ⟨u, us, m, rfl, hu, h₁⟩
    · refine ⟨[], rfl, ?_⟩
      intro k hk
      obtain rfl := List.mem_singleton.mp hk
      exact ⟨sample .symbol, [sample (.punctuation .closeParen)], rfl, _, .last rfl rfl⟩
    rcases accept_bind_eq_error h₁ with ⟨c, vs, -, -, h₂⟩ | ⟨-, h₂⟩
    · exact absurd h₂ (pure_ne_error _ _ _ _)
    rcases accept_bind_eq_error h₂ with ⟨c, vs, rfl, hc, h₃⟩ | ⟨-, h₃⟩
    · obtain ⟨before, rfl, hbefore⟩ := ih (bind_pure_eq_error h₃)
      refine ⟨u :: c :: before, rfl, ?_⟩
      refine hbefore.prepend [u, c] ?_
      rintro ws ⟨ns, hns⟩
      exact ⟨_, .more hu hc hns⟩
    · obtain ⟨rfl, rfl⟩ := refuse_eq_error h₃
      refine ⟨[u], rfl, ?_⟩
      intro k hk
      simp only [Problem.expected, List.mem_cons, List.not_mem_nil, or_false] at hk
      rcases hk with rfl | rfl
      · exact ⟨sample (.punctuation .comma), [sample .symbol, sample (.punctuation .closeParen)],
          rfl, _, .more hu rfl (.last rfl rfl)⟩
      · exact ⟨sample (.punctuation .closeParen), [], rfl, _, .last hu rfl⟩

/-- Parameters that are refused have been opened. -/
theorem parameters_refuses (h : parameters ts = .error (.syntactic ⟨p, t, l⟩) rest) :
    ∃ before, ts = before ++ rest ∧ kind before = .punctuation .openParen ∧
      Completes (fun us => ∃ ns, AreParameters us ns) p before := by
  rcases accept_bind_eq_error h with ⟨o, us, rfl, ho, h₁⟩ | ⟨-, h₁⟩
  · rcases accept_bind_eq_error h₁ with ⟨c, vs, -, -, h₂⟩ | ⟨-, h₂⟩
    · exact absurd h₂ (pure_ne_error _ _ _ _)
    · rw [if_neg (by decide), get_bind] at h₂
      obtain ⟨before, rfl, hbefore⟩ := parametersUpTo_refuses h₂
      refine ⟨o :: before, rfl, ho, hbefore.prepend [o] ?_⟩
      rintro ws ⟨ns, hns⟩
      exact ⟨ns, .names ho hns⟩
  · exact absurd h₁ (pure_ne_error _ _ _ _)

theorem AreParameters.kind_append {us vs : List Token} {ns : List String}
    (h : AreParameters us ns) (hne : us ≠ []) : kind (us ++ vs) = .punctuation .openParen := by
  rw [TokenList.kind_append hne]
  cases h with
  | absent => exact absurd rfl hne
  | empty ho | names ho => exact ho

/-- Where the body of a function is missing, each kind that can begin an expression goes on with
    the function, if not always with its body. -/
theorem completes_functionBody {f : Token} {us vs : List Token} {n : Option String}
    {ps : List String} (hf : f.kind = .keyword .function) (hus : IsFunctionName us n)
    (hvs : AreParameters vs ps) :
    Completes (Generates .operand) .functionBody (f :: (us ++ vs)) := by
  intro k hk
  by_cases hnamed : k = .symbol ∧ us = [] ∧ vs = []
  · -- Right after the keyword a symbol is the name.
    obtain ⟨rfl, rfl, rfl⟩ := hnamed
    have hfunction := Generates.function hf (.named shape_sample_symbol) .absent
      generates_emptyBody (by simp) fun _ => by decide
    exact ⟨sample .symbol, emptyBlock .brace, rfl, hfunction⟩
  by_cases hopened : k = .punctuation .openParen ∧ vs = []
  · -- Without parameters an opening parenthesis begins them.
    obtain ⟨rfl, rfl⟩ := hopened
    have hfunction := Generates.function hf hus
      (.empty (kind_sample (.punctuation .openParen)) (kind_sample (.punctuation .closeParen)))
      generates_emptyBody (fun _ => by decide) (by simp)
    exact ⟨_, sample (.punctuation .closeParen) :: emptyBlock .brace, kind_sample _,
      by simpa using hfunction⟩
  obtain ⟨ws, hws⟩ := exists_body hk
  have hfunction := Generates.function hf hus hvs hws ?_ ?_
  · exact ⟨sample k, ws, kind_sample k, by simpa using hfunction⟩
  · intro hnil
    by_cases hvs' : vs = []
    · subst hvs'
      rw [List.nil_append, kind_cons, kind_sample]
      exact fun hk => hnamed ⟨hk, hnil, rfl⟩
    · rw [hvs.kind_append hvs']
      decide
  · intro hnil
    rw [kind_cons, kind_sample]
    exact fun hk => hopened ⟨hk, hnil⟩

theorem functionName_ne_error (e : ParseError) :
    (functionName : Reader (List Token) (Option String)) ts ≠ .error e rest := by
  by_cases hkind : kind ts = .symbol
  · obtain ⟨u, n, us, rfl, hu⟩ := exists_cons_of_kind_symbol hkind
    rw [functionName_cons hu]
    intro h
    cases h
  · rw [functionName_of_ne hkind]
    intro h
    cases h

theorem many_take_ne_error (begins : Kind → Bool) (e : ParseError) :
    many begins (take : Reader (List Token) Token) ts ≠ .error e rest := by
  have hupTo : ∀ n us, manyUpTo begins (take : Reader (List Token) Token) n us ≠
      .error e rest := by
    intro n
    induction n with
    | zero => exact fun us => pure_ne_error _ _ _ _
    | succ n ih =>
      intro us h
      rw [manyUpTo, nextIs_bind] at h
      split at h
      · rcases bind_eq_error h with htake | ⟨u, m, -, h₁⟩
        · exact take_ne_error e htake
        · exact ih _ (bind_pure_eq_error h₁)
      · exact pure_ne_error _ _ _ _ h
  exact hupTo _ ts

/-! ### Blocks -/

/-- A member of `S` with the closing bracket. -/
def Closed (b : Bracket) (S : List Token → Prop) (us : List Token) : Prop :=
  ∃ vs c, us = vs ++ [c] ∧ c.kind = .punctuation b.closer ∧ S vs

/-- A member of `S` that stays one with a `;` after it. -/
def Separable (S : List Token → Prop) (us : List Token) : Prop :=
  S us ∧ ∀ u, u.kind = .punctuation .semicolon → S (us ++ [u])

theorem Generates.later_of_statements {u : Token} {us : List Token}
    (hu : u.kind = .punctuation .semicolon) (h : Generates .statements us) :
    Generates .later (u :: us) := by
  cases h with
  | noStatement => exact .trailing hu
  | statements he hlater => exact .later hu he hlater

theorem Closed.later_of_statements {b : Bracket} {u : Token} {us : List Token}
    (hu : u.kind = .punctuation .semicolon) (h : Closed b (Generates .statements) us) :
    Closed b (Generates .later) (u :: us) := by
  obtain ⟨vs, c, rfl, hc, hvs⟩ := h
  exact ⟨u :: vs, c, rfl, hc, hvs.later_of_statements hu⟩

variable {nested : Reader (List Token) Expr}

/-- Statements that are not at their closing bracket yet can be separated from another one. -/
theorem moreStatements_separable (hn : Takes nested (Builds .expression)) (b : Bracket) {n : Nat}
    {v : Bool × List Expr} (h : moreStatements nested b n ts = .ok v rest)
    (hrest : kind rest ≠ .punctuation b.closer) :
    ∃ used, ts = used ++ rest ∧ Separable (Generates .later) used := by
  induction n generalizing ts v with
  | zero =>
    obtain ⟨-, rfl⟩ := pure_eq_ok.mp h
    exact ⟨[], rfl, .noMore, fun _ => .trailing⟩
  | succ n ih =>
    obtain ⟨separated, mid, hseparated, h₁⟩ := bind_eq_ok.mp h
    rcases accept_eq_ok.mp hseparated with ⟨rfl, u, rfl, hu⟩ | ⟨rfl, rfl, -⟩
    · rw [if_pos rfl, nextIs_bind] at h₁
      split at h₁
      · rename_i hclosed
        obtain ⟨-, rfl⟩ := pure_eq_ok.mp h₁
        exact absurd (beq_iff_eq.mp hclosed) hrest
      · obtain ⟨first, mid', hfirst, h₂⟩ := bind_eq_ok.mp h₁
        obtain ⟨⟨again, later⟩, mid'', hlater, h₃⟩ := bind_eq_ok.mp h₂
        obtain ⟨-, rfl⟩ := pure_eq_ok.mp h₃
        obtain ⟨us, rfl, hus⟩ := statement_takes hn b hfirst
        obtain ⟨vs, rfl, hvs, hsep⟩ := ih hlater
        refine ⟨u :: us ++ vs, by simp, .later hu hus.generates hvs, fun w hw => ?_⟩
        rw [List.append_assoc]
        exact .later hu hus.generates (hsep w hw)
    · obtain ⟨-, rfl⟩ := pure_eq_ok.mp h₁
      exact ⟨[], rfl, .noMore, fun _ => .trailing⟩

theorem statements_separable (hn : Takes nested (Builds .expression)) (b : Bracket)
    {v : Bool × List Expr} (h : statements nested b ts = .ok v rest)
    (hrest : kind rest ≠ .punctuation b.closer) :
    ∃ used, ts = used ++ rest ∧ Separable (Generates .statements) used := by
  rw [statements, nextIs_bind] at h
  split at h
  · rename_i hclosed
    obtain ⟨-, rfl⟩ := pure_eq_ok.mp h
    exact absurd (beq_iff_eq.mp hclosed) hrest
  · obtain ⟨first, mid, hfirst, h₁⟩ := bind_eq_ok.mp h
    rw [get_bind] at h₁
    obtain ⟨⟨separated, later⟩, mid', hlater, h₂⟩ := bind_eq_ok.mp h₁
    obtain ⟨-, rfl⟩ := pure_eq_ok.mp h₂
    obtain ⟨us, rfl, hus⟩ := statement_takes hn b hfirst
    obtain ⟨vs, rfl, hvs, hsep⟩ := moreStatements_separable hn b hlater hrest
    refine ⟨us ++ vs, by simp, .statements hus.generates hvs, fun w hw => ?_⟩
    rw [List.append_assoc]
    exact .statements hus.generates (hsep w hw)

section Nested

variable (hn : Takes nested (Builds .expression))
  (hr : RefusesAt Kind.startsExpression nested (Generates .expression))
include hr

theorem statement_refuses {b : Bracket}
    (h : statement nested b ts = .error (.syntactic ⟨p, t, l⟩) rest) (hp : p ≠ .nesting) :
    ∃ before, ts = before ++ rest ∧ Completes (Closed b (Generates .statements)) p before := by
  have hclosed : ∀ us, Generates .expression us →
      Closed b (Generates .statements) (us ++ [sample (.punctuation b.closer)]) := by
    intro us hus
    refine ⟨us, _, rfl, kind_sample _, ?_⟩
    simpa using Generates.statements hus .noMore
  rw [statement, nextIs_bind] at h
  split at h
  · rename_i hstart
    obtain ⟨before, -, rfl, hbefore⟩ := hr hstart h hp
    exact ⟨before, rfl, hbefore.extend _ hclosed⟩
  · obtain ⟨rfl, rfl⟩ := refuse_eq_error h
    refine ⟨[], rfl, fun k hk => ?_⟩
    rcases List.mem_append.mp hk with hstart | hcloser
    · obtain ⟨us, hus⟩ := exists_expression hstart
      exact ⟨sample k, _, kind_sample k, hclosed _ hus⟩
    · obtain rfl := List.mem_singleton.mp hcloser
      exact ⟨_, [], kind_sample _, [], _, rfl, kind_sample _, .noStatement⟩

include hn

theorem moreStatements_refuses {b : Bracket} {n : Nat}
    (h : moreStatements nested b n ts = .error (.syntactic ⟨p, t, l⟩) rest)
    (hp : p ≠ .nesting) :
    ∃ before, ts = before ++ rest ∧ Completes (Closed b (Generates .later)) p before := by
  induction n generalizing ts with
  | zero => exact absurd h (pure_ne_error _ _ _ _)
  | succ n ih =>
    rcases accept_bind_eq_error h with ⟨u, us, rfl, hu, h₁⟩ | ⟨-, h₁⟩
    · rw [if_pos rfl, nextIs_bind] at h₁
      split at h₁
      · exact absurd h₁ (pure_ne_error _ _ _ _)
      rcases bind_eq_error h₁ with hfirst | ⟨first, mid, hfirst, h₂⟩
      · obtain ⟨before, rfl, hbefore⟩ := statement_refuses hr hfirst hp
        exact ⟨u :: before, rfl, hbefore.prepend [u] fun ws => Closed.later_of_statements hu⟩
      · obtain ⟨vs, rfl, hvs⟩ := statement_takes hn b hfirst
        rcases bind_eq_error h₂ with hlater | ⟨later, mid', -, h₃⟩
        · obtain ⟨before, rfl, hbefore⟩ := ih hlater
          refine ⟨u :: vs ++ before, by simp, hbefore.prepend (u :: vs) ?_⟩
          rintro ws ⟨xs, c, rfl, hc, hxs⟩
          exact ⟨u :: vs ++ xs, c, by simp, hc, .later hu hvs.generates hxs⟩
        · exact absurd h₃ (pure_ne_error _ _ _ _)
    · exact absurd h₁ (pure_ne_error _ _ _ _)

theorem statements_refuses {b : Bracket}
    (h : statements nested b ts = .error (.syntactic ⟨p, t, l⟩) rest) (hp : p ≠ .nesting) :
    ∃ before, ts = before ++ rest ∧ Completes (Closed b (Generates .statements)) p before := by
  rw [statements, nextIs_bind] at h
  split at h
  · exact absurd h (pure_ne_error _ _ _ _)
  rcases bind_eq_error h with hfirst | ⟨first, mid, hfirst, h₁⟩
  · exact statement_refuses hr hfirst hp
  · rw [get_bind] at h₁
    obtain ⟨us, rfl, hus⟩ := statement_takes hn b hfirst
    rcases bind_eq_error h₁ with hlater | ⟨later, mid', -, h₂⟩
    · obtain ⟨before, rfl, hbefore⟩ := moreStatements_refuses hn hr hlater hp
      refine ⟨us ++ before, by simp, hbefore.prepend us ?_⟩
      rintro ws ⟨xs, c, rfl, hc, hxs⟩
      exact ⟨us ++ xs, c, by simp, hc, .statements hus.generates hxs⟩
    · exact absurd h₂ (pure_ne_error _ _ _ _)

theorem block_refuses (b : Bracket) :
    RefusesAt (· == .punctuation b.opener) (block nested b) (Generates (.block b)) := by
  intro ts rest p t l hbegins h hp
  obtain ⟨o, us, rfl, ho, h₁⟩ :=
    take_bind_eq_error (punctuation_ne_endOfInput _) (beq_iff_eq.mp hbegins) h
  rcases bind_eq_error h₁ with hstatements | ⟨v, mid, hstatements, h₂⟩
  · obtain ⟨before, rfl, hbefore⟩ := statements_refuses hn hr hstatements hp
    refine ⟨o :: before, by simp, rfl, hbefore.prepend [o] ?_⟩
    rintro ws ⟨vs, c, rfl, hc, hvs⟩
    exact .block ho hvs hc
  -- Both refusals behind the statements expect a `;` or the closing bracket.
  have hend : ∀ q : Problem,
      q.expected = [.punctuation .semicolon, .punctuation b.closer] →
      kind mid ≠ .punctuation b.closer → ∃ before, before ≠ [] ∧ o :: us = before ++ mid ∧
        Completes (Generates (.block b)) q before := by
    intro q hq hmid
    obtain ⟨used, rfl, hused, hsep⟩ := statements_separable hn b hstatements hmid
    refine ⟨o :: used, by simp, rfl, fun k hk => ?_⟩
    rw [hq] at hk
    simp only [List.mem_cons, List.not_mem_nil, or_false] at hk
    rcases hk with rfl | rfl
    · refine ⟨sample _, [sample (.punctuation b.closer)], kind_sample _, ?_⟩
      have hblock := Generates.block ho (hsep _ (kind_sample (.punctuation .semicolon)))
        (kind_sample (.punctuation b.closer))
      simpa using hblock
    · exact ⟨sample _, [], kind_sample _, .block ho hused (kind_sample _)⟩
  dsimp only at h₂
  rw [nextIs_bind] at h₂
  split at h₂
  · rename_i hinput
    obtain ⟨rfl, rfl⟩ := refuse_eq_error h₂
    refine hend _ rfl ?_
    rw [beq_iff_eq.mp hinput]
    exact (punctuation_ne_endOfInput _).symm
  · rcases accept_bind_eq_error h₂ with ⟨c, vs, -, -, h₃⟩ | ⟨hne, h₃⟩
    · exact absurd h₃ (pure_ne_error _ _ _ _)
    · obtain ⟨rfl, rfl⟩ := refuse_eq_error h₃
      exact hend _ rfl hne

/-! ### Functions -/

/-- A missing body is expected at the very place; otherwise the body has begun. -/
theorem functionBody_refuses
    (h : functionBody nested ts = .error (.syntactic ⟨p, t, l⟩) rest) (hp : p ≠ .nesting) :
    (p = .functionBody ∧ rest = ts) ∨ ∃ before, before ≠ [] ∧ ts = before ++ rest ∧
      Completes (Generates .body) p before := by
  rw [functionBody, nextIs_bind] at h
  split at h
  · rename_i hbrace
    obtain ⟨before, hne, rfl, hbefore⟩ := block_refuses hn hr .brace hbrace h hp
    exact Or.inr ⟨before, hne, rfl, hbefore.map fun ws => .braces⟩
  rename_i hbrace
  rw [nextIs_bind] at h
  split at h
  · rename_i hstart
    obtain ⟨before, hne, rfl, hbefore⟩ := hr hstart h hp
    refine Or.inr ⟨before, hne, rfl, hbefore.map fun ws hws => .open hws ?_⟩
    rw [kind_append hne] at hbrace ⊢
    simpa using hbrace
  · exact Or.inl (refuse_eq_error h)

theorem function_refuses :
    RefusesAt (· == .keyword .function) (function nested) (Generates .operand) := by
  intro ts rest p t l hbegins h hp
  obtain ⟨f, ts₁, rfl, hf, h₁⟩ :=
    take_bind_eq_error (keyword_ne_endOfInput _) (beq_iff_eq.mp hbegins) h
  rcases bind_eq_error h₁ with hname | ⟨n, ts₂, hname, h₂⟩
  · exact absurd hname (functionName_ne_error _)
  obtain ⟨us, rfl, hus, hsymbol⟩ := functionName_takes hname
  rcases bind_eq_error h₂ with hparameters | ⟨ps, ts₃, hparameters, h₃⟩
  · obtain ⟨before, rfl, hopen, hbefore⟩ := parameters_refuses hparameters
    have hne : before ≠ [] := by
      rintro rfl
      cases hopen
    refine ⟨f :: (us ++ before), by simp, by simp, fun k hk => ?_⟩
    obtain ⟨u, ws, hu, ms, hms⟩ := hbefore k hk
    have hfunction := Generates.function hf hus hms generates_emptyBody
      (by rw [hms.kind_append (by simp)]; exact fun _ => by decide) (by simp)
    exact ⟨u, ws ++ emptyBlock .brace, hu, by simpa using hfunction⟩
  obtain ⟨vs, rfl, hvs, hparen⟩ := parameters_takes hparameters
  have hbody := bind_pure_eq_error h₃
  rcases functionBody_refuses hn hr hbody hp with ⟨rfl, rfl⟩ | ⟨before, hne, rfl, hbefore⟩
  · exact ⟨f :: (us ++ vs), by simp, by simp, completes_functionBody hf hus hvs⟩
  refine ⟨f :: (us ++ vs ++ before), by simp, by simp, hbefore.map fun ws hws => ?_⟩
  have hfunction := Generates.function hf hus hvs hws ?_ ?_
  · simpa using hfunction
  · intro hnil
    have hkind := hsymbol hnil
    rw [← List.append_assoc, kind_append (by simp [hne])] at hkind ⊢
    exact hkind
  · intro hnil
    have hkind := hparen hnil
    rw [kind_append hne] at hkind ⊢
    exact hkind

/-! ### Operands and what is applied to them -/

theorem operand_refuses :
    RefusesAt Kind.startsOperand (operand nested) (Generates .operand) := by
  intro ts rest p t l hbegins h hp
  have hblock : ∀ b : Bracket, kind ts = .punctuation b.opener → ∃ before, before ≠ [] ∧
      ts = before ++ rest ∧ Completes (Generates .operand) p before := by
    intro b hb
    rw [operand_block hb] at h
    obtain ⟨before, hne, hts, hbefore⟩ := block_refuses hn hr b (beq_iff_eq.mpr hb) h hp
    exact ⟨before, hne, hts, hbefore.map fun ws => .bracketed⟩
  have hliteral : (kind ts).isLiteral = false := by
    rw [Bool.eq_false_iff]
    intro hliteral
    obtain ⟨u, us, rfl, hu, -⟩ := exists_cons_of_kind rfl hliteral
    obtain ⟨v, hv⟩ := exists_literal?_of_isLiteral hu
    rw [operand_literal hv] at h
    cases h
  have hmem : kind ts ∈ Kind.operandStarts := by
    simpa [Kind.startsOperand, List.contains_iff_mem] using hbegins
  simp only [Kind.operandStarts, List.mem_cons, List.not_mem_nil, or_false] at hmem
  rcases hmem with hk | hk | hk | hk | hk | hk | hk
  · rw [hk] at hliteral
    cases hliteral
  · rw [hk] at hliteral
    cases hliteral
  · rw [hk] at hliteral
    cases hliteral
  · obtain ⟨u, n, us, rfl, hu⟩ := exists_cons_of_kind_symbol hk
    rw [operand_symbol hu] at h
    cases h
  · rw [operand_function hk] at h
    exact function_refuses hn hr (beq_iff_eq.mpr hk) h hp
  · exact hblock .brace hk
  · exact hblock .paren hk

theorem invoked_refuses :
    RefusesAt Kind.startsOperand (invoked nested) (Generates .invoked) := by
  intro ts rest p t l hbegins h hp
  rcases bind_eq_error h with htarget | ⟨e, mid, -, h₁⟩
  · obtain ⟨before, hne, rfl, hbefore⟩ := operand_refuses hn hr hbegins htarget hp
    exact ⟨before, hne, rfl, hbefore.map fun ws => .operand⟩
  · exact absurd (bind_pure_eq_error h₁) (many_take_ne_error _ _)

/-- A backtick, an operator and extra arguments. -/
def IsStep (ts : List Token) : Prop :=
  ∃ t us vs, ts = t :: (us ++ vs) ∧ t.kind = .punctuation .backtick ∧ Generates .invoked us ∧
    Generates .extras vs

omit hr in
theorem step_takes_isStep :
    TakesAt (· == .punctuation .backtick) (step nested) fun us _ => IsStep us := by
  intro ts s rest hbegins h
  obtain ⟨_, hts, t, us, vs, rfl, ht, hus, hvs⟩ := step_takes hn hbegins h
  exact ⟨_, hts, t, us, vs, rfl, ht, hus.generates, hvs.generates⟩

theorem step_refuses : RefusesAt (· == .punctuation .backtick) (step nested) IsStep := by
  intro ts rest p t l hbegins h hp
  obtain ⟨u, us, rfl, hu, h₁⟩ :=
    take_bind_eq_error (punctuation_ne_endOfInput _) (beq_iff_eq.mp hbegins) h
  rw [nextIs_bind] at h₁
  split at h₁
  · rename_i hstart
    rcases bind_eq_error h₁ with hoperator | ⟨o, mid, hoperator, h₂⟩
    · obtain ⟨before, hne, rfl, hbefore⟩ := invoked_refuses hn hr hstart hoperator hp
      refine ⟨u :: before, by simp, rfl, hbefore.prepend [u] fun ws hws => ?_⟩
      exact ⟨u, ws, [], by simp, hu, hws, .noExtra⟩
    obtain ⟨vs, rfl, hvs⟩ := invoked_takes hn hoperator
    have hextras : RefusesAt (fun _ => true) (many Kind.startsOperand (invoked nested))
        (Generates .extras) :=
      (invoked_refuses hn hr).many ((invoked_takes hn).at _)
        (fun _ _ hinvoked => hinvoked.generates) .noExtra fun _ _ => .extra
    obtain ⟨before, hne, rfl, hbefore⟩ := hextras rfl (bind_pure_eq_error h₂) hp
    refine ⟨u :: (vs ++ before), by simp, by simp, ?_⟩
    refine hbefore.prepend (u :: vs) fun ws hws => ?_
    exact ⟨u, vs, ws, rfl, hu, hvs.generates, hws⟩
  · obtain ⟨rfl, rfl⟩ := refuse_eq_error h₁
    refine ⟨[u], by simp, rfl, fun k hk => ?_⟩
    obtain ⟨ws, hws⟩ := exists_operand hk
    exact ⟨sample k, ws, kind_sample k, u, sample k :: ws, [], by simp, hu, .operand hws,
      .noExtra⟩

theorem chained_refuses :
    RefusesAt Kind.startsOperand (chained nested) (Generates .chained) := by
  intro ts rest p t l hbegins h hp
  rcases bind_eq_error h with hseed | ⟨e, mid, hseed, h₁⟩
  · obtain ⟨before, hne, rfl, hbefore⟩ := invoked_refuses hn hr hbegins hseed hp
    refine ⟨before, hne, rfl, hbefore.map fun ws hws => ?_⟩
    simpa using Generates.chained hws .noStep
  obtain ⟨us, rfl, hus⟩ := invoked_takes hn hseed
  have hsteps : RefusesAt (fun _ => true) (many (· == .punctuation .backtick) (step nested))
      (Generates .steps) := by
    refine (step_refuses hn hr).many (step_takes_isStep hn) (fun _ _ hstep => hstep) .noStep ?_
    rintro _ ws ⟨u, vs, xs, rfl, hu, hvs, hxs⟩ hws
    exact .step hu hvs hxs hws
  obtain ⟨before, hne, rfl, hbefore⟩ := hsteps rfl (bind_pure_eq_error h₁) hp
  refine ⟨us ++ before, by simp [hne], by simp, hbefore.prepend us fun ws => ?_⟩
  exact .chained hus.generates

theorem application_refuses :
    RefusesAt Kind.startsOperand (application nested) (Generates .expression) := by
  intro ts rest p t l hbegins h hp
  rcases bind_eq_error h with hcallee | ⟨f, mid, hcallee, h₁⟩
  · obtain ⟨before, hne, rfl, hbefore⟩ := chained_refuses hn hr hbegins hcallee hp
    refine ⟨before, hne, rfl, hbefore.map fun ws hws => ?_⟩
    simpa using Generates.application hws .noArgument
  obtain ⟨us, rfl, hus⟩ := chained_takes hn hcallee
  have harguments : RefusesAt (fun _ => true) (many Kind.startsOperand (chained nested))
      (Generates .arguments) :=
    (chained_refuses hn hr).many ((chained_takes hn).at _)
      (fun _ _ hchained => hchained.generates) .noArgument fun _ _ => .argument
  obtain ⟨before, hne, rfl, hbefore⟩ := harguments rfl (bind_pure_eq_error h₁) hp
  refine ⟨us ++ before, by simp [hne], by simp, hbefore.prepend us fun ws => ?_⟩
  exact .application hus.generates

/-! ### Expressions -/

omit hn in
theorem assignment_refuses {k : Keyword} (hk : k ≠ .function) :
    RefusesAt (· == .keyword k) (assignment nested k) (Generates .expression) := by
  intro ts rest p t l hbegins h hp
  obtain ⟨u, us, rfl, hu, h₁⟩ :=
    take_bind_eq_error (keyword_ne_endOfInput _) (beq_iff_eq.mp hbegins) h
  rcases name_bind_eq_error h₁ with ⟨rfl, rfl⟩ | ⟨v, vs, n, rfl, hv, h₂⟩
  · refine ⟨[u], by simp, rfl, fun k' hk' => ?_⟩
    obtain rfl := List.mem_singleton.mp hk'
    exact ⟨sample .symbol, [sample .symbol], rfl,
      .binding hu hk rfl (Generates.symbol rfl).expression_of_operand⟩
  have hname : v.kind = .symbol := kind_of_shape_eq_symbol hv
  rw [nextIs_bind] at h₂
  split at h₂
  · rename_i hstart
    obtain ⟨before, -, rfl, hbefore⟩ := hr hstart (bind_pure_eq_error h₂) hp
    refine ⟨u :: v :: before, by simp, rfl, hbefore.prepend [u, v] fun ws => ?_⟩
    exact .binding hu hk hname
  · obtain ⟨rfl, rfl⟩ := refuse_eq_error h₂
    refine ⟨[u, v], by simp, rfl, fun k' hk' => ?_⟩
    obtain ⟨ws, hws⟩ := exists_expression hk'
    exact ⟨sample k', ws, kind_sample k', .binding hu hk hname hws⟩

theorem expressionOver_refuses :
    RefusesAt Kind.startsExpression (expressionOver nested) (Generates .expression) := by
  intro ts rest p t l hbegins h hp
  by_cases hbinding : ∃ k, k ≠ .function ∧ kind ts = .keyword k
  · obtain ⟨k, hk, hkeyword⟩ := hbinding
    rw [expressionOver_binding hk hkeyword] at h
    exact assignment_refuses hr hk (beq_iff_eq.mpr hkeyword) h hp
  · rw [expressionOver_application fun k hk hkeyword => hbinding ⟨k, hk, hkeyword⟩] at h
    refine application_refuses hn hr ?_ h hp
    have hmem : kind ts ∈ Kind.expressionStarts := by
      simpa [Kind.startsExpression, List.contains_iff_mem] using hbegins
    rcases List.mem_append.mp hmem with hoperand | hkeyword
    · simpa [Kind.startsOperand, List.contains_iff_mem] using hoperand
    · simp only [List.mem_cons, List.not_mem_nil, or_false] at hkeyword
      rcases hkeyword with hkeyword | hkeyword
      · exact absurd ⟨.binding, by decide, hkeyword⟩ hbinding
      · exact absurd ⟨.recursiveBinding, by decide, hkeyword⟩ hbinding

end Nested

/-- **An expression is refused behind tokens that can be completed to one.** -/
theorem expression_refuses (depth : Nat) :
    RefusesAt Kind.startsExpression (expression depth) (Generates .expression) := by
  induction depth with
  | zero =>
    intro ts rest p t l _ h hp
    exact absurd (refuse_eq_error h).1 hp
  | succ depth ih => exact expressionOver_refuses (expression_takes depth) ih

/-- An expression and the end of input. -/
def IsProgram (ts : List Token) : Prop :=
  ∃ us last, ts = us ++ [last] ∧ last.isEnd = true ∧ Generates .expression us

/-- **A program is refused behind tokens that can be completed to one.** -/
theorem program_refuses {depth : Nat}
    (h : program depth ts = .error (.syntactic ⟨p, t, l⟩) rest) (hp : p ≠ .nesting) :
    ∃ before, ts = before ++ rest ∧ Completes IsProgram p before := by
  have hclosed : ∀ us, Generates .expression us → IsProgram (us ++ [ending]) :=
    fun us hus => ⟨us, ending, rfl, rfl, hus⟩
  rw [program, nextIs_bind] at h
  split at h
  · rename_i hstart
    rcases bind_eq_error h with hexpression | ⟨e, mid, hexpression, h₁⟩
    · obtain ⟨before, -, rfl, hbefore⟩ := expression_refuses depth hstart hexpression hp
      exact ⟨before, rfl, hbefore.extend [ending] hclosed⟩
    obtain ⟨used, rfl, hused⟩ := expression_takes depth hexpression
    rw [nextIs_bind] at h₁
    split at h₁
    · exact absurd h₁ (pure_ne_error _ _ _ _)
    · obtain ⟨rfl, rfl⟩ := refuse_eq_error h₁
      refine ⟨used, rfl, fun k hk => ?_⟩
      obtain rfl := List.mem_singleton.mp hk
      exact ⟨ending, [], rfl, hclosed used hused.generates⟩
  · obtain ⟨rfl, rfl⟩ := refuse_eq_error h
    refine ⟨[], rfl, fun k hk => ?_⟩
    obtain ⟨us, hus⟩ := exists_expression hk
    exact ⟨sample k, us ++ [ending], kind_sample k, hclosed _ hus⟩

end Productions

end Juxta.Grammar
