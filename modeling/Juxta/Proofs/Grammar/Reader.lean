/-
  Juxta/Proofs/Grammar/Reader.lean
  ================================
  **Reading from a list of tokens** — the productions of the grammar work on any supply of
  tokens; over a plain list each of them is a function that takes tokens off the front.
  Here stand the equations of its elements on lists, which the proofs about productions use
  instead of their definitions:

    * `bind_eq_ok` takes a successful computation apart at a bind;
    * `take_cons`, `accept_eq_ok`, `name_eq_ok` say what the elementary readers take;
    * `Takes x P`: whenever `x` succeeds, it has taken tokens `used` off the front and
      returned a value `a` with `P used a`;
    * `Many`: a repetition without its bound, and `Many.manyUpTo_eq_ok`, which reads it.
-/
import Juxta.Grammar.Productions

namespace Juxta

namespace TokenList

/-- The kind of the first token; an empty list is at its end. -/
def kind (ts : List Token) : Kind := (ts.headD ending).kind

@[simp] theorem kind_nil : kind [] = .endOfInput := rfl

@[simp] theorem kind_cons (t : Token) (ts : List Token) : kind (t :: ts) = t.kind := rfl

theorem kind_append {us : List Token} (h : us ≠ []) (ts : List Token) :
    kind (us ++ ts) = kind us := by
  obtain ⟨t, us, rfl⟩ := List.exists_cons_of_ne_nil h
  rfl

/-- A first token of a kind that is not the end of input is really there. -/
theorem exists_cons_of_kind {p : Kind → Bool} (hp : p .endOfInput = false) {ts : List Token}
    (h : p (kind ts) = true) :
    ∃ t rest, ts = t :: rest ∧ p t.kind = true ∧ t.isEnd = false := by
  cases ts with
  | nil =>
    rw [kind_nil, hp] at h
    cases h
  | cons t rest =>
    refine ⟨t, rest, rfl, h, ?_⟩
    rw [Token.isEnd, beq_eq_false_iff_ne]
    intro hend
    rw [kind_cons, hend, hp] at h
    cases h

theorem exists_cons_of_kind_symbol {ts : List Token} (h : kind ts = .symbol) :
    ∃ t n rest, ts = t :: rest ∧ t.shape = .symbol n := by
  cases ts with
  | nil => cases h
  | cons t rest =>
    rw [kind_cons, Token.kind] at h
    cases hs : t.shape <;> rw [hs] at h <;> cases h
    exact ⟨t, _, rest, rfl, hs⟩

theorem shape_of_kind_eq_punctuation {t : Token} {p : Punctuation}
    (h : t.kind = .punctuation p) : t.shape = .punctuation p := by
  rw [Token.kind] at h
  cases hs : t.shape with
  | punctuation q =>
    rw [hs] at h
    cases h
    rfl
  | _ =>
    rw [hs] at h
    cases h

end TokenList

namespace Grammar

open TokenList

/-! ### Elementary readers -/

section Elements

variable {α β σ ε : Type}

/-- A sequence of two computations succeeds if both do. -/
theorem bind_eq_ok {x : EStateM ε σ α} {f : α → EStateM ε σ β} {s r : σ} {b : β} :
    (x >>= f) s = .ok b r ↔ ∃ a m, x s = .ok a m ∧ f a m = .ok b r := by
  change EStateM.bind x f s = .ok b r ↔ _
  unfold EStateM.bind
  constructor
  · intro h
    split at h
    · rename_i a m hx
      exact ⟨a, m, hx, h⟩
    · cases h
  · rintro ⟨a, m, hx, hf⟩
    rw [hx]
    exact hf

theorem bind_of_ok {x : EStateM ε σ α} {f : α → EStateM ε σ β} {s m : σ} {a : α}
    (h : x s = .ok a m) : (x >>= f) s = f a m := by
  change EStateM.bind x f s = _
  unfold EStateM.bind
  rw [h]

theorem bind_of_error {x : EStateM ε σ α} {f : α → EStateM ε σ β} {s m : σ} {e : ε}
    (h : x s = .error e m) : (x >>= f) s = .error e m := by
  change EStateM.bind x f s = _
  unfold EStateM.bind
  rw [h]

/-- What comes after a computation matters only if that succeeds. -/
theorem bind_congr {x : EStateM ε σ α} {f g : α → EStateM ε σ β} {s : σ}
    (h : ∀ a m, x s = .ok a m → f a m = g a m) : (x >>= f) s = (x >>= g) s := by
  cases hx : x s with
  | ok a m => rw [bind_of_ok hx, bind_of_ok hx, h a m hx]
  | error e m => rw [bind_of_error hx, bind_of_error hx]

theorem bind_congr_left {x y : EStateM ε σ α} {f : α → EStateM ε σ β} {s : σ} (h : x s = y s) :
    (x >>= f) s = (y >>= f) s := by
  cases hy : y s with
  | ok a m => rw [bind_of_ok (h.trans hy), bind_of_ok hy]
  | error e m => rw [bind_of_error (h.trans hy), bind_of_error hy]

theorem get_bind (f : σ → EStateM ε σ α) (s : σ) : (get >>= f) s = f s s := rfl

theorem pure_eq_ok {a b : α} {s r : σ} : (pure a : EStateM ε σ α) s = .ok b r ↔ a = b ∧ s = r := by
  change EStateM.Result.ok a s = .ok b r ↔ _
  rw [EStateM.Result.ok.injEq]

variable [TokenSupply σ]

theorem refuse_ne_ok (p : Problem) (s r : σ) (a : α) : (refuse p : Reader σ α) s ≠ .ok a r := by
  intro h
  obtain ⟨found, m, -, h⟩ := bind_eq_ok.mp h
  obtain ⟨tokens, m', -, h⟩ := bind_eq_ok.mp h
  cases h

end Elements

section List

variable {α β : Type} {ts rest : List Token}

theorem peek_bind (f : Token → Reader (List Token) α) (ts : List Token) :
    (peek >>= f) ts = f (ts.headD ending) ts := rfl

theorem nextIs_bind (p : Kind → Bool) (f : Bool → Reader (List Token) α) (ts : List Token) :
    (nextIs p >>= f) ts = f (p (kind ts)) ts := rfl

theorem take_cons {t : Token} (ht : t.isEnd = false) (ts : List Token) :
    (take : Reader (List Token) Token) (t :: ts) = .ok t ts := by
  change EStateM.adaptExcept _ TokenList.next (t :: ts) = _
  simp [EStateM.adaptExcept, TokenList.next, ht]

theorem punctuation_ne_endOfInput (p : Punctuation) : Kind.punctuation p ≠ .endOfInput := by
  intro h
  cases h

theorem keyword_ne_endOfInput (k : Keyword) : Kind.keyword k ≠ .endOfInput := by
  intro h
  cases h

theorem take_eq_ok {k : Kind} (h : kind ts = k) (hk : k ≠ .endOfInput) {t : Token} :
    (take : Reader (List Token) Token) ts = .ok t rest ↔ ts = t :: rest := by
  obtain ⟨u, us, rfl, -, hu⟩ := exists_cons_of_kind (p := (· == k)) (by simpa using hk.symm)
    (beq_iff_eq.mpr h)
  rw [take_cons hu, EStateM.Result.ok.injEq, List.cons.injEq]

theorem accept_cons {p : Punctuation} {t : Token} (ht : t.kind = .punctuation p)
    (ts : List Token) :
    (accept (.punctuation p) : Reader (List Token) Bool) (t :: ts) = .ok true ts := by
  have hend : t.isEnd = false := by
    rw [Token.isEnd, ht]
    rfl
  rw [accept, nextIs_bind, kind_cons, ht, beq_self_eq_true, if_pos rfl,
    bind_of_ok (take_cons hend ts)]
  rfl

theorem accept_of_ne {k : Kind} (h : kind ts ≠ k) :
    (accept k : Reader (List Token) Bool) ts = .ok false ts := by
  rw [accept, nextIs_bind, beq_eq_false_iff_ne.mpr h]
  rfl

/-- An accepted mark has been taken; otherwise nothing has. -/
theorem accept_eq_ok {p : Punctuation} {b : Bool} :
    (accept (.punctuation p) : Reader (List Token) Bool) ts = .ok b rest ↔
      (b = true ∧ ∃ t, ts = t :: rest ∧ t.kind = .punctuation p) ∨
        (b = false ∧ ts = rest ∧ kind ts ≠ .punctuation p) := by
  by_cases h : kind ts = .punctuation p
  · obtain ⟨t, us, rfl, -, -⟩ := exists_cons_of_kind (p := (· == .punctuation p)) rfl
      (beq_iff_eq.mpr h)
    rw [kind_cons] at h
    rw [accept_cons h]
    constructor
    · intro hok
      cases hok
      exact Or.inl ⟨rfl, t, rfl, h⟩
    · rintro (⟨rfl, u, hu, -⟩ | ⟨-, -, hne⟩)
      · cases hu
        rfl
      · exact absurd h hne
  · rw [accept_of_ne h]
    constructor
    · intro hok
      cases hok
      exact Or.inr ⟨rfl, rfl, h⟩
    · rintro (⟨-, t, rfl, ht⟩ | ⟨rfl, rfl, -⟩)
      · exact absurd ht h
      · rfl

theorem isEnd_of_shape_eq_symbol {t : Token} {n : String} (h : t.shape = .symbol n) :
    t.isEnd = false := by
  simp [Token.isEnd, Token.kind, h, Shape.kind]

theorem name_cons {t : Token} {n : String} (ht : t.shape = .symbol n) (p : Problem)
    (ts : List Token) : (name p : Reader (List Token) String) (t :: ts) = .ok n ts := by
  rw [name, peek_bind]
  simp only [List.headD_cons, ht]
  rw [bind_of_ok (take_cons (isEnd_of_shape_eq_symbol ht) ts)]
  rfl

theorem name_eq_ok {p : Problem} {n : String} :
    (name p : Reader (List Token) String) ts = .ok n rest ↔
      ∃ t, ts = t :: rest ∧ t.shape = .symbol n := by
  constructor
  · intro h
    cases ts with
    | nil =>
      rw [name, peek_bind] at h
      exact absurd h (refuse_ne_ok p _ _ _)
    | cons t ts =>
      cases hs : t.shape with
      | symbol m =>
        rw [name_cons hs, EStateM.Result.ok.injEq] at h
        obtain ⟨rfl, rfl⟩ := h
        exact ⟨t, rfl, hs⟩
      | _ =>
        rw [name, peek_bind] at h
        simp only [List.headD_cons, hs] at h
        exact absurd h (refuse_ne_ok p _ _ _)
  · rintro ⟨t, rfl, ht⟩
    exact name_cons ht p rest

theorem functionName_cons {t : Token} {n : String} (ht : t.shape = .symbol n)
    (ts : List Token) :
    (functionName : Reader (List Token) (Option String)) (t :: ts) = .ok (some n) ts := by
  rw [functionName, peek_bind]
  simp only [List.headD_cons, ht]
  rw [bind_of_ok (take_cons (isEnd_of_shape_eq_symbol ht) ts)]
  rfl

theorem functionName_of_ne (h : kind ts ≠ .symbol) :
    (functionName : Reader (List Token) (Option String)) ts = .ok none ts := by
  rw [functionName, peek_bind]
  cases hs : (ts.headD ending).shape with
  | symbol n => exact absurd (by rw [kind, Token.kind, hs]; rfl) h
  | _ => rfl

end List

/-! ### Productions that look at the next token -/

section Choices

variable {nested : Reader (List Token) Expr} {ts : List Token}

theorem operand_symbol {t : Token} {n : String} (ht : t.shape = .symbol n) (ts : List Token) :
    operand nested (t :: ts) = .ok (.symbol n (some t.location)) ts := by
  rw [operand, peek_bind]
  simp only [List.headD_cons, ht]
  rw [bind_of_ok (take_cons (isEnd_of_shape_eq_symbol ht) ts)]
  rfl

theorem operand_literal {t : Token} {v : Literal} (ht : t.shape.literal? = some v)
    (ts : List Token) : operand nested (t :: ts) = .ok (.literal v (some t.location)) ts := by
  rw [operand, peek_bind]
  cases hs : t.shape with
  | integer _ | decimal _ _ | string _ _ =>
    rw [hs] at ht
    simp only [List.headD_cons, hs, ht]
    rw [bind_of_ok (take_cons (by rw [Token.isEnd, Token.kind, hs]; rfl) ts)]
    rfl
  | _ =>
    rw [hs] at ht
    cases ht

theorem operand_function (h : kind ts = .keyword .function) :
    operand nested ts = function nested ts := by
  rw [operand, peek_bind]
  rw [kind, Token.kind] at h
  cases hs : (ts.headD ending).shape <;> rw [hs] at h <;> cases h
  rfl

theorem operand_block {b : Bracket} (h : kind ts = .punctuation b.opener) :
    operand nested ts = block nested b ts := by
  rw [operand, peek_bind]
  rw [kind, Token.kind] at h
  cases b <;> cases hs : (ts.headD ending).shape <;> rw [hs] at h <;> cases h <;> rfl

theorem startsOperand_of_operand_eq_ok {e : Expr} {rest : List Token}
    (h : operand nested ts = .ok e rest) : Kind.startsOperand (kind ts) = true := by
  rw [operand, peek_bind] at h
  rw [kind, Token.kind]
  cases hs : (ts.headD ending).shape with
  | endOfInput =>
    simp only [hs] at h
    exact absurd h (refuse_ne_ok _ _ _ _)
  | punctuation p =>
    cases p with
    | openBrace | openParen => rfl
    | _ =>
      simp only [hs] at h
      exact absurd h (refuse_ne_ok _ _ _ _)
  | keyword k =>
    cases k with
    | function => rfl
    | _ =>
      simp only [hs] at h
      exact absurd h (refuse_ne_ok _ _ _ _)
  | _ => rfl

theorem functionBody_brace (h : kind ts = .punctuation .openBrace) :
    functionBody nested ts = block nested .brace ts := by
  rw [functionBody, nextIs_bind, h]
  rfl

theorem functionBody_open (h : kind ts ≠ .punctuation .openBrace)
    (hstart : Kind.startsExpression (kind ts) = true) : functionBody nested ts = nested ts := by
  rw [functionBody, nextIs_bind, beq_eq_false_iff_ne.mpr h, if_neg (by decide), nextIs_bind,
    hstart, if_pos rfl]

theorem moreStatements_done (b : Bracket) (h : kind ts ≠ .punctuation .semicolon) (n : Nat) :
    moreStatements nested b n ts = .ok (false, []) ts := by
  cases n with
  | zero => rfl
  | succ n =>
    rw [moreStatements, bind_of_ok (accept_of_ne h)]
    rfl

theorem expressionOver_binding {k : Keyword} (hk : k ≠ .function) (h : kind ts = .keyword k) :
    expressionOver nested ts = assignment nested k ts := by
  rw [expressionOver, peek_bind]
  rw [kind] at h
  cases k with
  | function => exact absurd rfl hk
  | _ => simp only [h]

theorem expressionOver_application (h : ∀ k ≠ .function, kind ts ≠ .keyword k) :
    expressionOver nested ts = application nested ts := by
  rw [expressionOver, peek_bind]
  cases hk : (ts.headD ending).kind with
  | keyword k =>
    cases k with
    | function => rfl
    | binding => exact absurd hk (h .binding (by decide))
    | recursiveBinding => exact absurd hk (h .recursiveBinding (by decide))
  | _ => rfl

end Choices

/-! ### Readers that take tokens off the front -/

section Takes

variable {α β : Type}

/-- Whenever the reader succeeds in front of a token of a kind that `begins` allows, it has
    taken tokens off the front and returned a value that they stand for. -/
def TakesAt (begins : Kind → Bool) (x : Reader (List Token) α) (P : List Token → α → Prop) :
    Prop :=
  ∀ ⦃ts a rest⦄, begins (kind ts) = true → x ts = .ok a rest →
    ∃ used, ts = used ++ rest ∧ P used a

/-- Whenever the reader succeeds, it has taken tokens off the front and returned a value that
    they stand for. -/
def Takes (x : Reader (List Token) α) (P : List Token → α → Prop) : Prop :=
  ∀ ⦃ts a rest⦄, x ts = .ok a rest → ∃ used, ts = used ++ rest ∧ P used a

theorem Takes.at {x : Reader (List Token) α} {P : List Token → α → Prop} (h : Takes x P)
    (begins : Kind → Bool) : TakesAt begins x P := fun _ _ _ _ hx => h hx

/-- Whenever the reader succeeds in front of a token of a kind that `begins` allows, it has
    taken at least one token. -/
def Consumes (begins : Kind → Bool) (x : Reader (List Token) α) : Prop :=
  TakesAt begins x fun used _ => used ≠ [] ∧ ∀ t ∈ used, t.isEnd = false

theorem Consumes.length_lt {begins : Kind → Bool} {x : Reader (List Token) α}
    (h : Consumes begins x) {ts rest : List Token} {a : α} (hbegins : begins (kind ts) = true)
    (hx : x ts = .ok a rest) : rest.length < ts.length := by
  obtain ⟨used, rfl, hne, -⟩ := h hbegins hx
  have hpos : 0 < used.length := List.length_pos_iff.mpr hne
  simp only [List.length_append]
  omega

/-- A repetition takes what its items take, one after another. -/
theorem TakesAt.manyUpTo {begins : Kind → Bool} {item : Reader (List Token) α}
    {P : List Token → α → Prop} {Q : List Token → List α → Prop} (hitem : TakesAt begins item P)
    (hnil : Q [] []) (hcons : ∀ us vs x xs, P us x → Q vs xs → Q (us ++ vs) (x :: xs)) (n : Nat) :
    Takes (manyUpTo begins item n) Q := by
  induction n with
  | zero =>
    intro ts xs rest h
    obtain ⟨rfl, rfl⟩ := pure_eq_ok.mp h
    exact ⟨[], rfl, hnil⟩
  | succ n ih =>
    intro ts xs rest h
    rw [Grammar.manyUpTo, nextIs_bind] at h
    split at h
    · rename_i hbegins
      obtain ⟨x, mid, hx, h⟩ := bind_eq_ok.mp h
      obtain ⟨later, mid', hlater, h⟩ := bind_eq_ok.mp h
      obtain ⟨rfl, rfl⟩ := pure_eq_ok.mp h
      obtain ⟨us, rfl, hP⟩ := hitem hbegins hx
      obtain ⟨vs, rfl, hQ⟩ := ih hlater
      exact ⟨us ++ vs, (List.append_assoc ..).symm, hcons us vs x later hP hQ⟩
    · obtain ⟨rfl, rfl⟩ := pure_eq_ok.mp h
      exact ⟨[], rfl, hnil⟩

theorem TakesAt.many {begins : Kind → Bool} {item : Reader (List Token) α}
    {P : List Token → α → Prop} {Q : List Token → List α → Prop} (hitem : TakesAt begins item P)
    (hnil : Q [] []) (hcons : ∀ us vs x xs, P us x → Q vs xs → Q (us ++ vs) (x :: xs)) :
    Takes (many begins item) Q := by
  intro ts xs rest h
  rw [Grammar.many, get_bind] at h
  exact hitem.manyUpTo hnil hcons _ h

end Takes

/-! ### Repetitions without a bound -/

section Many

variable {α : Type}

/-- Items are read one after another as long as the next token can begin one. -/
inductive Many (begins : Kind → Bool) (item : Reader (List Token) α) :
    List Token → List α → List Token → Prop where
  | done {ts : List Token} : begins (kind ts) = false → Many begins item ts [] ts
  | more {ts mid rest : List Token} {x : α} {xs : List α} :
      begins (kind ts) = true → item ts = .ok x mid → Many begins item mid xs rest →
      Many begins item ts (x :: xs) rest

theorem manyUpTo_done {begins : Kind → Bool} {item : Reader (List Token) α} {ts : List Token}
    (h : begins (kind ts) = false) (n : Nat) : manyUpTo begins item n ts = .ok [] ts := by
  cases n with
  | zero => rfl
  | succ n =>
    rw [manyUpTo, nextIs_bind, h]
    rfl

theorem manyUpTo_more {begins : Kind → Bool} {item : Reader (List Token) α} {ts : List Token}
    (h : begins (kind ts) = true) (n : Nat) :
    manyUpTo begins item (n + 1) ts =
      (do let x ← item; let xs ← manyUpTo begins item n; return x :: xs) ts := by
  rw [manyUpTo, nextIs_bind, h]
  rfl

theorem Many.manyUpTo_eq_ok {begins : Kind → Bool} {item : Reader (List Token) α}
    {ts rest : List Token} {xs : List α} (h : Many begins item ts xs rest) {n : Nat}
    (hn : xs.length ≤ n) : manyUpTo begins item n ts = .ok xs rest := by
  induction h generalizing n with
  | done hbegins => exact manyUpTo_done hbegins n
  | more hbegins hitem _ ih =>
    cases n with
    | zero => simp at hn
    | succ n =>
      have hlater := ih (n := n) (by simpa using hn)
      rw [manyUpTo_more hbegins, bind_of_ok hitem, bind_of_ok hlater]
      rfl

/-- Items that take a token each are no more than the tokens. -/
theorem Many.length_le {begins : Kind → Bool} {item : Reader (List Token) α}
    (hitem : Consumes begins item) {ts rest : List Token} {xs : List α}
    (h : Many begins item ts xs rest) : xs.length + rest.length ≤ ts.length := by
  induction h with
  | done => simp
  | more hbegins hx _ ih =>
    have hlt := hitem.length_lt hbegins hx
    simp only [List.length_cons]
    omega

/-- **A repetition reads all its items**, the number of tokens being bound enough. -/
theorem Many.many_eq_ok {begins : Kind → Bool} {item : Reader (List Token) α}
    (hitem : Consumes begins item) {ts rest : List Token} {xs : List α}
    (h : Many begins item ts xs rest) : many begins item ts = .ok xs rest := by
  have hlen := h.length_le hitem
  have hbound : TokenSupply.bound ts = ts.length := rfl
  rw [many, get_bind, hbound]
  exact h.manyUpTo_eq_ok (by omega)

end Many

end Grammar

end Juxta
