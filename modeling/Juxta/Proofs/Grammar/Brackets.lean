/-
  Juxta/Proofs/Grammar/Brackets.lean
  ==================================
  **Which bracket is left open** — the tokens of a phrase are balanced: each bracket in them has
  a closing one of its kind, and what stands between the two is balanced as well
  (`Generates.balanced`).  `unclosed` finds the brackets without one by a stack, the innermost
  first, and what is balanced leaves the stack as it was.

  A reader that refuses a token inside a block stands behind the opening bracket of that block and
  balanced tokens (`Blames`), however many blocks, groups and parameters were opened and closed in
  between.  A block that is not closed is therefore reported by the innermost of the brackets that
  are open there (`Program.unclosed_names_innermost`).
-/
import Juxta.Proofs.Grammar.Demand

namespace Juxta

open TokenList

/-! ### Balanced tokens -/

namespace Kind

/-- The bracket that a token opens, if it opens one. -/
def opens? : Kind → Option Bracket
  | .punctuation .openBrace => some .brace
  | .punctuation .openParen => some .paren
  | _ => none

/-- The bracket that a token closes, if it closes one. -/
def closes? : Kind → Option Bracket
  | .punctuation .closeBrace => some .brace
  | .punctuation .closeParen => some .paren
  | _ => none

@[simp] theorem opens?_opener (b : Bracket) : opens? (.punctuation b.opener) = some b := by
  cases b <;> rfl

@[simp] theorem opens?_closer (b : Bracket) : opens? (.punctuation b.closer) = none := by
  cases b <;> rfl

@[simp] theorem closes?_closer (b : Bracket) : closes? (.punctuation b.closer) = some b := by
  cases b <;> rfl

/-- No bracket. -/
def IsPlain (k : Kind) : Prop := k.opens? = none ∧ k.closes? = none

theorem isPlain_symbol : Kind.symbol.IsPlain := ⟨rfl, rfl⟩

theorem isPlain_keyword (k : Keyword) : (Kind.keyword k).IsPlain := ⟨rfl, rfl⟩

theorem isPlain_of_isLiteral {k : Kind} (h : k.isLiteral = true) : k.IsPlain := by
  cases k with
  | integer | decimal | string => exact ⟨rfl, rfl⟩
  | _ => cases h

end Kind

/-- The problem is that a statement, or the end of a block, is missing. -/
def Problem.blamesBlock : Problem → Bool
  | .statement _ | .unclosed _ _ => true
  | _ => false

/-- The error is that a statement, or the end of a block, is missing. -/
def ParseError.blamesBlock : ParseError → Bool
  | .scan _ => false
  | .syntactic e => e.problem.blamesBlock

namespace Grammar

/-- Each bracket has a closing one of its kind, with balanced tokens between them. -/
inductive Balanced : List Token → Prop where
  | nil : Balanced []
  | plain {t : Token} {ts : List Token} : t.kind.IsPlain → Balanced ts → Balanced (t :: ts)
  | pair {b : Bracket} {o c : Token} {us vs : List Token} :
      o.kind = .punctuation b.opener → Balanced us → c.kind = .punctuation b.closer →
      Balanced vs → Balanced (o :: us ++ c :: vs)

variable {ts us vs : List Token}

theorem balanced_singleton {t : Token} (h : t.kind.IsPlain) : Balanced [t] := .plain h .nil

theorem Balanced.append (hus : Balanced us) (hvs : Balanced vs) : Balanced (us ++ vs) := by
  induction hus with
  | nil => exact hvs
  | plain ht _ ih => exact .plain ht ih
  | pair ho hinner hc _ _ ih =>
    have hpair := Balanced.pair ho hinner hc ih
    simpa using hpair

theorem Balanced.enclose {b : Bracket} {o c : Token} (ho : o.kind = .punctuation b.opener)
    (h : Balanced us) (hc : c.kind = .punctuation b.closer) : Balanced (o :: us ++ [c]) :=
  .pair ho h hc .nil

/-! ### Open brackets -/

/-- The open brackets behind a token: a closing bracket takes the innermost one away if it is of
    its kind. -/
def openBehind (opened : List Token) (t : Token) : List Token :=
  match t.kind.opens?, t.kind.closes? with
  | some _, _ => t :: opened
  | none, none => opened
  | none, some b =>
    match opened with
    | [] => []
    | o :: outer => if o.kind.opens? = some b then outer else o :: outer

/-- The brackets that are not closed, the innermost first. -/
def unclosed (ts : List Token) : List Token := ts.foldl openBehind []

theorem openBehind_plain {t : Token} (h : t.kind.IsPlain) (opened : List Token) :
    openBehind opened t = opened := by
  rw [openBehind, h.1, h.2]

theorem openBehind_opener {b : Bracket} {o : Token} (h : o.kind = .punctuation b.opener)
    (opened : List Token) : openBehind opened o = o :: opened := by
  rw [openBehind, h, Kind.opens?_opener]

theorem openBehind_closer {b : Bracket} {o c : Token} (ho : o.kind = .punctuation b.opener)
    (hc : c.kind = .punctuation b.closer) (opened : List Token) :
    openBehind (o :: opened) c = opened := by
  rw [openBehind, hc, Kind.opens?_closer, Kind.closes?_closer]
  simp only [ho, Kind.opens?_opener, if_true]

/-- **Balanced tokens leave open what was open.** -/
theorem Balanced.foldl_openBehind (h : Balanced ts) (opened : List Token) :
    ts.foldl openBehind opened = opened := by
  induction h generalizing opened with
  | nil => rfl
  | plain ht _ ih => rw [List.foldl_cons, openBehind_plain ht, ih]
  | pair ho _ hc _ ihinner ihrest =>
    rw [List.cons_append, List.foldl_cons, openBehind_opener ho, List.foldl_append, ihinner,
      List.foldl_cons, openBehind_closer ho hc, ihrest]

theorem Balanced.unclosed_eq_nil (h : Balanced ts) : unclosed ts = [] :=
  h.foldl_openBehind []

/-- A bracket with balanced tokens behind it is the innermost open one. -/
theorem Balanced.unclosed_opened {b : Bracket} {o : Token}
    (ho : o.kind = .punctuation b.opener) (h : Balanced vs) (us : List Token) :
    unclosed (us ++ o :: vs) = o :: unclosed us := by
  rw [unclosed, List.foldl_append, List.foldl_cons, openBehind_opener ho, h.foldl_openBehind,
    unclosed]

/-! ### Phrases are balanced -/

theorem IsFunctionName.balanced {n : Option String} (h : IsFunctionName ts n) : Balanced ts := by
  cases h with
  | unnamed => exact .nil
  | named ht =>
    refine balanced_singleton ?_
    rw [kind_of_shape_eq_symbol ht]
    exact Kind.isPlain_symbol

/-- Names end with the closing parenthesis, which has nothing to close among them. -/
theorem AreNames.exists_closer {ns : List String} (h : AreNames ts ns) :
    ∃ us c, ts = us ++ [c] ∧ Balanced us ∧ c.kind = .punctuation .closeParen := by
  induction h with
  | @last t c _ ht hc =>
    refine ⟨[t], c, rfl, balanced_singleton ?_, hc⟩
    rw [kind_of_shape_eq_symbol ht]
    exact Kind.isPlain_symbol
  | @more t c _ _ _ ht hc _ ih =>
    obtain ⟨us, d, rfl, hus, hd⟩ := ih
    refine ⟨t :: c :: us, d, rfl, .plain ?_ (.plain ?_ hus), hd⟩
    · rw [kind_of_shape_eq_symbol ht]
      exact Kind.isPlain_symbol
    · rw [hc]
      exact ⟨rfl, rfl⟩

theorem AreParameters.balanced {ns : List String} (h : AreParameters ts ns) : Balanced ts := by
  cases h with
  | absent => exact .nil
  | empty ho hc => exact Balanced.enclose (b := .paren) ho .nil hc
  | names ho hns =>
    obtain ⟨us, c, rfl, hus, hc⟩ := hns.exists_closer
    exact Balanced.enclose (b := .paren) ho hus hc

/-- **The tokens of a phrase are balanced.** -/
theorem Generates.balanced {p : Phrase} (h : Generates p ts) : Balanced ts := by
  induction h with
  | binding ht _ hu _ ih =>
    refine .plain ?_ (.plain ?_ ih)
    · rw [ht]
      exact Kind.isPlain_keyword _
    · rw [hu]
      exact Kind.isPlain_symbol
  | application _ _ ihf ihxs => exact ihf.append ihxs
  | argument _ _ ihx ihxs => exact ihx.append ihxs
  | chained _ _ ihe ihss => exact ihe.append ihss
  | step ht _ _ _ ihp ihxs ihss =>
    refine (Balanced.plain ?_ (ihp.append ihxs)).append ihss
    rw [ht]
    exact ⟨rfl, rfl⟩
  | extra _ _ ihx ihxs => exact ihx.append ihxs
  | invocation _ ht ih =>
    refine ih.append (balanced_singleton ?_)
    rw [ht]
    exact ⟨rfl, rfl⟩
  | literal ht => exact balanced_singleton (Kind.isPlain_of_isLiteral ht)
  | symbol ht =>
    refine balanced_singleton ?_
    rw [ht]
    exact Kind.isPlain_symbol
  | function ht hn hps _ _ _ ih =>
    refine .plain ?_ ((hn.balanced.append hps.balanced).append ih)
    rw [ht]
    exact Kind.isPlain_keyword _
  | block ho _ hc ih => exact ih.enclose ho hc
  | statements _ _ ihe ihxs => exact ihe.append ihxs
  | trailing ht =>
    refine balanced_singleton ?_
    rw [ht]
    exact ⟨rfl, rfl⟩
  | later ht _ _ ihe ihxs =>
    refine (Balanced.plain ?_ ihe).append ihxs
    rw [ht]
    exact ⟨rfl, rfl⟩
  | operand _ ih | bracketed _ ih | braces _ ih | «open» _ _ ih => exact ih
  | noArgument | noStep | noExtra | noStatement | noMore => exact .nil

/-! ### Where a statement can begin -/

/-- There is no token, or the last one is a `;`. -/
def AwaitsStatement (ts : List Token) : Prop :=
  ∀ t ∈ ts.getLast?, t.kind = .punctuation .semicolon

theorem awaitsStatement_nil : AwaitsStatement [] := by simp [AwaitsStatement]

theorem awaitsStatement_append (hvs : vs ≠ []) :
    AwaitsStatement (us ++ vs) ↔ AwaitsStatement vs := by
  rw [AwaitsStatement, AwaitsStatement, List.getLast?_append_of_ne_nil us hvs]

theorem awaitsStatement_singleton {t : Token} :
    AwaitsStatement [t] ↔ t.kind = .punctuation .semicolon := by
  simp [AwaitsStatement]

/-- Tokens that are there, and do not end with a `;`, in a row. -/
theorem not_awaitsStatement_append (hus : us ≠ [] → ¬ AwaitsStatement us)
    (hvs : vs ≠ [] → ¬ AwaitsStatement vs) (hne : us ++ vs ≠ []) :
    ¬ AwaitsStatement (us ++ vs) := by
  by_cases hnil : vs = []
  · subst hnil
    rw [List.append_nil] at hne ⊢
    exact hus hne
  · rw [awaitsStatement_append hnil]
    exact hvs hnil

/-- Whether a phrase can have a `;` at its end. -/
def Phrase.mayAwaitStatement : Phrase → Bool
  | .statements | .later => true
  | _ => false

/-- A statement does not end with a `;`, and none of its parts does. -/
theorem Generates.not_awaitsStatement {p : Phrase} (h : Generates p ts)
    (hp : p.mayAwaitStatement = false) (hne : ts ≠ []) : ¬ AwaitsStatement ts := by
  induction h with
  | @binding t u _ ts _ _ _ hts ih =>
    have hne' : ts ≠ [] := hts.follows.ne_nil rfl
    rw [show t :: u :: ts = [t, u] ++ ts from rfl, awaitsStatement_append hne']
    exact ih rfl hne'
  | application _ _ ihf ihxs => exact not_awaitsStatement_append (ihf rfl) (ihxs rfl) hne
  | argument _ _ ihx ihxs => exact not_awaitsStatement_append (ihx rfl) (ihxs rfl) hne
  | chained _ _ ihe ihss => exact not_awaitsStatement_append (ihe rfl) (ihss rfl) hne
  | @step t us vs ws ht hus _ _ ihp ihxs ihss =>
    have hne' : us ++ vs ≠ [] := List.append_ne_nil_of_left_ne_nil (hus.follows.ne_nil rfl) vs
    refine not_awaitsStatement_append (fun _ => ?_) (ihss rfl) hne
    rw [← List.singleton_append, awaitsStatement_append hne']
    exact not_awaitsStatement_append (ihp rfl) (ihxs rfl) hne'
  | extra _ _ ihx ihxs => exact not_awaitsStatement_append (ihx rfl) (ihxs rfl) hne
  | invocation _ ht =>
    rw [awaitsStatement_append (by simp), awaitsStatement_singleton, ht]
    decide
  | literal ht =>
    rw [awaitsStatement_singleton]
    intro hsemicolon
    rw [hsemicolon] at ht
    cases ht
  | symbol ht =>
    rw [awaitsStatement_singleton, ht]
    decide
  | @function t us vs ws _ _ _ _ _ hws _ _ ih =>
    have hne' : ws ≠ [] := hws.follows.ne_nil rfl
    rw [← List.cons_append, awaitsStatement_append hne']
    exact ih rfl hne'
  | @block b _ _ _ _ _ hc =>
    rw [awaitsStatement_append (by simp), awaitsStatement_singleton, hc]
    cases b <;> decide
  | operand _ ih | bracketed _ ih | braces _ ih | «open» _ _ ih => exact ih rfl hne
  | noArgument | noStep | noExtra => exact absurd rfl hne
  | noStatement | statements | noMore | trailing | later => cases hp

/-! ### The block that is to blame -/

/-- A refusal inside a block is about the block whose bracket stands in front of balanced tokens:
    either a statement is missing there, or one has been read and the input ends behind it.  Other
    errors blame no block. -/
inductive Blames : ParseError → List Token → List Token → Prop where
  | statement {b : Bracket} {before inner rest : List Token} {o t : Token} {l : Option String} :
      o.kind = .punctuation b.opener → Balanced inner → AwaitsStatement inner →
      Blames (.syntactic ⟨.statement b, t, l⟩) (before ++ o :: inner) rest
  | unclosed {b : Bracket} {before inner rest : List Token} {o t : Token} {l : Option String} :
      o.kind = .punctuation b.opener → Balanced inner → ¬ AwaitsStatement inner →
      kind rest = .endOfInput →
      Blames (.syntactic ⟨.unclosed b o.location, t, l⟩) (before ++ o :: inner) rest
  | none {e : ParseError} {used rest : List Token} :
      e.blamesBlock = false → Blames e used rest

theorem Blames.prepend {e : ParseError} {used rest : List Token} (h : Blames e used rest)
    (us : List Token) : Blames e (us ++ used) rest := by
  cases h with
  | statement ho hinner hawaits =>
    rw [← List.append_assoc]
    exact .statement ho hinner hawaits
  | unclosed ho hinner hawaits hrest =>
    rw [← List.append_assoc]
    exact .unclosed ho hinner hawaits hrest
  | none he => exact .none he

/-- Where the reading of `ts` stops, tokens have been taken off the front; and where it fails, the
    right block is to blame. -/
def BlamesFrom {α : Type} (ts : List Token) (r : EStateM.Result ParseError (List Token) α) :
    Prop :=
  ∃ used, ts = used ++ remaining r ∧ ∀ e rest, r = .error e rest → Blames e used rest

/-- Wherever the reader starts, the right block is to blame. -/
def Blamed {α : Type} (x : Reader (List Token) α) : Prop := ∀ ts, BlamesFrom ts (x ts)

section Elements

variable {α β : Type}

theorem blamed_pure (a : α) : Blamed (pure a : Reader (List Token) α) := by
  intro ts
  exact ⟨[], rfl, fun e rest h => absurd h (pure_ne_error _ _ _ _)⟩

theorem blamed_refuse {p : Problem} (hp : p.blamesBlock = false) :
    Blamed (refuse p : Reader (List Token) α) := by
  intro ts
  refine ⟨[], rfl, ?_⟩
  rintro _ _ ⟨⟩
  exact .none hp

theorem blamed_take : Blamed take := by
  intro ts
  obtain ⟨used, hts, -⟩ := forward_take ts
  exact ⟨used, hts, fun e rest h => absurd h (take_ne_error _)⟩

theorem BlamesFrom.append {r : EStateM.Result ParseError (List Token) α} {ts : List Token}
    (h : BlamesFrom ts r) (us : List Token) : BlamesFrom (us ++ ts) r := by
  obtain ⟨used, hts, hblames⟩ := h
  refine ⟨us ++ used, ?_, fun e rest hr => (hblames e rest hr).prepend us⟩
  rw [List.append_assoc, ← hts]

theorem BlamesFrom.bind {x : Reader (List Token) α} {f : α → Reader (List Token) β}
    {ts : List Token} (hx : BlamesFrom ts (x ts))
    (hf : ∀ a rest, x ts = .ok a rest → BlamesFrom rest (f a rest)) :
    BlamesFrom ts ((x >>= f) ts) := by
  obtain ⟨used, hts, hblames⟩ := hx
  cases h : x ts with
  | ok a mid =>
    rw [h] at hts
    rw [bind_of_ok h, hts]
    exact (hf a mid h).append used
  | error e mid =>
    rw [h] at hts hblames
    rw [bind_of_error h]
    refine ⟨used, hts, ?_⟩
    rintro _ _ ⟨⟩
    exact hblames e mid rfl

theorem Blamed.bind {x : Reader (List Token) α} {f : α → Reader (List Token) β} (hx : Blamed x)
    (hf : ∀ a, Blamed (f a)) : Blamed (x >>= f) :=
  fun ts => (hx ts).bind fun a rest _ => hf a rest

theorem Blamed.ite {x y : Reader (List Token) α} (hx : Blamed x) (hy : Blamed y) (b : Bool) :
    Blamed (if b then x else y) := by
  cases b with
  | true => exact hx
  | false => exact hy

theorem blamed_nextIs_bind {p : Kind → Bool} {f : Bool → Reader (List Token) α}
    (hf : ∀ b, Blamed (f b)) : Blamed (nextIs p >>= f) :=
  fun ts => hf _ ts

theorem blamed_peek_bind {f : Token → Reader (List Token) α} (hf : ∀ t, Blamed (f t)) :
    Blamed (peek >>= f) :=
  fun ts => hf _ ts

theorem blamed_get_bind {f : List Token → Reader (List Token) α} (hf : ∀ ts, Blamed (f ts)) :
    Blamed (get >>= f) :=
  fun ts => hf ts ts

theorem blamed_accept (k : Kind) : Blamed (accept k) :=
  blamed_nextIs_bind fun b => .ite (blamed_take.bind fun _ => blamed_pure _) (blamed_pure _) b

theorem blamed_name {p : Problem} (hp : p.blamesBlock = false) : Blamed (name p) := by
  refine blamed_peek_bind fun t => ?_
  cases t.shape with
  | symbol n => exact blamed_take.bind fun _ => blamed_pure _
  | _ => exact blamed_refuse hp

theorem Blamed.many {x : Reader (List Token) α} (hx : Blamed x) (begins : Kind → Bool) :
    Blamed (many begins x) := by
  have hmany (n : Nat) : Blamed (manyUpTo begins x n) := by
    induction n with
    | zero => exact blamed_pure _
    | succ n ih =>
      refine blamed_nextIs_bind fun b => .ite ?_ (blamed_pure _) b
      exact hx.bind fun _ => ih.bind fun _ => blamed_pure _
  exact blamed_get_bind fun ts => hmany (TokenSupply.bound ts)

end Elements

/-! #### Statements -/

section Statements

variable {nested : Reader (List Token) Expr} {b : Bracket} {rest : List Token}

/-- Where a `;` has been the last token, the closing bracket comes next. -/
theorem moreStatements_leaves (hn : Takes nested (Builds .expression)) {n : Nat}
    {v : Bool × List Expr} (h : moreStatements nested b n ts = .ok v rest) :
    ∃ used, ts = used ++ rest ∧ Balanced used ∧
      (used ≠ [] → AwaitsStatement used → kind rest = .punctuation b.closer) := by
  induction n generalizing ts v with
  | zero =>
    obtain ⟨-, rfl⟩ := pure_eq_ok.mp h
    exact ⟨[], rfl, .nil, fun hne => absurd rfl hne⟩
  | succ n ih =>
    obtain ⟨separated, mid, hseparated, h₁⟩ := bind_eq_ok.mp h
    rcases accept_eq_ok.mp hseparated with ⟨rfl, t, rfl, ht⟩ | ⟨rfl, rfl, -⟩
    · have hplain : t.kind.IsPlain := by
        rw [ht]
        exact ⟨rfl, rfl⟩
      rw [if_pos rfl, nextIs_bind] at h₁
      split at h₁
      · rename_i hcloser
        obtain ⟨-, rfl⟩ := pure_eq_ok.mp h₁
        exact ⟨[t], rfl, balanced_singleton hplain, fun _ _ => beq_iff_eq.mp hcloser⟩
      · obtain ⟨first, mid', hfirst, h₂⟩ := bind_eq_ok.mp h₁
        obtain ⟨⟨again, later⟩, mid'', hlater, h₃⟩ := bind_eq_ok.mp h₂
        obtain ⟨-, rfl⟩ := pure_eq_ok.mp h₃
        obtain ⟨us, rfl, hus⟩ := statement_takes hn b hfirst
        obtain ⟨vs, rfl, hvs, hawaits⟩ := ih hlater
        have hne : us ≠ [] := hus.ne_nil rfl
        refine ⟨t :: us ++ vs, by simp, (Balanced.plain hplain hus.generates.balanced).append hvs,
          fun _ hlast => ?_⟩
        by_cases hnil : vs = []
        · subst hnil
          rw [List.append_nil, ← List.singleton_append, awaitsStatement_append hne] at hlast
          exact absurd hlast (hus.generates.not_awaitsStatement rfl hne)
        · exact hawaits hnil ((awaitsStatement_append hnil).mp hlast)
    · obtain ⟨-, rfl⟩ := pure_eq_ok.mp h₁
      exact ⟨[], rfl, .nil, fun hne => absurd rfl hne⟩

theorem statements_leaves (hn : Takes nested (Builds .expression)) {v : Bool × List Expr}
    (h : statements nested b ts = .ok v rest) :
    ∃ used, ts = used ++ rest ∧ Balanced used ∧
      (AwaitsStatement used → kind rest = .punctuation b.closer) := by
  rw [statements, nextIs_bind] at h
  split at h
  · rename_i hcloser
    obtain ⟨-, rfl⟩ := pure_eq_ok.mp h
    exact ⟨[], rfl, .nil, fun _ => beq_iff_eq.mp hcloser⟩
  · obtain ⟨first, mid, hfirst, h₁⟩ := bind_eq_ok.mp h
    rw [get_bind] at h₁
    obtain ⟨⟨separated, later⟩, mid', hlater, h₂⟩ := bind_eq_ok.mp h₁
    obtain ⟨-, rfl⟩ := pure_eq_ok.mp h₂
    obtain ⟨us, rfl, hus⟩ := statement_takes hn b hfirst
    obtain ⟨vs, rfl, hvs, hawaits⟩ := moreStatements_leaves hn hlater
    refine ⟨us ++ vs, by simp, hus.generates.balanced.append hvs, fun hlast => ?_⟩
    by_cases hnil : vs = []
    · subst hnil
      rw [List.append_nil] at hlast
      exact absurd hlast (hus.generates.not_awaitsStatement rfl (hus.ne_nil rfl))
    · exact hawaits hnil ((awaitsStatement_append hnil).mp hlast)

variable {e : ParseError}

/-- A statement is missing. -/
def MissesStatement (b : Bracket) (e : ParseError) : Prop :=
  ∃ t l, e = .syntactic ⟨.statement b, t, l⟩

/-- Between two brackets a statement is missing behind tokens that are balanced, or an inner block
    is to blame. -/
def BlamesInside (b : Bracket) (e : ParseError) (used rest : List Token) : Prop :=
  Blames e used rest ∨ MissesStatement b e ∧ Balanced used ∧ AwaitsStatement used

theorem BlamesInside.prepend (h : BlamesInside b e vs rest) (hne : vs ≠ []) (hus : Balanced us) :
    BlamesInside b e (us ++ vs) rest := by
  rcases h with hblames | ⟨hmissing, hbalanced, hawaits⟩
  · exact Or.inl (hblames.prepend us)
  · exact Or.inr ⟨hmissing, hus.append hbalanced, (awaitsStatement_append hne).mpr hawaits⟩

theorem statement_blames (hb : Blamed nested) (h : statement nested b ts = .error e rest) :
    ∃ used, ts = used ++ rest ∧ (Blames e used rest ∨ MissesStatement b e ∧ used = []) := by
  rw [statement, nextIs_bind] at h
  split at h
  · obtain ⟨used, hts, hblames⟩ := hb ts
    rw [h] at hts
    exact ⟨used, hts, Or.inl (hblames e rest h)⟩
  · cases h
    exact ⟨[], rfl, Or.inr ⟨⟨_, _, rfl⟩, rfl⟩⟩

/-- Later statements are refused behind a `;` at least. -/
theorem moreStatements_blames (hn : Takes nested (Builds .expression)) (hb : Blamed nested)
    {n : Nat} (h : moreStatements nested b n ts = .error e rest) :
    ∃ used, ts = used ++ rest ∧ used ≠ [] ∧ BlamesInside b e used rest := by
  induction n generalizing ts with
  | zero => exact absurd h (pure_ne_error _ _ _ _)
  | succ n ih =>
    rcases accept_bind_eq_error h with ⟨u, us, rfl, hu, h₁⟩ | ⟨-, h₁⟩
    · have hplain : u.kind.IsPlain := by
        rw [hu]
        exact ⟨rfl, rfl⟩
      rw [if_pos rfl, nextIs_bind] at h₁
      split at h₁
      · exact absurd h₁ (pure_ne_error _ _ _ _)
      rcases bind_eq_error h₁ with hfirst | ⟨first, mid, hfirst, h₂⟩
      · obtain ⟨used, rfl, hblames | ⟨hmissing, rfl⟩⟩ := statement_blames hb hfirst
        · exact ⟨u :: used, rfl, by simp, Or.inl (hblames.prepend [u])⟩
        · exact ⟨[u], rfl, by simp,
            Or.inr ⟨hmissing, balanced_singleton hplain, awaitsStatement_singleton.mpr hu⟩⟩
      · obtain ⟨vs, rfl, hvs⟩ := statement_takes hn b hfirst
        obtain ⟨used, rfl, hne, hblames⟩ := ih (bind_pure_eq_error h₂)
        have hfront : Balanced (u :: vs) := .plain hplain hvs.generates.balanced
        exact ⟨u :: vs ++ used, by simp, by simp, hblames.prepend hne hfront⟩
    · exact absurd h₁ (pure_ne_error _ _ _ _)

theorem statements_blames (hn : Takes nested (Builds .expression)) (hb : Blamed nested)
    (h : statements nested b ts = .error e rest) :
    ∃ used, ts = used ++ rest ∧ BlamesInside b e used rest := by
  rw [statements, nextIs_bind] at h
  split at h
  · exact absurd h (pure_ne_error _ _ _ _)
  rcases bind_eq_error h with hfirst | ⟨first, mid, hfirst, h₁⟩
  · obtain ⟨used, rfl, hblames | ⟨hmissing, rfl⟩⟩ := statement_blames hb hfirst
    · exact ⟨used, rfl, Or.inl hblames⟩
    · exact ⟨[], rfl, Or.inr ⟨hmissing, .nil, awaitsStatement_nil⟩⟩
  · rw [get_bind] at h₁
    obtain ⟨us, rfl, hus⟩ := statement_takes hn b hfirst
    obtain ⟨used, rfl, hne, hblames⟩ := moreStatements_blames hn hb (bind_pure_eq_error h₁)
    exact ⟨us ++ used, by simp, hblames.prepend hne hus.generates.balanced⟩

end Statements

/-! #### Productions -/

section Productions

variable {nested : Reader (List Token) Expr}

theorem blamed_functionName : Blamed functionName := by
  refine blamed_peek_bind fun t => ?_
  cases t.shape with
  | symbol n => exact blamed_take.bind fun _ => blamed_pure _
  | _ => exact blamed_pure _

theorem blamed_parameters : Blamed parameters := by
  have hnames (n : Nat) : Blamed (parametersUpTo n) := by
    induction n with
    | zero => exact blamed_pure _
    | succ n ih =>
      refine (blamed_name rfl).bind fun first => ?_
      refine (blamed_accept _).bind fun closed => .ite (blamed_pure _) ?_ closed
      refine (blamed_accept _).bind fun separated => .ite ?_ (blamed_refuse rfl) separated
      exact ih.bind fun _ => blamed_pure _
  refine (blamed_accept _).bind fun opened => .ite ?_ (blamed_pure _) opened
  refine (blamed_accept _).bind fun closed => .ite (blamed_pure _) ?_ closed
  exact blamed_get_bind fun ts => hnames (TokenSupply.bound ts + 1)

variable (hn : Takes nested (Builds .expression)) (hb : Blamed nested)
include hn hb

/-- **The block that is not closed is the innermost one.**  Its own bracket stands in front of what
    it has read, which is balanced. -/
theorem blamesFrom_block {b : Bracket} (hopener : kind ts = .punctuation b.opener) :
    BlamesFrom ts (block nested b ts) := by
  obtain ⟨o, us, rfl, ho, -⟩ := exists_cons_of_kind (p := (· == .punctuation b.opener)) rfl
    (beq_iff_eq.mpr hopener)
  replace ho : o.kind = .punctuation b.opener := beq_iff_eq.mp ho
  rw [block, bind_of_ok (take_cons (isEnd_of_punctuation ho) us)]
  cases hbody : statements nested b us with
  | error e mid =>
    rw [bind_of_error hbody]
    obtain ⟨used, rfl, hblames⟩ := statements_blames hn hb hbody
    refine ⟨o :: used, rfl, ?_⟩
    rintro _ _ ⟨⟩
    rcases hblames with hblames | ⟨⟨t, l, rfl⟩, hbalanced, hawaits⟩
    · exact hblames.prepend [o]
    · exact @Blames.statement b [] _ _ _ _ _ ho hbalanced hawaits
  | ok v mid =>
    obtain ⟨used, rfl, hbalanced, hawaits⟩ := statements_leaves hn hbody
    rw [bind_of_ok hbody]
    dsimp only
    rw [nextIs_bind]
    cases hend : kind mid == .endOfInput with
    | true =>
      refine ⟨o :: used, rfl, ?_⟩
      rintro _ _ ⟨⟩
      have hkind := beq_iff_eq.mp hend
      refine @Blames.unclosed b [] _ _ _ _ _ ho hbalanced (fun hlast => ?_) hkind
      rw [hawaits hlast] at hkind
      cases hkind
    | false =>
      have hafter : Blamed (accept (.punctuation b.closer) >>= fun closed =>
          if closed then (pure (blockOf b v.1 v.2 o.location) : Reader (List Token) Expr)
          else refuse (.statementEnd b)) :=
        (blamed_accept _).bind fun closed => .ite (blamed_pure _) (blamed_refuse rfl) closed
      exact (hafter mid).append (o :: used)

theorem blamed_functionBody : Blamed (functionBody nested) := by
  intro ts
  by_cases hbrace : kind ts = .punctuation .openBrace
  · rw [functionBody_brace hbrace]
    exact blamesFrom_block hn hb (b := .brace) hbrace
  · rw [functionBody, nextIs_bind, beq_eq_false_iff_ne.mpr hbrace]
    exact blamed_nextIs_bind (fun starts => .ite hb (blamed_refuse rfl) starts) ts

theorem blamed_function : Blamed (function nested) := by
  refine blamed_take.bind fun keyword => ?_
  refine blamed_functionName.bind fun n => ?_
  refine blamed_parameters.bind fun ps => ?_
  exact (blamed_functionBody hn hb).bind fun _ => blamed_pure _

theorem blamed_operand : Blamed (operand nested) := by
  intro ts
  by_cases hblock : ∃ b : Bracket, kind ts = .punctuation b.opener
  · obtain ⟨b, hopener⟩ := hblock
    rw [operand_block hopener]
    exact blamesFrom_block hn hb hopener
  · have hkind : kind ts = (ts.headD ending).shape.kind := rfl
    rw [operand, peek_bind]
    cases hs : (ts.headD ending).shape with
    | symbol n => exact (blamed_take.bind fun _ => blamed_pure _) ts
    | integer _ | decimal _ _ | string _ _ => exact (blamed_take.bind fun _ => blamed_pure _) ts
    | endOfInput => exact blamed_refuse rfl ts
    | keyword k =>
      cases k with
      | function => exact blamed_function hn hb ts
      | _ => exact blamed_refuse rfl ts
    | punctuation p =>
      rw [hs] at hkind
      cases p with
      | openBrace => exact absurd ⟨.brace, hkind⟩ hblock
      | openParen => exact absurd ⟨.paren, hkind⟩ hblock
      | _ => exact blamed_refuse rfl ts

theorem blamed_invoked : Blamed (invoked nested) :=
  (blamed_operand hn hb).bind fun _ => (blamed_take.many _).bind fun _ => blamed_pure _

theorem blamed_step : Blamed (step nested) := by
  refine blamed_take.bind fun _ => ?_
  refine blamed_nextIs_bind fun starts => .ite ?_ (blamed_refuse rfl) starts
  refine (blamed_invoked hn hb).bind fun operator => ?_
  exact ((blamed_invoked hn hb).many _).bind fun _ => blamed_pure _

theorem blamed_chained : Blamed (chained nested) :=
  (blamed_invoked hn hb).bind fun _ => ((blamed_step hn hb).many _).bind fun _ => blamed_pure _

theorem blamed_application : Blamed (application nested) :=
  (blamed_chained hn hb).bind fun _ => ((blamed_chained hn hb).many _).bind fun _ => blamed_pure _

omit hn in
theorem blamed_assignment (k : Keyword) : Blamed (assignment nested k) := by
  refine blamed_take.bind fun token => ?_
  refine (blamed_name rfl).bind fun bound => ?_
  refine blamed_nextIs_bind fun starts => .ite ?_ (blamed_refuse rfl) starts
  exact hb.bind fun _ => blamed_pure _

theorem blamed_expressionOver : Blamed (expressionOver nested) := by
  refine blamed_peek_bind fun t => ?_
  cases t.kind with
  | keyword k =>
    cases k with
    | function => exact blamed_application hn hb
    | _ => exact blamed_assignment hb _
  | _ => exact blamed_application hn hb

end Productions

theorem blamed_expression (depth : Nat) :
    Blamed (expression depth : Reader (List Token) Expr) := by
  induction depth with
  | zero => exact blamed_refuse rfl
  | succ depth ih => exact blamed_expressionOver (expression_takes depth) ih

/-- **Where a program is refused, the right block is to blame.** -/
theorem blamed_program (depth : Nat) : Blamed (program depth : Reader (List Token) Expr) := by
  refine blamed_nextIs_bind fun starts => .ite ?_ (blamed_refuse rfl) starts
  refine (blamed_expression depth).bind fun e => ?_
  exact blamed_nextIs_bind fun ended => .ite (blamed_pure _) (blamed_refuse rfl) ended

variable {depth : Nat}

/-- What is in front of the refused token is what the reader has taken. -/
theorem RefusesWithin.blames {e : SyntaxError} (h : RefusesWithin depth ts e) :
    ∃ before after, ts = before ++ e.found :: after ∧
      Blames (.syntactic e) before (e.found :: after) := by
  obtain ⟨before, after, rfl, h⟩ := h
  obtain ⟨used, hts, hblames⟩ := blamed_program depth (before ++ e.found :: after)
  rw [h] at hts
  obtain rfl := List.append_cancel_right hts
  exact ⟨_, after, rfl, hblames _ _ h⟩

end Grammar

/-! ### Texts -/

/-- Nothing comes behind the end of input. -/
theorem Cursor.Scans.eq_nil_of_isEnd {k : Cursor} {us vs : List Token} {t : Token}
    {f : Option ScanError} (h : k.Scans (us ++ t :: vs) f) (ht : t.isEnd = true) :
    f = none ∧ vs = [] := by
  generalize hts : us ++ t :: vs = ts at h
  induction h generalizing us with
  | last =>
    obtain ⟨-, hvs⟩ := List.append_eq_singleton_iff.mp hts |>.resolve_right (by simp)
    exact ⟨rfl, (List.cons.inj hvs).2⟩
  | fault => simp at hts
  | more _ hu _ ih =>
    cases us with
    | nil =>
      obtain ⟨rfl, -⟩ := List.cons.inj hts
      rw [ht] at hu
      cases hu
    | cons u us => exact ih (List.cons.inj hts).2

namespace Program

open Grammar

variable {text : String} {filename : Option String}

/-- A text is refused at one of its tokens. -/
theorem exists_refusesWithin {depth : Nat} {p : Problem} {found : Token} {line : Option String}
    (h : parseTo depth text filename = .error (.syntactic ⟨p, found, line⟩)) :
    ∃ ts f, (Cursor.start text.toList filename).Scans ts f ∧
      RefusesWithin depth ts ⟨p, found, none⟩ := by
  obtain ⟨ts, f, hscans⟩ := Cursor.exists_scans (.start text.toList filename)
  obtain ⟨⟨p', t, l⟩, he, hshown⟩ := (parseTo_eq_syntactic_iff hscans).mp h
  cases hshown
  obtain rfl : l = none := he.sourceLine_eq_none
  exact ⟨ts, f, hscans, he⟩

/-- **A block that is not closed is reported by the innermost open bracket.**  The token that was
    found is the end of input; the bracket that is named stands in front of tokens whose brackets
    all match; and the separator and the closing bracket of its kind are expected. -/
theorem unclosed_names_innermost {depth : Nat} {b : Bracket} {l : Location} {found : Token}
    {line : Option String}
    (h : parseTo depth text filename = .error (.syntactic ⟨.unclosed b l, found, line⟩)) :
    ∃ before o inner k,
      Scanner.all (.start text.toList filename) = .ok (before ++ o :: inner ++ [found]) k ∧
      found.isEnd = true ∧ Balanced inner ∧
      unclosed (before ++ o :: inner) = o :: unclosed before ∧
      o.shape = .punctuation b.opener ∧ l = o.location ∧
      (Problem.unclosed b l).message found =
        "Unclosed delimiter '" ++ o.lexeme ++ "' opened at " ++ o.location.text ∧
      (Problem.unclosed b l).expectedNames =
        [(Kind.punctuation .semicolon).describe, (Kind.punctuation b.closer).describe] := by
  obtain ⟨ts, f, hscans, hrefused⟩ := exists_refusesWithin h
  obtain ⟨used, after, rfl, hblames⟩ := hrefused.blames
  cases hblames with
  | none he => cases he
  | @unclosed _ before inner _ o _ _ ho hbalanced _ hend =>
    have hfound : found.isEnd = true := by simpa [Token.isEnd] using hend
    obtain ⟨rfl, rfl⟩ := hscans.eq_nil_of_isEnd hfound
    obtain ⟨k, hall⟩ := Scanner.all_of_scans hscans
    have hshape := shape_of_kind_eq_punctuation ho
    refine ⟨before, o, inner, k, hall, hfound, hbalanced, hbalanced.unclosed_opened ho before,
      hshape, rfl, ?_, rfl⟩
    rw [Token.lexeme, hshape]
    cases b <;> rfl

/-- The body of a function in a block, behind a group and parameters that are closed. -/
theorem unclosed_names_innermost_body :
    ∃ l found line before o inner k,
      parseTo 9 "f (a) \x7b fn (x) \x7b g (x); h" =
        .error (.syntactic ⟨.unclosed .brace l, found, line⟩) ∧
      Scanner.all (.start "f (a) \x7b fn (x) \x7b g (x); h".toList none) =
        .ok (before ++ o :: inner ++ [found]) k ∧
      Balanced inner ∧ unclosed (before ++ o :: inner) = o :: unclosed before ∧
      (Problem.unclosed .brace l).message found =
        "Unclosed delimiter '" ++ o.lexeme ++ "' opened at " ++ "1:16" := by
  have h : parseTo 9 "f (a) \x7b fn (x) \x7b g (x); h" =
      .error (.syntactic ⟨.unclosed .brace ⟨1, 16, 15, 1, none⟩,
        ⟨.endOfInput, ⟨1, 26, 25, 0, none⟩⟩, some "f (a) \x7b fn (x) \x7b g (x); h"⟩) :=
    eq_error_of_map (f := fun _ => ()) (by decide +kernel)
  have hplace : (⟨1, 16, 15, 1, none⟩ : Location).text = "1:16" := by decide +kernel
  obtain ⟨before, o, inner, k, hall, -, hbalanced, hopen, -, hlocation, hmessage, -⟩ :=
    unclosed_names_innermost h
  refine ⟨_, _, _, before, o, inner, k, h, hall, hbalanced, hopen, ?_⟩
  rw [hmessage, ← hlocation, hplace]

end Program

end Juxta
