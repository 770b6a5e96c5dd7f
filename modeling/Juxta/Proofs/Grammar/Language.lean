/-
  Juxta/Proofs/Grammar/Language.lean
  ==================================
  **The language of the grammar** — `Generates phrase tokens` is the grammar itself: a rule
  for each production, with the choices at a function settled (a symbol after `fn` is its
  name, an opening parenthesis begins the parameters, a body that begins with a brace is one
  block in braces) and every other choice left free.  It is ambiguous: an operand may belong
  to the function body that ends before it, to a step, or to a call.

  `Follows place tokens` reads the same tokens without any structure of calls and chains: an
  operand, and after it a mark `!`, a step, another operand or the end.  However the tokens
  are shared out, they follow each other in this way (`Generates.follows`); this is why it
  costs nothing to take as much as possible at every turn.
-/
import Juxta.Proofs.Grammar.Derivation

namespace Juxta.Grammar

open TokenList

/-! ### The grammar -/

/-- The sequences of tokens of a phrase. -/
inductive Generates : Phrase → List Token → Prop where
  | binding {t u : Token} {k : Keyword} {ts : List Token} :
      t.kind = .keyword k → k ≠ .function → u.kind = .symbol → Generates .expression ts →
      Generates .expression (t :: u :: ts)
  | application {us vs : List Token} :
      Generates .chained us → Generates .arguments vs → Generates .expression (us ++ vs)
  | noArgument : Generates .arguments []
  | argument {us vs : List Token} :
      Generates .chained us → Generates .arguments vs → Generates .arguments (us ++ vs)
  | chained {us vs : List Token} :
      Generates .invoked us → Generates .steps vs → Generates .chained (us ++ vs)
  | noStep : Generates .steps []
  | step {t : Token} {us vs ws : List Token} :
      t.kind = .punctuation .backtick → Generates .invoked us → Generates .extras vs →
      Generates .steps ws → Generates .steps (t :: (us ++ vs) ++ ws)
  | noExtra : Generates .extras []
  | extra {us vs : List Token} :
      Generates .invoked us → Generates .extras vs → Generates .extras (us ++ vs)
  | operand {ts : List Token} : Generates .operand ts → Generates .invoked ts
  | invocation {t : Token} {ts : List Token} :
      Generates .invoked ts → t.kind = .punctuation .bang → Generates .invoked (ts ++ [t])
  | literal {t : Token} : t.kind.isLiteral = true → Generates .operand [t]
  | symbol {t : Token} : t.kind = .symbol → Generates .operand [t]
  | function {t : Token} {us vs ws : List Token} {n : Option String} {ps : List String} :
      t.kind = .keyword .function → IsFunctionName us n → AreParameters vs ps →
      Generates .body ws → (us = [] → kind (vs ++ ws) ≠ .symbol) →
      (vs = [] → kind ws ≠ .punctuation .openParen) →
      Generates .operand (t :: (us ++ vs ++ ws))
  | bracketed {b : Bracket} {ts : List Token} :
      Generates (.block b) ts → Generates .operand ts
  | braces {ts : List Token} : Generates (.block .brace) ts → Generates .body ts
  | open {ts : List Token} :
      Generates .expression ts → kind ts ≠ .punctuation .openBrace → Generates .body ts
  | block {b : Bracket} {t c : Token} {ts : List Token} :
      t.kind = .punctuation b.opener → Generates .statements ts →
      c.kind = .punctuation b.closer → Generates (.block b) (t :: ts ++ [c])
  | noStatement : Generates .statements []
  | statements {us vs : List Token} :
      Generates .expression us → Generates .later vs → Generates .statements (us ++ vs)
  | noMore : Generates .later []
  | trailing {t : Token} : t.kind = .punctuation .semicolon → Generates .later [t]
  | later {t : Token} {us vs : List Token} :
      t.kind = .punctuation .semicolon → Generates .expression us → Generates .later vs →
      Generates .later (t :: us ++ vs)

theorem kind_of_shape_eq_symbol {t : Token} {n : String} (h : t.shape = .symbol n) :
    t.kind = .symbol := by
  rw [Token.kind, h]
  rfl

theorem isLiteral_of_literal? {t : Token} {v : Literal} (h : t.shape.literal? = some v) :
    t.kind.isLiteral = true := by
  rw [Token.kind]
  cases hs : t.shape <;> rw [hs] at h <;> first | rfl | cases h

/-- **Soundness.**  Tokens that build a tree belong to the language. -/
theorem Builds.generates {p : Phrase} {ts : List Token} {v : p.Value} (h : Builds p ts v) :
    Generates p ts := by
  induction h with
  | binding ht hk hu _ ih => exact .binding ht hk (kind_of_shape_eq_symbol hu) ih
  | application _ _ ihf ihxs => exact .application ihf ihxs
  | noArgument => exact .noArgument
  | argument _ _ ihx ihxs => exact .argument ihx ihxs
  | chained _ _ ihe ihss => exact .chained ihe ihss
  | noStep => exact .noStep
  | step ht _ _ _ ihp ihxs ihss => exact .step ht ihp ihxs ihss
  | noExtra => exact .noExtra
  | extra _ _ ihx ihxs => exact .extra ihx ihxs
  | operand _ ih => exact .operand ih
  | invocation _ ht ih => exact .invocation ih ht
  | literal ht => exact .literal (isLiteral_of_literal? ht)
  | symbol ht => exact .symbol (kind_of_shape_eq_symbol ht)
  | function ht hn hps _ hsymbol hparen ih => exact .function ht hn hps ih hsymbol hparen
  | bracketed _ ih => exact .bracketed ih
  | braces _ ih => exact .braces ih
  | «open» _ hbrace ih => exact .open ih hbrace
  | block ht _ hc ih => exact .block ht ih hc
  | noStatement => exact .noStatement
  | statements _ _ ihe ihxs => exact .statements ihe ihxs
  | noMore => exact .noMore
  | trailing ht => exact .trailing ht
  | later ht _ _ ihe ihxs => exact .later ht ihe ihxs

/-! ### Tokens one after another -/

/-- Where a reader of tokens stands. -/
inductive Place where
  | expression
  | operand
  /-- After an operand. -/
  | after
  | body
  | block (bracket : Bracket)
  | statements
  /-- After a statement. -/
  | later
deriving DecidableEq

/-- The tokens can follow at a place.  What follows an operand, a block or the body of a
    function is part of the same sequence. -/
inductive Follows : Place → List Token → Prop where
  | binding {t u : Token} {k : Keyword} {n : String} {ts : List Token} :
      t.kind = .keyword k → k ≠ .function → u.shape = .symbol n → Follows .expression ts →
      Follows .expression (t :: u :: ts)
  | application {ts : List Token} : Follows .operand ts → Follows .expression ts
  | literal {t : Token} {v : Literal} {ts : List Token} :
      t.shape.literal? = some v → Follows .after ts → Follows .operand (t :: ts)
  | symbol {t : Token} {n : String} {ts : List Token} :
      t.shape = .symbol n → Follows .after ts → Follows .operand (t :: ts)
  | function {t : Token} {us vs ws : List Token} {n : Option String} {ps : List String} :
      t.kind = .keyword .function → IsFunctionName us n → AreParameters vs ps →
      Follows .body ws → (us = [] → kind (vs ++ ws) ≠ .symbol) →
      (vs = [] → kind ws ≠ .punctuation .openParen) →
      Follows .operand (t :: (us ++ vs ++ ws))
  | bracketed {b : Bracket} {ts : List Token} : Follows (.block b) ts → Follows .operand ts
  | done : Follows .after []
  | bang {t : Token} {ts : List Token} :
      t.kind = .punctuation .bang → Follows .after ts → Follows .after (t :: ts)
  | step {t : Token} {ts : List Token} :
      t.kind = .punctuation .backtick → Follows .operand ts → Follows .after (t :: ts)
  | another {ts : List Token} : Follows .operand ts → Follows .after ts
  | braces {ts : List Token} : Follows (.block .brace) ts → Follows .body ts
  | open {ts : List Token} :
      Follows .expression ts → kind ts ≠ .punctuation .openBrace → Follows .body ts
  | block {b : Bracket} {t c : Token} {us vs : List Token} :
      t.kind = .punctuation b.opener → Follows .statements us →
      c.kind = .punctuation b.closer → Follows .after vs → Follows (.block b) (t :: us ++ c :: vs)
  | noStatement : Follows .statements []
  | statements {us vs : List Token} :
      Follows .expression us → Follows .later vs → Follows .statements (us ++ vs)
  | noMore : Follows .later []
  | trailing {t : Token} : t.kind = .punctuation .semicolon → Follows .later [t]
  | later {t : Token} {us vs : List Token} :
      t.kind = .punctuation .semicolon → Follows .expression us → Follows .later vs →
      Follows .later (t :: us ++ vs)

/-- Places at which something has to follow, and at which it goes on with what follows an
    operand. -/
def Place.isOpen : Place → Bool
  | .expression | .operand | .body | .block _ => true
  | _ => false

theorem Follows.ne_nil {p : Place} {ts : List Token} (h : Follows p ts)
    (hp : p.isOpen = true) : ts ≠ [] := by
  induction h with
  | application _ ih | bracketed _ ih | braces _ ih | «open» _ _ ih => exact ih rfl
  | binding | literal | symbol | function | block => simp
  | _ => cases hp

/-- **What follows an operand can be put off.**  Behind any open place it follows as well. -/
theorem Follows.append {p : Place} {us vs : List Token} (h : Follows p us)
    (hv : Follows .after vs) (hp : p ≠ .statements ∧ p ≠ .later) : Follows p (us ++ vs) := by
  induction h with
  | binding ht hk hu _ ih => exact .binding ht hk hu (ih (by decide))
  | application _ ih => exact .application (ih (by decide))
  | literal ht _ ih => exact .literal ht (ih (by decide))
  | symbol ht _ ih => exact .symbol ht (ih (by decide))
  | @function t ns ps ws n qs ht hn hps hws hsymbol hparen ih =>
    -- The body is not empty, so that the same token comes after the name and the parameters.
    have hne : ws ≠ [] := hws.ne_nil rfl
    have hassoc : t :: (ns ++ ps ++ ws) ++ vs = t :: (ns ++ ps ++ (ws ++ vs)) := by simp
    rw [hassoc]
    refine .function ht hn hps (ih (by decide)) ?_ ?_
    · intro hnil
      rw [← List.append_assoc, kind_append (by simp [hne])]
      exact hsymbol hnil
    · intro hnil
      rw [kind_append hne]
      exact hparen hnil
  | bracketed _ ih => exact .bracketed (ih (by simp))
  | done => exact hv
  | bang ht _ ih => exact .bang ht (ih (by decide))
  | step ht _ ih => exact .step ht (ih (by decide))
  | another _ ih => exact .another (ih (by decide))
  | braces _ ih => exact .braces (ih (by decide))
  | «open» hts hbrace ih =>
    refine .open (ih (by decide)) ?_
    rwa [kind_append (hts.ne_nil rfl)]
  | @block b t c us ws ht hus hc _ _ ih =>
    have hassoc : t :: us ++ c :: ws ++ vs = t :: us ++ c :: (ws ++ vs) := by simp
    rw [hassoc]
    exact .block ht hus hc (ih (by decide))
  | noStatement | statements => exact absurd rfl hp.1
  | noMore | trailing | later => exact absurd rfl hp.2

/-- The place at which the tokens of a phrase follow. -/
def Phrase.place : Phrase → Place
  | .expression => .expression
  | .chained | .invoked | .operand => .operand
  | .arguments | .steps | .extras => .after
  | .body => .body
  | .block b => .block b
  | .statements => .statements
  | .later => .later

theorem exists_literal?_of_isLiteral {t : Token} (h : t.kind.isLiteral = true) :
    ∃ v, t.shape.literal? = some v := by
  rw [Token.kind] at h
  cases hs : t.shape with
  | integer _ | decimal _ _ | string _ _ => exact ⟨_, rfl⟩
  | _ =>
    rw [hs] at h
    cases h

theorem exists_shape_of_kind {t : Token} (h : t.kind = .symbol) : ∃ n, t.shape = .symbol n := by
  have hkind : kind [t] = .symbol := h
  obtain ⟨u, n, rest, hu, hn⟩ := exists_cons_of_kind_symbol hkind
  cases hu
  exact ⟨n, hn⟩

/-- **However tokens are shared out, they follow each other.** -/
theorem Generates.follows {p : Phrase} {ts : List Token} (h : Generates p ts) :
    Follows p.place ts := by
  induction h with
  | binding ht hk hu _ ih =>
    obtain ⟨n, hn⟩ := exists_shape_of_kind hu
    exact .binding ht hk hn ih
  | application _ _ ihf ihxs => exact .application (ihf.append ihxs (by decide))
  | argument _ _ ihx ihxs => exact .another (ihx.append ihxs (by decide))
  | chained _ _ ihe ihss => exact ihe.append ihss (by decide)
  | step ht _ _ _ ihp ihxs ihss =>
    exact .step ht ((ihp.append ihxs (by decide)).append ihss (by decide))
  | extra _ _ ihx ihxs => exact .another (ihx.append ihxs (by decide))
  | noArgument | noStep | noExtra => exact .done
  | operand _ ih => exact ih
  | invocation _ ht ih => exact ih.append (.bang ht .done) (by decide)
  | literal ht =>
    obtain ⟨v, hv⟩ := exists_literal?_of_isLiteral ht
    exact .literal hv .done
  | symbol ht =>
    obtain ⟨n, hn⟩ := exists_shape_of_kind ht
    exact .symbol hn .done
  | function ht hn hps _ hsymbol hparen ih => exact .function ht hn hps ih hsymbol hparen
  | bracketed _ ih => exact .bracketed ih
  | braces _ ih => exact .braces ih
  | «open» _ hbrace ih => exact .open ih hbrace
  | block ht _ hc ih => exact .block ht ih hc .done
  | noStatement => exact .noStatement
  | statements _ _ ihe ihxs => exact .statements ihe ihxs
  | noMore => exact .noMore
  | trailing ht => exact .trailing ht
  | later ht _ _ ihe ihxs => exact .later ht ihe ihxs

end Juxta.Grammar
