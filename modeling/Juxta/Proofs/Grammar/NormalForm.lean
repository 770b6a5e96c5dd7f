/-
  Juxta/Proofs/Grammar/NormalForm.lean
  ====================================
  **Trees that are read are in normal form** — the reader returns far fewer trees than there
  are.  `Expr.Normal` says what a node of such a tree looks like, and `parseTo_normal` that
  every node of every tree that is read does: names are words or operators, literals have no
  sign, applications are complete, no chain is the seed of a chain, and no binding stands in
  the place of an operand.

  The invariant is `Phrase.Good`: the parts of an operand are normal, and an operand is no
  binding.  A grouping keeps it because it stays a block around a binding, and going on with a
  chain keeps it because the seed of that chain is none.
-/
import Juxta.Proofs.Expr.Same
import Juxta.Proofs.Grammar.Text

namespace Juxta

/-! ### Normal form -/

/-- A number that carries no sign; a negative zero does. -/
def Binary64.IsUnsigned : Binary64 → Prop
  | .nan => False
  | .infinity negative | .finite negative _ => negative = false

/-- A value that can be read: no truth value, no sign, and not both quote marks. -/
def Literal.Normal : Literal → Prop
  | .integer n => 0 ≤ n
  | .decimal x => x.IsUnsigned
  | .text s => ¬ ('"' ∈ s.toList ∧ '\'' ∈ s.toList)
  | .truth _ => False

theorem Literal.Normal.isPlain {v : Literal} (h : v.Normal) : v.IsPlain := by
  cases v with
  | decimal x =>
    cases x with
    | nan => exact h
    | infinity negative => trivial
    | finite negative m => exact h
  | _ => trivial

/-- A node as the reader returns it. -/
structure Expr.Normal (e : Expr) : Prop where
  /-- Names are words that are not reserved, or runs of operator characters. -/
  names : ∀ name ∈ e.names, Text.IsName name
  literal : ∀ v ∈ e.literal?, v.Normal
  /-- No binding is callee, argument, seed, operator, extra argument or target. -/
  operands : ∀ x ∈ e.operands, x.isAssignment = false
  arguments : e.HasArguments
  /-- Chains have steps, and their seeds are no chains. -/
  flat : e.IsFlat

/-! ### Numbers without a sign -/

namespace Binary64

theorem isUnsigned_ofForm (significand scale : Nat) :
    (ofForm false significand scale).IsUnsigned := by
  unfold ofForm
  split <;> rfl

theorem isUnsigned_ofRatio (num den : Nat) : (ofRatio false num den).IsUnsigned := by
  unfold ofRatio
  dsimp only
  split <;> exact isUnsigned_ofForm _ _

end Binary64

theorem Numeral.isUnsigned_toBinary64 (n : Numeral) : (n.toBinary64 false).IsUnsigned := by
  unfold toBinary64
  split <;> exact Binary64.isUnsigned_ofRatio _ _

theorem Shape.IsLexeme.normal {s : Shape} (h : s.IsLexeme) {v : Literal}
    (hv : s.literal? = some v) : v.Normal := by
  cases s with
  | integer digits =>
    cases hv
    exact Int.natCast_nonneg _
  | decimal whole fraction =>
    cases hv
    exact Numeral.isUnsigned_toBinary64 _
  | string mark body =>
    cases hv
    rintro ⟨hdouble, hsingle⟩
    cases mark with
    | double => exact h hdouble
    | single => exact h hsingle
  | _ => cases hv

namespace Grammar

open TokenList

/-! ### What is built is normal -/

/-- An operand is normal through and through, and no binding. -/
def IsGoodOperand (e : Expr) : Prop := e.Everywhere Expr.Normal ∧ e.isAssignment = false

/-- What a phrase of lexemes stands for. -/
def Phrase.Good : (p : Phrase) → p.Value → Prop
  | .expression, e | .body, e => e.Everywhere Expr.Normal
  | .chained, e | .invoked, e | .operand, e | .block _, e => IsGoodOperand e
  | .arguments, xs | .extras, xs => ∀ x ∈ xs, IsGoodOperand x
  | .steps, ss => ∀ s ∈ ss, IsGoodOperand s.operator ∧ ∀ x ∈ s.extra, IsGoodOperand x
  | .statements, v | .later, v => ∀ x ∈ v.2, x.Everywhere Expr.Normal

theorem isName_of_isLexeme {t : Token} {n : String} (h : t.shape.IsLexeme)
    (ht : t.shape = .symbol n) : Text.IsName n := by
  rw [ht] at h
  exact h

theorem IsFunctionName.isName {ts : List Token} {n : Option String} (h : IsFunctionName ts n)
    (hts : ∀ t ∈ ts, t.shape.IsLexeme) : ∀ name ∈ n.toList, Text.IsName name := by
  cases h with
  | unnamed => simp
  | @named t n ht =>
    have hname : Text.IsName n := isName_of_isLexeme (hts t (by simp)) ht
    simpa using hname

theorem AreNames.isName {ts : List Token} {ns : List String} (h : AreNames ts ns)
    (hts : ∀ t ∈ ts, t.shape.IsLexeme) : ∀ name ∈ ns, Text.IsName name := by
  induction h with
  | @last t c n ht _ =>
    have hname : Text.IsName n := isName_of_isLexeme (hts t (by simp)) ht
    simpa using hname
  | @more t c n ts ns ht _ _ ih =>
    have hname : Text.IsName n := isName_of_isLexeme (hts t (by simp)) ht
    simp only [List.forall_mem_cons] at hts ⊢
    exact ⟨hname, ih hts.2.2⟩

theorem AreParameters.isName {ts : List Token} {ns : List String} (h : AreParameters ts ns)
    (hts : ∀ t ∈ ts, t.shape.IsLexeme) : ∀ name ∈ ns, Text.IsName name := by
  cases h with
  | absent | empty => simp
  | names _ hns => exact hns.isName (List.forall_mem_cons.mp hts).2

theorem callOf_normal {f : Expr} {xs : List Expr} (hf : IsGoodOperand f)
    (hxs : ∀ x ∈ xs, IsGoodOperand x) : (callOf f xs).Everywhere Expr.Normal := by
  cases xs with
  | nil => exact hf.1
  | cons x xs =>
    refine Expr.everywhere_call.mpr
      ⟨⟨by simp [Expr.names], by simp [Expr.literal?], ?_, ?_, trivial⟩, hf.1,
        fun y hy => (hxs y hy).1⟩
    · intro y hy
      rcases List.mem_cons.mp hy with rfl | hy
      · exact hf.2
      · exact (hxs y hy).2
    · exact List.cons_ne_nil x xs

theorem chain_normal {seed : Expr} {ss : List Step} {l : Option Location}
    (hseed : IsGoodOperand seed) (hflat : seed.isChain = false) (hne : ss ≠ [])
    (hss : ∀ s ∈ ss, IsGoodOperand s.operator ∧ ∀ x ∈ s.extra, IsGoodOperand x) :
    IsGoodOperand (.chain seed ss l) := by
  refine ⟨Expr.everywhere_chain.mpr ⟨⟨by simp [Expr.names], by simp [Expr.literal?], ?_, trivial,
    hne, hflat⟩, hseed.1, fun s hs => ⟨(hss s hs).1.1, fun x hx => ((hss s hs).2 x hx).1⟩⟩, rfl⟩
  refine Expr.forall_mem_operands_chain.mpr ⟨hseed.2, fun s hs => ⟨(hss s hs).1.2, ?_⟩⟩
  intro x hx
  exact ((hss s hs).2 x hx).2

/-- A chain in normal form comes apart into good operands. -/
theorem of_chain_normal {seed : Expr} {ss : List Step} {l : Option Location}
    (h : Expr.Everywhere Expr.Normal (.chain seed ss l)) :
    IsGoodOperand seed ∧ seed.isChain = false ∧ ss ≠ [] ∧
      ∀ s ∈ ss, IsGoodOperand s.operator ∧ ∀ x ∈ s.extra, IsGoodOperand x := by
  obtain ⟨hself, hseed, hss⟩ := Expr.everywhere_chain.mp h
  obtain ⟨hseed', hss'⟩ := Expr.forall_mem_operands_chain.mp hself.operands
  refine ⟨⟨hseed, hseed'⟩, hself.flat.2, hself.flat.1, fun s hs => ⟨?_, fun x hx => ?_⟩⟩
  · exact ⟨(hss s hs).1, (hss' s hs).1⟩
  · exact ⟨(hss s hs).2 x hx, (hss' s hs).2 x hx⟩

/-- A seed with steps is normal, also when it goes on with a chain. -/
theorem chainOf_normal {seed : Expr} {ss : List Step} (hseed : IsGoodOperand seed)
    (hss : ∀ s ∈ ss, IsGoodOperand s.operator ∧ ∀ x ∈ s.extra, IsGoodOperand x) :
    IsGoodOperand (chainOf seed ss) := by
  by_cases hne : ss = []
  · subst hne
    exact hseed
  · cases seed with
    | chain first earlier l =>
      obtain ⟨hfirst, hflat, -, hearlier⟩ := of_chain_normal hseed.1
      have hgood : IsGoodOperand (.chain first (earlier ++ ss) l) := by
        refine chain_normal hfirst hflat (by simp [hne]) ?_
        exact List.forall_mem_append.mpr ⟨hearlier, hss⟩
      cases ss with
      | nil => exact absurd rfl hne
      | cons s ss => exact hgood
    | _ =>
      cases ss with
      | nil => exact absurd rfl hne
      | cons s ss => exact chain_normal hseed rfl hne hss

/-- A block is good, and so is what a grouping stands for. -/
theorem blockOf_normal {b : Bracket} {separated : Bool} {xs : List Expr} {l : Location}
    (hxs : ∀ x ∈ xs, x.Everywhere Expr.Normal) : IsGoodOperand (blockOf b separated xs l) := by
  have hblock (b : Bracket) : IsGoodOperand (.block b xs (some l)) := by
    refine ⟨Expr.everywhere_block.mpr ⟨⟨?_, ?_, ?_, trivial, trivial⟩, hxs⟩, rfl⟩
    · simp [Expr.names]
    · simp [Expr.literal?]
    · simp [Expr.operands]
  unfold blockOf
  split
  · rename_i e
    cases he : e.isAssignment with
    | true => exact hblock .paren
    | false => exact ⟨hxs e (by simp), he⟩
  · exact hblock b

/-- **What lexemes build is in normal form.** -/
theorem Builds.good {p : Phrase} {ts : List Token} {v : p.Value} (h : Builds p ts v)
    (hts : ∀ t ∈ ts, t.shape.IsLexeme) : p.Good v := by
  induction h with
  | @binding t u k n ts e _ _ hu _ ih =>
    have hname : Text.IsName n := isName_of_isLexeme (hts u (by simp)) hu
    refine Expr.everywhere_assignment.mpr ⟨⟨?_, ?_, ?_, trivial, trivial⟩, ih ?_⟩
    · simpa [Expr.names] using hname
    · simp [Expr.literal?]
    · simp [Expr.operands]
    · intro t ht
      exact hts t (by simp [ht])
  | application _ _ ihf ihxs =>
    obtain ⟨hus, hvs⟩ := List.forall_mem_append.mp hts
    exact callOf_normal (ihf hus) (ihxs hvs)
  | argument _ _ ihx ihxs =>
    obtain ⟨hus, hvs⟩ := List.forall_mem_append.mp hts
    exact List.forall_mem_cons.mpr ⟨ihx hus, ihxs hvs⟩
  | chained _ _ ihe ihss =>
    obtain ⟨hus, hvs⟩ := List.forall_mem_append.mp hts
    exact chainOf_normal (ihe hus) (ihss hvs)
  | step _ _ _ _ ihp ihxs ihss =>
    simp only [List.cons_append, List.forall_mem_cons, List.forall_mem_append] at hts
    obtain ⟨-, ⟨hus, hvs⟩, hws⟩ := hts
    exact List.forall_mem_cons.mpr ⟨⟨ihp hus, ihxs hvs⟩, ihss hws⟩
  | extra _ _ ihx ihxs =>
    obtain ⟨hus, hvs⟩ := List.forall_mem_append.mp hts
    exact List.forall_mem_cons.mpr ⟨ihx hus, ihxs hvs⟩
  | invocation _ _ ih =>
    have hgood := ih (List.forall_mem_append.mp hts).1
    refine ⟨Expr.everywhere_invocation.mpr ⟨⟨?_, ?_, ?_, trivial, trivial⟩, hgood.1⟩, rfl⟩
    · simp [Expr.names]
    · simp [Expr.literal?]
    · simpa [Expr.operands] using hgood.2
  | @literal t v hv =>
    have hnormal := (hts t (by simp)).normal hv
    refine ⟨Expr.everywhere_literal.mpr ⟨?_, ?_, ?_, trivial, trivial⟩, rfl⟩
    · simp [Expr.names]
    · simpa [Expr.literal?] using hnormal
    · simp [Expr.operands]
  | @symbol t n ht =>
    have hname : Text.IsName n := isName_of_isLexeme (hts t (by simp)) ht
    refine ⟨Expr.everywhere_symbol.mpr ⟨?_, ?_, ?_, trivial, trivial⟩, rfl⟩
    · simpa [Expr.names] using hname
    · simp [Expr.literal?]
    · simp [Expr.operands]
  | function _ hn hps _ _ _ ih =>
    simp only [List.forall_mem_cons, List.forall_mem_append] at hts
    obtain ⟨-, ⟨hus, hvs⟩, hws⟩ := hts
    refine ⟨Expr.everywhere_function.mpr ⟨⟨?_, ?_, ?_, trivial, trivial⟩, ih hws⟩, rfl⟩
    · exact List.forall_mem_append.mpr ⟨hn.isName hus, hps.isName hvs⟩
    · simp [Expr.literal?]
    · simp [Expr.operands]
  | block _ _ _ ih =>
    simp only [List.cons_append, List.forall_mem_cons, List.forall_mem_append] at hts
    exact blockOf_normal (ih hts.2.1)
  | statements _ _ ihe ihxs =>
    obtain ⟨hus, hvs⟩ := List.forall_mem_append.mp hts
    exact List.forall_mem_cons.mpr ⟨ihe hus, ihxs hvs⟩
  | later _ _ _ ihe ihxs =>
    simp only [List.cons_append, List.forall_mem_cons, List.forall_mem_append] at hts
    exact List.forall_mem_cons.mpr ⟨ihe hts.2.1, ihxs hts.2.2⟩
  | operand _ ih | bracketed _ ih | «open» _ _ ih => exact ih hts
  | braces _ ih => exact (ih hts).1
  | noArgument | noStep | noExtra | noStatement | noMore | trailing => simp [Phrase.Good]

end Grammar

namespace Program

/-- **Every tree that is read is in normal form**, at whatever depth it is read. -/
theorem parseTo_normal {depth : Nat} {text : String} {filename : Option String} {e : Expr}
    (h : parseTo depth text filename = .ok e) : ∀ n ∈ e.nodes, n.Normal := by
  obtain ⟨ts, hbuilds, hlexemes⟩ := builds_of_parseTo h
  exact hbuilds.good hlexemes

/-- A chain that goes on after its grouping, with a binding in parentheses as argument. -/
theorem parseTo_normal_grouping :
    ∃ e, parseTo 200 "(f \x60g .5) \x60h (let x 'y')!" = .ok e ∧ ∀ n ∈ e.nodes, n.Normal := by
  have hok : (parseTo 200 "(f \x60g .5) \x60h (let x 'y')!").isOk = true := by decide +kernel
  cases h : parseTo 200 "(f \x60g .5) \x60h (let x 'y')!" with
  | ok e => exact ⟨e, rfl, parseTo_normal h⟩
  | error e =>
    rw [h] at hok
    cases hok

theorem hasPlainLiteral_of_parseTo {depth : Nat} {text : String} {filename : Option String}
    {e : Expr} (h : parseTo depth text filename = .ok e) :
    e.Everywhere Expr.HasPlainLiteral := by
  intro n hn v hv
  obtain ⟨ts, hbuilds, hlexemes⟩ := builds_of_parseTo h
  exact ((hbuilds.good hlexemes n hn).literal v hv).isPlain

end Program

end Juxta
