/-
  Juxta/Proofs/Layout/Reading.lean
  ================================
  **The tokens of a layout are read back** — the tokens of an expressible tree are read as that
  tree, up to locations, whatever comes after them that does not go on with it.

  What stands in the place of an operand is read in front of anything (`readsOperand_shapes`).
  All other lemmas stand in front of tokens that end an expression.
  The argument is by the levels of the text: `ReadsTrees n nested` says that the reader of nested
  expressions gives back trees whose text has up to `n` levels, also in parentheses, in which the
  layout puts the body of a function.
-/
import Juxta.Proofs.Grammar.Operands
import Juxta.Proofs.Grammar.Statements
import Juxta.Proofs.Layout.Nesting

namespace Juxta

open Grammar TokenList

/-! ### Expressible trees -/

/-- A literal that has a text of its own: a number without a sign that is neither too long nor
    infinite nor undefined, or a text without one of the quote marks. -/
def Literal.Expressible : Literal → Prop
  | .integer n => 0 ≤ n ∧ (Nat.toDigits 10 n.natAbs).length ≤ Scan.digitLimit
  | .decimal (.finite negative _) => negative = false
  | .text s => ¬ ('"' ∈ s.toList ∧ '\'' ∈ s.toList)
  | .decimal _ | .truth _ => False

instance : DecidablePred Literal.Expressible
  | .integer _ => inferInstanceAs (Decidable (_ ∧ _))
  | .decimal (.finite negative _) => inferInstanceAs (Decidable (negative = false))
  | .text _ => inferInstanceAs (Decidable ¬ (_ ∧ _))
  | .decimal .nan | .decimal (.infinity _) | .truth _ => inferInstanceAs (Decidable False)

/-- A node that can be written down. -/
structure Expr.Expressible (n : Expr) : Prop where
  /-- Every name is read, as a whole, as one symbol. -/
  names : ∀ name ∈ n.names, Scan.ofText name.toList = .token (.symbol name)
  literal : ∀ v ∈ n.literal?, v.Expressible
  /-- No binding is callee, argument, seed, operator, extra argument or target. -/
  operands : ∀ x ∈ n.operands, x.isAssignment = false
  arguments : n.HasArguments
  /-- Chains have steps, and their seeds are no chains. -/
  flat : n.IsFlat

instance : DecidablePred Expr.Expressible := fun n =>
  decidable_of_iff ((∀ name ∈ n.names, Scan.ofText name.toList = .token (.symbol name)) ∧
      (∀ v ∈ n.literal?, v.Expressible) ∧ (∀ x ∈ n.operands, x.isAssignment = false) ∧
      n.HasArguments ∧ n.IsFlat)
    ⟨fun ⟨hnames, hliteral, hoperands, harguments, hflat⟩ =>
      ⟨hnames, hliteral, hoperands, harguments, hflat⟩,
    fun h => ⟨h.names, h.literal, h.operands, h.arguments, h.flat⟩⟩

theorem Literal.Expressible.exists_magnitude {x : Binary64}
    (h : (Literal.decimal x).Expressible) : ∃ m, x = .finite false m := by
  cases x with
  | finite negative m =>
    cases h
    exact ⟨m, rfl⟩
  | nan | infinity _ => cases h

theorem Literal.Expressible.legible {v : Literal} (h : v.Expressible) : v.Legible := by
  cases v with
  | integer n => exact h.2
  | decimal x =>
    obtain ⟨m, rfl⟩ := h.exists_magnitude
    rfl
  | text s => exact h
  | truth b => cases h

theorem Expr.Expressible.legible {n : Expr} (h : n.Expressible) : n.Legible where
  names := fun name hname => (Scan.ofText_eq_symbol_iff name).mp (h.names name hname)
  literal := fun v hv => (h.literal v hv).legible

namespace Layout

/-- The token of an expressible literal has its value. -/
theorem exists_literalShapes {v : Literal} (h : v.Expressible) :
    ∃ s, literalShapes v = [s] ∧ s.literal? = some v := by
  cases v with
  | integer n =>
    obtain ⟨hn, -⟩ := h
    have hsign : ¬ n < 0 := by omega
    refine ⟨_, by simp [literalShapes, signShapes, hsign]; rfl, ?_⟩
    rw [Shape.literal?, String.toList_ofList, Nat.ofDigitChars_ten_toDigits,
      Int.natAbs_of_nonneg hn]
  | decimal x =>
    obtain ⟨m, rfl⟩ := h.exists_magnitude
    obtain ⟨whole, fraction, hshape, -, -, -, -, hvalue⟩ := exists_magnitudeShape m
    refine ⟨magnitudeShape m, rfl, ?_⟩
    rw [hshape, Shape.literal?, String.toList_ofList, String.toList_ofList, hvalue]
  | text s => exact ⟨_, rfl, rfl⟩
  | truth b => cases h

/-! ### First tokens -/

/-- The first token can begin an operand. -/
def StartsOperand (ss : List Shape) : Prop :=
  ∃ s ss', ss = s :: ss' ∧ s.kind.startsOperand = true

theorem StartsOperand.append {ss : List Shape} (h : StartsOperand ss) (ss' : List Shape) :
    StartsOperand (ss ++ ss') := by
  obtain ⟨s, ss, rfl, hs⟩ := h
  exact ⟨s, ss ++ ss', rfl, hs⟩

theorem startsOperand_parens (ss : List Shape) : StartsOperand (parens ss) := ⟨_, _, rfl, rfl⟩

theorem startsOperand_literal {v : Literal} (h : v.Expressible) :
    StartsOperand (literalShapes v) := by
  obtain ⟨s, hs, hv⟩ := exists_literalShapes h
  refine ⟨s, [], hs, ?_⟩
  cases s with
  | integer _ | decimal _ _ | string _ _ => rfl
  | _ => cases hv

theorem StartsOperand.operandShapes (e : Expr) {ss : List Shape} (h : StartsOperand ss) :
    StartsOperand (operandShapes e ss) := by
  unfold Layout.operandShapes
  split
  · exact h
  · exact startsOperand_parens ss

theorem startsOperand_shapes : (e : Expr) → e.Everywhere Expr.Expressible →
    e.isAssignment = false → StartsOperand (shapes e)
  | .literal v _, h, _ => startsOperand_literal (h.self.literal v rfl)
  | .symbol _ _, _, _ => ⟨_, _, rfl, rfl⟩
  | .function _ _ _ _, _, _ => ⟨_, _, rfl, rfl⟩
  | .block b _ _, _, _ => ⟨_, _, rfl, by cases b <;> rfl⟩
  | .assignment _ _ _ _, _, ha => by cases ha
  | .call f _ _, h, _ => by
    have hf := h.self.operands f (by simp [Expr.operands])
    exact ((startsOperand_shapes f (Expr.everywhere_call.mp h).2.1 hf).operandShapes f).append _
  | .chain seed _ _, h, _ => by
    have hseed := h.self.operands seed (by simp [Expr.operands])
    have hstart := startsOperand_shapes seed (Expr.everywhere_chain.mp h).2.1 hseed
    exact (hstart.operandShapes seed).append _
  | .invocation target _, h, _ => by
    have htarget := h.self.operands target (by simp [Expr.operands])
    have hstart := startsOperand_shapes target (Expr.everywhere_invocation.mp h).2 htarget
    exact (hstart.operandShapes target).append _

/-! ### Tokens of given shapes -/

section Tokens

variable {ts rest : List Token} {ss : List Shape}

theorem kind_of_shape {t : Token} {s : Shape} (h : t.shape = s) : t.kind = s.kind := by
  rw [Token.kind, h]

theorem kind_of_shapes {s : Shape} (h : ts.map Token.shape = s :: ss) (rest : List Token) :
    kind (ts ++ rest) = s.kind := by
  obtain ⟨t, us, rfl, ht, -⟩ := List.map_eq_cons_iff.mp h
  exact kind_of_shape ht

theorem startsOperand_kind (h : ts.map Token.shape = ss) (hss : StartsOperand ss)
    (rest : List Token) : Kind.startsOperand (kind (ts ++ rest)) = true := by
  obtain ⟨s, ss, rfl, hs⟩ := hss
  obtain ⟨t, us, rfl, rfl, -⟩ := List.map_eq_cons_iff.mp h
  exact hs

theorem isFunctionName_of_shapes {n : Option String}
    (h : ts.map Token.shape = n.toList.map .symbol) : IsFunctionName ts n := by
  cases n with
  | none =>
    obtain rfl := List.map_eq_nil_iff.mp h
    exact .unnamed
  | some n =>
    obtain ⟨t, rfl, ht⟩ := List.map_eq_singleton_iff.mp h
    exact .named ht

theorem areNames_of_shapes {p : String} {ps : List String}
    (h : ts.map Token.shape = .symbol p :: ((ps.map fun q => [Shape.symbol q]).flatMap
      (.punctuation .comma :: ·) ++ [.punctuation .closeParen])) : AreNames ts (p :: ps) := by
  induction ps generalizing p ts with
  | nil =>
    obtain ⟨t, us, rfl, ht, hus⟩ := List.map_eq_cons_iff.mp h
    obtain ⟨c, rfl, hc⟩ := List.map_eq_singleton_iff.mp hus
    exact .last ht (kind_of_shape hc)
  | cons q ps ih =>
    obtain ⟨t, us, rfl, ht, hus⟩ := List.map_eq_cons_iff.mp h
    obtain ⟨c, vs, rfl, hc, hvs⟩ := List.map_eq_cons_iff.mp hus
    exact .more ht (kind_of_shape hc) (ih hvs)

theorem areParameters_of_shapes {ps : List String}
    (h : ts.map Token.shape = parens (separated .comma (ps.map fun p => [.symbol p]))) :
    AreParameters ts ps := by
  obtain ⟨t, us, rfl, ht, hus⟩ := List.map_eq_cons_iff.mp h
  cases ps with
  | nil =>
    obtain ⟨c, rfl, hc⟩ := List.map_eq_singleton_iff.mp hus
    exact .empty (kind_of_shape ht) (kind_of_shape hc)
  | cons p ps => exact .names (kind_of_shape ht) (areNames_of_shapes hus)

end Tokens

theorem chainOf_eq_chain {seed : Expr} {ss : List Step} (hne : ss ≠ [])
    (hseed : seed.isChain = false) : chainOf seed ss = .chain seed ss seed.location := by
  obtain ⟨s, ss, rfl⟩ := List.exists_cons_of_ne_nil hne
  cases seed with
  | chain => cases hseed
  | _ => rfl

theorem shapesAll_eq_map (xs : List Expr) : shapesAll xs = xs.map shapes := by
  induction xs with
  | nil => rfl
  | cons x xs ih => simp [shapesAll, ih]

/-! ### Nested trees of bounded depth -/

/-- The tokens of a tree where it is nested, and their levels: by itself, or an operand in
    parentheses. -/
def IsWritten (e : Expr) (ss : List Shape) (m : Nat) : Prop :=
  ss = shapes e ∧ m = nesting e ∨
    (e.isAssignment = false ∧ ss = parens (shapes e)) ∧ m = nesting e + 1

/-- The reader gives back every expressible tree of at most `n` levels. -/
def ReadsTrees (n : Nat) (nested : Reader (List Token) Expr) : Prop :=
  ∀ ⦃e ts m rest⦄, e.Everywhere Expr.Expressible → IsWritten e (ts.map Token.shape) m →
    m ≤ n → Grammar.Stops rest →
    ∃ e', nested (ts ++ rest) = .ok e' rest ∧ e'.unlocated = e.unlocated

theorem startsExpression_kind {e : Expr} {ts : List Token} {m : Nat}
    (h : e.Everywhere Expr.Expressible) (hts : IsWritten e (ts.map Token.shape) m)
    (rest : List Token) : Kind.startsExpression (kind (ts ++ rest)) = true := by
  rcases hts with ⟨hts, -⟩ | ⟨⟨-, hts⟩, -⟩
  · cases he : e.isAssignment with
    | false =>
      have hstart := startsOperand_kind hts (startsOperand_shapes e h he) rest
      exact startsExpression_of_startsOperand hstart
    | true =>
      cases e with
      | assignment r name value l =>
        obtain ⟨t, us, rfl, ht, -⟩ := List.map_eq_cons_iff.mp hts
        rw [List.cons_append, kind_cons, kind_of_shape ht]
        cases r <;> rfl
      | _ => cases he
  · exact startsExpression_of_startsOperand (startsOperand_kind hts (startsOperand_parens _) rest)

theorem ReadsTrees.readsExpression {nested : Reader (List Token) Expr} {n : Nat}
    (hr : ReadsTrees n nested) {e : Expr} {ts : List Token} (h : e.Everywhere Expr.Expressible)
    (hts : ts.map Token.shape = shapes e) (hle : nesting e ≤ n) : ReadsExpression nested ts e := by
  intro rest hrest
  have hwritten : IsWritten e (ts.map Token.shape) (nesting e) := Or.inl ⟨hts, rfl⟩
  exact ⟨startsExpression_kind h hwritten rest, hr h hwritten hle hrest⟩

section Nested

variable {nested : Reader (List Token) Expr} {n : Nat} (hn : Takes nested (Builds .expression))
  (hr : ReadsTrees n nested)

/-! ### Blocks -/

include hr in
/-- The statements behind the first one. -/
theorem later_reads {b : Bracket} {xs : List Expr} {keep : Bool}
    (hxs : ∀ x ∈ xs, x.Everywhere Expr.Expressible) {ts : List Token}
    (hts : ts.map Token.shape = (xs.map shapes).flatMap (.punctuation .semicolon :: ·)
      ++ (if keep then [.punctuation .semicolon] else []))
    (hle : nestingAll xs ≤ n) : ReadsLater nested b ts (keep || !xs.isEmpty) xs := by
  induction xs generalizing ts with
  | nil =>
    cases keep with
    | false =>
      obtain rfl := List.map_eq_nil_iff.mp hts
      exact readsLater_nil
    | true =>
      obtain ⟨t, rfl, ht⟩ := List.map_eq_singleton_iff.mp hts
      exact readsLater_trailing (kind_of_shape ht)
  | cons x xs ih =>
    obtain ⟨hx, hxs⟩ := List.forall_mem_cons.mp hxs
    rw [List.map_cons, List.flatMap_cons, List.cons_append, List.cons_append,
      List.append_assoc] at hts
    obtain ⟨t, us, rfl, ht, hus⟩ := List.map_eq_cons_iff.mp hts
    obtain ⟨vs, ws, rfl, hvs, hws⟩ := List.map_eq_append_iff.mp hus
    obtain ⟨hfirst, hlater⟩ := Nat.max_le.mp hle
    have hread := (ih hxs hws hlater).cons (b := b) (kind_of_shape ht)
      (hr.readsExpression hx hvs hfirst)
    rwa [List.isEmpty_cons, Bool.not_false, Bool.or_true]

include hr in
/-- The statements of a block.  They are separated when there are several, or when the only one
    keeps its separator. -/
theorem statements_reads {b : Bracket} {xs : List Expr} {keep : Bool}
    (hxs : ∀ x ∈ xs, x.Everywhere Expr.Expressible) (hkeep : xs = [] → keep = false)
    {ts : List Token}
    (hts : ts.map Token.shape = separated .semicolon (xs.map shapes)
      ++ (if keep then [.punctuation .semicolon] else []))
    (hle : nestingAll xs ≤ n) : ReadsStatements nested b ts (keep || !xs.tail.isEmpty) xs := by
  cases xs with
  | nil =>
    rw [hkeep rfl] at hts ⊢
    obtain rfl := List.map_eq_nil_iff.mp hts
    exact readsStatements_nil
  | cons x xs =>
    obtain ⟨hx, hxs⟩ := List.forall_mem_cons.mp hxs
    rw [List.map_cons, separated, List.append_assoc] at hts
    obtain ⟨us, vs, rfl, hus, hvs⟩ := List.map_eq_append_iff.mp hts
    obtain ⟨hfirst, hlater⟩ := Nat.max_le.mp hle
    exact (later_reads hr hxs hvs hlater).statements (hr.readsExpression hx hus hfirst)

include hn hr in
/-- Statements between two brackets, in front of anything. -/
theorem brackets_reads {b : Bracket} {xs : List Expr} {keep : Bool}
    (hxs : ∀ x ∈ xs, x.Everywhere Expr.Expressible) (hkeep : xs = [] → keep = false)
    {ts : List Token} (hts : ts.map Token.shape = blockShapes b keep (xs.map shapes))
    (hle : nestingAll xs ≤ n) (l : Location) (rest : List Token) :
    ∃ e, block nested b (ts ++ rest) = .ok e rest ∧
      e.unlocated = (blockOf b (keep || !xs.tail.isEmpty) xs l).unlocated := by
  obtain ⟨t, us, rfl, ht, hus⟩ := List.map_eq_cons_iff.mp hts
  rw [← List.append_assoc] at hus
  obtain ⟨vs, ws, rfl, hvs, hws⟩ := List.map_eq_append_iff.mp hus
  obtain ⟨c, rfl, hc⟩ := List.map_eq_singleton_iff.mp hws
  have hread := statements_reads (b := b) hr hxs hkeep hvs hle
  exact hread.exists_block hn (kind_of_shape ht) (kind_of_shape hc) l rest

/-- A block that keeps its separator where it has to is read as a block. -/
theorem blockOf_keepsSeparator {b : Bracket} {xs : List Expr} (l : Location) :
    blockOf b (keepsSeparator b xs || !xs.tail.isEmpty) xs l = .block b xs (some l) := by
  refine blockOf_eq_block l ?_
  cases b with
  | brace => exact Or.inl rfl
  | paren =>
    refine Or.inr ?_
    cases xs with
    | nil => exact Or.inr (Or.inl (by simp))
    | cons x xs =>
      cases xs with
      | cons y xs => exact Or.inl (by simp)
      | nil =>
        cases ha : x.isAssignment with
        | false => exact Or.inl (by simp [keepsSeparator, ha])
        | true => exact Or.inr (Or.inr ⟨x, List.mem_singleton_self x, ha⟩)

include hn hr in
theorem block_reads {b : Bracket} {xs : List Expr} {l : Option Location}
    (h : Expr.Everywhere Expr.Expressible (.block b xs l)) {ts : List Token}
    (hts : ts.map Token.shape = shapes (.block b xs l))
    (hle : nesting (.block b xs l) ≤ n + 1) (rest : List Token) :
    ∃ e', block nested b (ts ++ rest) = .ok e' rest ∧
      e'.unlocated = (Expr.block b xs l).unlocated := by
  have hxs := (Expr.everywhere_block.mp h).2
  have hkeep : xs = [] → keepsSeparator b xs = false := by
    rintro rfl
    rfl
  rw [shapes, shapesAll_eq_map] at hts
  obtain ⟨e', hread, hsame⟩ :=
    brackets_reads hn hr hxs hkeep hts (Nat.succ_le_succ_iff.mp hle) ending.location rest
  refine ⟨e', hread, ?_⟩
  rw [hsame, blockOf_keepsSeparator, Expr.unlocated, Expr.unlocated]

include hn hr in
/-- An operand in parentheses is read as the operand. -/
theorem group_reads {e : Expr} (h : e.Everywhere Expr.Expressible) (he : e.isAssignment = false)
    {ts : List Token} (hts : ts.map Token.shape = parens (shapes e)) (hle : nesting e ≤ n)
    (rest : List Token) :
    ∃ e', operand nested (ts ++ rest) = .ok e' rest ∧ e'.unlocated = e.unlocated := by
  have hshapes : parens (shapes e) = blockShapes .paren false ([e].map shapes) := by
    simp [parens, blockShapes, separated, Bracket.opener, Bracket.closer]
  rw [hshapes] at hts
  obtain ⟨e', hread, hsame⟩ :=
    brackets_reads hn hr (by simpa using h) (by simp) hts (by simpa [nestingAll] using hle)
      ending.location rest
  have hopener : kind (ts ++ rest) = .punctuation Bracket.paren.opener := kind_of_shapes hts rest
  have hgroup : blockOf .paren false [e] ending.location = e := by simp [blockOf, he]
  exact ⟨e', by rw [operand_block hopener, hread], hsame.trans (congrArg Expr.unlocated hgroup)⟩

/-! ### Functions -/

variable (nested) in
/-- A function is read as far as its body. -/
theorem exists_function_eq_bind {name : Option String} {ps : List String} {body : List Shape}
    {ts : List Token} (hts : ts.map Token.shape = functionShapes name ps body)
    (rest : List Token) : ∃ ws l, ws.map Token.shape = body ∧ operand nested (ts ++ rest) =
      (functionBody nested >>= fun e => pure (.function name ps e (some l))) (ws ++ rest) := by
  obtain ⟨t, later, rfl, ht, hlater⟩ := List.map_eq_cons_iff.mp hts
  obtain ⟨vs, more, rfl, hvs, hmore⟩ := List.map_eq_append_iff.mp hlater
  obtain ⟨us, ws, rfl, hus, hws⟩ := List.map_eq_append_iff.mp hmore
  have hkeyword : t.kind = .keyword .function := kind_of_shape ht
  obtain ⟨p, qs, rfl, hp, -⟩ := List.map_eq_cons_iff.mp hus
  have hopen : kind (p :: qs ++ (ws ++ rest)) = .punctuation .openParen := kind_of_shape hp
  refine ⟨ws, t.location, hws, ?_⟩
  have hassoc : t :: (vs ++ (p :: qs ++ ws)) ++ rest = t :: (vs ++ p :: qs ++ (ws ++ rest)) := by
    simp
  rw [hassoc, operand_function (by rw [kind_cons, hkeyword])]
  exact function_eq_bind hkeyword (isFunctionName_of_shapes hvs) (areParameters_of_shapes hus)
    (fun _ => by rw [hopen]; decide) (fun hnil => absurd hnil (List.cons_ne_nil p qs))

theorem function_reads {name : Option String} {ps : List String} {body : List Shape}
    {ts : List Token} (hts : ts.map Token.shape = functionShapes name ps body)
    {rest : List Token} {P : Expr → Prop}
    (hbody : ∀ ws, ws.map Token.shape = body →
      ∃ e, functionBody nested (ws ++ rest) = .ok e rest ∧ P e) :
    ∃ e l, operand nested (ts ++ rest) = .ok (.function name ps e (some l)) rest ∧ P e := by
  obtain ⟨ws, l, hws, hread⟩ := exists_function_eq_bind nested hts rest
  obtain ⟨e, he, hP⟩ := hbody ws hws
  refine ⟨e, l, ?_, hP⟩
  rw [hread, bind_of_ok he]
  rfl

include hn hr in
/-- A body in braces ends with them. -/
theorem braceBody_reads {body : Expr} (h : body.Everywhere Expr.Expressible)
    (hbrace : body.isBraceBlock = true) {ts : List Token}
    (hts : ts.map Token.shape = bodyShapes body (shapes body)) (hle : nesting body ≤ n + 1)
    (rest : List Token) :
    ∃ e, functionBody nested (ts ++ rest) = .ok e rest ∧ e.unlocated = body.unlocated := by
  have hbody : bodyShapes body (shapes body) = shapes body := by simp [bodyShapes, hbrace]
  rw [hbody] at hts
  cases body with
  | block b xs l =>
    cases b with
    | paren => cases hbrace
    | brace =>
      have hopener : kind (ts ++ rest) = .punctuation .openBrace := kind_of_shapes hts rest
      rw [functionBody_brace hopener]
      exact block_reads hn hr h hts hle rest
  | _ => cases hbrace

/-- Any other body is an expression, in parentheses if it begins with a brace. -/
theorem exists_isWritten_body {body : Expr} (hbrace : body.isBraceBlock = false) {ss : List Shape}
    (hss : ss = bodyShapes body (shapes body)) :
    ∃ m, bodyNesting body (nesting body) = m + 1 ∧ IsWritten body ss m := by
  subst hss
  unfold bodyNesting bodyShapes
  rw [hbrace]
  cases hhead : (shapes body).head? == some (.punctuation .openBrace) with
  | false => exact ⟨_, rfl, Or.inl ⟨rfl, rfl⟩⟩
  | true =>
    refine ⟨_, rfl, Or.inr ⟨⟨?_, rfl⟩, rfl⟩⟩
    -- A binding begins with its keyword.
    cases body with
    | assignment r name value l => simp [shapes] at hhead
    | _ => rfl

theorem functionBody_of_isWritten {body : Expr} (h : body.Everywhere Expr.Expressible)
    (hbrace : body.isBraceBlock = false) {ts : List Token} {m : Nat}
    (hts : ts.map Token.shape = bodyShapes body (shapes body))
    (hwritten : IsWritten body (ts.map Token.shape) m) (rest : List Token) :
    functionBody nested (ts ++ rest) = nested (ts ++ rest) := by
  have hhead : (ts.map Token.shape).head? ≠ some (.punctuation .openBrace) := by
    rw [hts, bodyShapes, hbrace]
    cases hhead : (shapes body).head? == some (.punctuation .openBrace) with
    | false => exact beq_eq_false_iff_ne.mp hhead
    | true => simp [parens]
  have hopener : kind (ts ++ rest) ≠ .punctuation .openBrace := by
    intro hkind
    cases ts with
    | nil => exact absurd (startsExpression_kind h hwritten []) (by decide)
    | cons t ts =>
      refine hhead ?_
      rw [List.map_cons, List.head?_cons, shape_of_kind_eq_punctuation (t := t) hkind]
  exact functionBody_open hopener (startsExpression_kind h hwritten rest)

include hr in
theorem openBody_reads {body : Expr} (h : body.Everywhere Expr.Expressible)
    (hbrace : body.isBraceBlock = false) {ts rest : List Token}
    (hts : ts.map Token.shape = bodyShapes body (shapes body))
    (hle : bodyNesting body (nesting body) ≤ n + 1) (hrest : Grammar.Stops rest) :
    ∃ e, functionBody nested (ts ++ rest) = .ok e rest ∧ e.unlocated = body.unlocated := by
  obtain ⟨m, hm, hwritten⟩ := exists_isWritten_body hbrace hts
  rw [hm] at hle
  obtain ⟨e, he, hsame⟩ := hr h hwritten (Nat.succ_le_succ_iff.mp hle) hrest
  exact ⟨e, by rw [functionBody_of_isWritten h hbrace hts hwritten rest, he], hsame⟩

/-! ### Operands -/

include hn hr in
/-- An operand in parentheses, or one that needs none. -/
theorem readsOperand_shapes : (e : Expr) → e.Everywhere Expr.Expressible →
    e.isAssignment = false → ∀ ts : List Token,
    ts.map Token.shape = operandShapes e (shapes e) → operandNesting e (nesting e) ≤ n + 1 →
    ReadsOperand nested ts e
  | .literal v l, h, _, ts, hts, _ => by
    obtain ⟨s, hs, hv⟩ := exists_literalShapes (h.self.literal v rfl)
    have hshape : operandShapes (.literal v l) (shapes (.literal v l)) = [s] := hs
    obtain ⟨t, rfl, ht⟩ := List.map_eq_singleton_iff.mp (hts.trans hshape)
    have hvalue : t.shape.literal? = some v := by rw [ht, hv]
    exact .of_operand fun rest => ⟨_, operand_literal hvalue rest, rfl⟩
  | .symbol name l, _, _, ts, hts, _ => by
    obtain ⟨t, rfl, ht⟩ := List.map_eq_singleton_iff.mp hts
    exact .of_operand fun rest => ⟨_, operand_symbol ht rest, rfl⟩
  | .block b xs l, h, _, ts, hts, hle => by
    refine .of_operand fun rest => ?_
    have hopener : kind (ts ++ rest) = .punctuation b.opener := kind_of_shapes hts rest
    rw [operand_block hopener]
    exact block_reads hn hr h hts hle rest
  | .function name ps body l, h, he, ts, hts, hle => by
    refine .of_operand fun rest => ?_
    cases hbrace : body.isBraceBlock with
    | false =>
      rw [operandShapes, isClosed, hbrace, if_neg (by decide)] at hts
      rw [operandNesting, isClosed, hbrace, if_neg (by decide)] at hle
      exact group_reads hn hr h he hts (Nat.succ_le_succ_iff.mp hle) rest
    | true =>
      rw [operandShapes, isClosed, hbrace, if_pos rfl, shapes] at hts
      rw [operandNesting, isClosed, hbrace, if_pos rfl, nesting, bodyNesting, if_pos hbrace] at hle
      have hbody := (Expr.everywhere_function.mp h).2
      obtain ⟨e, l', hread, hsame⟩ := function_reads (P := fun e => e.unlocated = body.unlocated)
        hts fun ws hws => braceBody_reads hn hr hbody hbrace hws hle rest
      exact ⟨_, hread, by rw [Expr.unlocated, hsame, Expr.unlocated]⟩
  | .invocation target l, h, _, ts, hts, hle => by
    have htarget := h.self.operands target (by simp [Expr.operands])
    obtain ⟨us, vs, rfl, hus, hvs⟩ := List.map_eq_append_iff.mp hts
    obtain ⟨t, rfl, ht⟩ := List.map_eq_singleton_iff.mp hvs
    have hread :=
      readsOperand_shapes target (Expr.everywhere_invocation.mp h).2 htarget us hus hle
    exact hread.invocation (kind_of_shape ht) l
  | .assignment _ _ _ _, _, he, _, _, _ => by cases he
  | .call f xs l, h, he, ts, hts, hle =>
    .of_operand fun rest => group_reads hn hr h he hts (Nat.succ_le_succ_iff.mp hle) rest
  | .chain seed ss l, h, he, ts, hts, hle =>
    .of_operand fun rest => group_reads hn hr h he hts (Nat.succ_le_succ_iff.mp hle) rest

/-! ### Operands one after another -/

/-- An expressible tree in the place of an operand. -/
def IsOperand (e : Expr) : Prop := e.Everywhere Expr.Expressible ∧ e.isAssignment = false

theorem isOperand_call {f : Expr} {xs : List Expr} {l : Option Location}
    (h : Expr.Everywhere Expr.Expressible (.call f xs l)) :
    IsOperand f ∧ ∀ x ∈ xs, IsOperand x := by
  obtain ⟨hself, hf, hxs⟩ := Expr.everywhere_call.mp h
  have hoperand : ∀ x ∈ f :: xs, x.isAssignment = false := hself.operands
  obtain ⟨hcallee, harguments⟩ := List.forall_mem_cons.mp hoperand
  exact ⟨⟨hf, hcallee⟩, fun x hx => ⟨hxs x hx, harguments x hx⟩⟩

theorem isOperand_chain {seed : Expr} {ss : List Step} {l : Option Location}
    (h : Expr.Everywhere Expr.Expressible (.chain seed ss l)) :
    IsOperand seed ∧ ∀ s ∈ ss, IsOperand s.operator ∧ ∀ x ∈ s.extra, IsOperand x := by
  obtain ⟨hself, hseed, hsteps⟩ := Expr.everywhere_chain.mp h
  obtain ⟨hnone, hparts⟩ := Expr.forall_mem_operands_chain.mp hself.operands
  refine ⟨⟨hseed, hnone⟩, fun s hs => ⟨⟨(hsteps s hs).1, (hparts s hs).1⟩, fun x hx => ?_⟩⟩
  exact ⟨(hsteps s hs).2 x hx, (hparts s hs).2 x hx⟩

include hn hr in
theorem readsOperands_shapes {xs : List Expr} (hxs : ∀ x ∈ xs, IsOperand x) {ts : List Token}
    (hts : ts.map Token.shape = (operandShapesAll xs).flatten)
    (hle : operandNestingAll xs ≤ n + 1) :
    ReadsOperands nested ts xs := by
  induction xs generalizing ts with
  | nil =>
    obtain rfl := List.map_eq_nil_iff.mp hts
    exact .nil
  | cons x xs ih =>
    obtain ⟨hx, hxs⟩ := List.forall_mem_cons.mp hxs
    rw [operandShapesAll, List.flatten_cons] at hts
    obtain ⟨us, vs, rfl, hus, hvs⟩ := List.map_eq_append_iff.mp hts
    obtain ⟨hfirst, hlater⟩ := Nat.max_le.mp hle
    exact .cons (readsOperand_shapes hn hr x hx.1 hx.2 us hus hfirst) (ih hxs hvs hlater)

include hn hr in
theorem readsSteps_shapes {ss : List Step}
    (hss : ∀ s ∈ ss, IsOperand s.operator ∧ ∀ x ∈ s.extra, IsOperand x) {ts : List Token}
    (hts : ts.map Token.shape = (stepShapes ss).flatten) (hle : stepNesting ss ≤ n + 1) :
    ReadsSteps nested ts ss := by
  induction ss generalizing ts with
  | nil =>
    obtain rfl := List.map_eq_nil_iff.mp hts
    exact .nil
  | cons s ss ih =>
    obtain ⟨p, xs⟩ := s
    obtain ⟨⟨hp, hxs⟩, hss⟩ := List.forall_mem_cons.mp hss
    change IsOperand p at hp
    rw [stepShapes, List.flatten_cons, List.flatten_append, List.cons_append] at hts
    obtain ⟨t, later, rfl, ht, hlater⟩ := List.map_eq_cons_iff.mp hts
    obtain ⟨us, more, rfl, hus, hmore⟩ := List.map_eq_append_iff.mp hlater
    obtain ⟨vs, ws, rfl, hvs, hws⟩ := List.map_eq_append_iff.mp hmore
    obtain ⟨hstep, hlater⟩ := Nat.max_le.mp hle
    obtain ⟨hfirst, hrest⟩ := Nat.max_le.mp hstep
    have hoperator := readsOperand_shapes hn hr p hp.1 hp.2 us hus hfirst
    have hextra := readsOperands_shapes hn hr hxs hvs hrest
    have hread := ReadsSteps.cons (kind_of_shape ht) hoperator hextra (ih hss hws hlater)
    rwa [List.cons_append, List.append_assoc] at hread

include hn hr in
/-- The seed of a chain and its steps. -/
theorem chain_reads {seed : Expr} {ss : List Step} {l : Option Location}
    (h : Expr.Everywhere Expr.Expressible (.chain seed ss l)) {ts : List Token}
    (hts : ts.map Token.shape = shapes (.chain seed ss l))
    (hle : nesting (.chain seed ss l) ≤ n + 1) :
    ∃ us vs, ts = us ++ vs ∧ ReadsOperand nested us seed ∧ ReadsSteps nested vs ss ∧
      (chainOf seed ss).unlocated = (Expr.chain seed ss l).unlocated := by
  have hflat := h.self.flat
  obtain ⟨hseed, hss⟩ := isOperand_chain h
  obtain ⟨us, vs, rfl, hus, hvs⟩ := List.map_eq_append_iff.mp hts
  obtain ⟨hfirst, hlater⟩ := Nat.max_le.mp hle
  refine ⟨us, vs, rfl, readsOperand_shapes hn hr seed hseed.1 hseed.2 us hus hfirst,
    readsSteps_shapes hn hr hss hvs hlater, ?_⟩
  rw [chainOf_eq_chain hflat.1 hflat.2, Expr.unlocated, Expr.unlocated]

include hn hr in
/-- The last argument of a call: an operand, or a chain, which needs no parentheses there. -/
theorem lastArgument_reads {x : Expr} (hx : IsOperand x) {ts : List Token}
    (hts : ts.map Token.shape = lastArgumentShapes x (shapes x))
    (hle : lastArgumentNesting x (nesting x) ≤ n + 1) :
    ∃ us vs seed ss, ts = us ++ vs ∧ ReadsOperand nested us seed ∧ ReadsSteps nested vs ss ∧
      (chainOf seed ss).unlocated = x.unlocated := by
  have hoperand : ts.map Token.shape = operandShapes x (shapes x) →
      operandNesting x (nesting x) ≤ n + 1 →
      ∃ us vs seed ss, ts = us ++ vs ∧ ReadsOperand nested us seed ∧ ReadsSteps nested vs ss ∧
        (chainOf seed ss).unlocated = x.unlocated := by
    intro hts hle
    have hread := readsOperand_shapes hn hr x hx.1 hx.2 ts hts hle
    exact ⟨ts, [], x, [], (List.append_nil ts).symm, hread, .nil, rfl⟩
  cases x with
  | chain seed ss l =>
    obtain ⟨us, vs, hsplit, hseed, hss, hsame⟩ := chain_reads hn hr hx.1 hts hle
    exact ⟨us, vs, seed, ss, hsplit, hseed, hss, hsame⟩
  | _ => exact hoperand hts hle

theorem argumentShapes_concat (xs : List Expr) (x : Expr) :
    argumentShapes (xs ++ [x]) = operandShapesAll xs ++ [lastArgumentShapes x (shapes x)] := by
  induction xs with
  | nil => rfl
  | cons y ys ih => simp [argumentShapes, operandShapesAll, ih]

include hn hr in
theorem call_reads {f : Expr} {xs : List Expr} {l : Option Location}
    (h : Expr.Everywhere Expr.Expressible (.call f xs l)) {ts rest : List Token}
    (hts : ts.map Token.shape = shapes (.call f xs l)) (hle : nesting (.call f xs l) ≤ n + 1)
    (hrest : Grammar.Stops rest) :
    ∃ e', application nested (ts ++ rest) = .ok e' rest ∧
      e'.unlocated = (Expr.call f xs l).unlocated := by
  have hne : xs ≠ [] := h.self.arguments
  obtain ⟨hf, hxs⟩ := isOperand_call h
  -- Only the last argument may go on with steps.
  obtain ⟨ys, y, rfl⟩ : ∃ ys y, xs = ys ++ [y] :=
    ⟨_, _, (List.dropLast_append_getLast hne).symm⟩
  obtain ⟨hys, hy⟩ := List.forall_mem_append.mp hxs
  rw [shapes, argumentShapes_concat, List.flatten_append, List.flatten_singleton] at hts
  rw [nesting, argumentNesting_concat, Nat.max_le, Nat.max_le] at hle
  obtain ⟨hfirst, hleading, hlast⟩ := hle
  obtain ⟨us, more, rfl, hus, hmore⟩ := List.map_eq_append_iff.mp hts
  obtain ⟨vs, later, rfl, hvs, hlater⟩ := List.map_eq_append_iff.mp hmore
  have hread := readsOperand_shapes hn hr f hf.1 hf.2 us hus hfirst
  have hinit := readsOperands_shapes hn hr hys hvs hleading
  obtain ⟨ws, zs, seed, ss, rfl, hseed, hss, hsame⟩ :=
    lastArgument_reads hn hr (hy y (List.mem_singleton_self y)) hlater hlast
  obtain ⟨e', he', hsame'⟩ :=
    exists_application_of_operands hn (.cons hread hinit) hseed hss hrest rfl
  refine ⟨e', by simpa using he', ?_⟩
  rw [hsame', List.append_eq, callOf_eq_call f (by simp), Expr.unlocated, Expr.unlocated,
    Expr.unlocatedAll_eq_map, Expr.unlocatedAll_eq_map, List.map_append, List.map_append,
    List.map_singleton, List.map_singleton, hsame]

/-! ### Expressions -/

include hn hr in
/-- A tree that is no binding, by itself or in parentheses. -/
theorem application_reads {e : Expr} (he : IsOperand e) {ts rest : List Token} {m : Nat}
    (hts : IsWritten e (ts.map Token.shape) m) (hle : m ≤ n + 1)
    (hrest : Grammar.Stops rest) :
    ∃ e', application nested (ts ++ rest) = .ok e' rest ∧ e'.unlocated = e.unlocated := by
  -- What is written as an operand is read as one.
  have hoperand : ts.map Token.shape = operandShapes e (shapes e) →
      operandNesting e (nesting e) ≤ n + 1 →
      ∃ e', application nested (ts ++ rest) = .ok e' rest ∧ e'.unlocated = e.unlocated := by
    intro hts hle
    have hread := readsOperand_shapes hn hr e he.1 he.2 ts hts hle
    obtain ⟨e', he', hsame⟩ := hread.exists_invoked hrest.bang
    exact ⟨e', application_of_invoked hn he' hrest, hsame⟩
  rcases hts with ⟨hts, rfl⟩ | ⟨⟨-, hts⟩, rfl⟩
  · cases e with
    | literal | symbol | block | invocation => exact hoperand hts hle
    | assignment => cases he.2
    | call f xs l => exact call_reads hn hr he.1 hts hle hrest
    | chain seed ss l =>
      obtain ⟨us, vs, rfl, hseed, hss, hsame⟩ := chain_reads hn hr he.1 hts hle
      obtain ⟨e', he', hsame'⟩ := hseed.exists_chained hn hss hrest
      rw [← List.append_assoc] at he'
      exact ⟨e', application_of_chained hn he' hrest.operand, hsame'.trans hsame⟩
    | function name ps body l =>
      cases hbrace : body.isBraceBlock with
      | true =>
        refine hoperand ?_ ?_
        · rw [hts, operandShapes, isClosed, hbrace, if_pos rfl]
        · rwa [operandNesting, isClosed, hbrace, if_pos rfl]
      | false =>
        have hbody := (Expr.everywhere_function.mp he.1).2
        obtain ⟨e, l', hread, hsame⟩ :=
          function_reads (P := fun e => e.unlocated = body.unlocated) hts
            fun ws hws => openBody_reads hr hbody hbrace hws hle hrest
        refine ⟨.function name ps e (some l'), application_of_operand hn hread hrest, ?_⟩
        rw [Expr.unlocated, hsame, Expr.unlocated]
  · obtain ⟨e', he', hsame⟩ :=
      group_reads hn hr he.1 he.2 hts (Nat.succ_le_succ_iff.mp hle) rest
    exact ⟨e', application_of_operand hn he' hrest, hsame⟩

include hr in
theorem binding_reads {r : Bool} {name : String} {value : Expr} {l : Option Location}
    (h : Expr.Everywhere Expr.Expressible (.assignment r name value l)) {ts : List Token}
    (hts : ts.map Token.shape = shapes (.assignment r name value l))
    (hle : nesting (.assignment r name value l) ≤ n + 1) :
    ReadsExpression (expressionOver nested) ts (.assignment r name value l) := by
  have hvalue := (Expr.everywhere_assignment.mp h).2
  obtain ⟨t, us, rfl, ht, hus⟩ := List.map_eq_cons_iff.mp hts
  obtain ⟨u, vs, rfl, hu, hvs⟩ := List.map_eq_cons_iff.mp hus
  have hbinding : bindingKeyword r ≠ .function := by cases r <;> decide
  have hread := (hr.readsExpression hvalue hvs (Nat.succ_le_succ_iff.mp hle)).binding
    (kind_of_shape ht) hbinding hu l
  have hrecursive : (bindingKeyword r == .recursiveBinding) = r := by cases r <;> rfl
  rwa [hrecursive] at hread

include hn hr in
/-- **One more level** of the text is allowed for one more level of nesting. -/
theorem readsTrees_expressionOver : ReadsTrees (n + 1) (expressionOver nested) := by
  intro e ts m rest h hts hle hrest
  cases he : e.isAssignment with
  | false =>
    have hstart : Kind.startsOperand (kind (ts ++ rest)) = true := by
      rcases hts with ⟨hts, -⟩ | ⟨⟨-, hts⟩, -⟩
      · exact startsOperand_kind hts (startsOperand_shapes e h he) rest
      · exact startsOperand_kind hts (startsOperand_parens _) rest
    rw [expressionOver_of_startsOperand hstart]
    exact application_reads hn hr ⟨h, he⟩ hts hle hrest
  | true =>
    rcases hts with ⟨hts, rfl⟩ | ⟨⟨hoperand, -⟩, -⟩
    · cases e with
      | assignment r name value l => exact (binding_reads hr h hts hle hrest).2
      | _ => cases he
    · rw [he] at hoperand
      cases hoperand

end Nested

/-- **Trees are read back** by every reader that allows as many levels as their texts have. -/
theorem readsTrees_expression (depth : Nat) : ReadsTrees depth (expression depth) := by
  induction depth with
  | zero =>
    intro e ts m rest _ hts hle _
    have hpos := nesting_pos e
    rcases hts with ⟨-, rfl⟩ | ⟨-, rfl⟩ <;> omega
  | succ depth ih => exact readsTrees_expressionOver (expression_takes depth) ih

end Layout

end Juxta
