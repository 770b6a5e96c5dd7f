/-
  Juxta/Proofs/Layout/RoundTrip.lean
  ==================================
  **What is written is read back** — the text of every expressible tree is read as that tree,
  up to locations, under all settings of the layout (`exists_written_readsBack`).

  Not every tree that is written is expressible.  `blemish?` refuses bindings in the place of
  operands and most literals without a source form, but it lets three kinds of node pass whose
  text means something else: a chain on a chain, a chain without steps, and a negative zero.
  `refuses_or_readsBack_iff` says that these are all.

  Both statements are about every depth: `Layout.written` is `Layout.render` without its limit,
  and `Program.ReadsBack` asks for reading with any limit that is high enough.

  An operand is read back by itself as well, in front of anything but the mark of a call
  (`invoked_operandText`).
-/
import Juxta.Proofs.Grammar.Fragment
import Juxta.Proofs.Grammar.NormalForm
import Juxta.Proofs.Layout.Blame
import Juxta.Proofs.Layout.Reading

namespace Juxta

/-! ### Nodes that are refused -/

/-- A literal that is not refused: a number that is finite and not below zero, or a text without
    one of the quote marks. -/
def Literal.Writable : Literal → Prop
  | .integer n => 0 ≤ n
  | .decimal x => x.isFinite = true ∧ x.isNegative = false
  | .text s => ¬ ('"' ∈ s.toList ∧ '\'' ∈ s.toList)
  | .truth _ => False

instance : DecidablePred Literal.Writable
  | .integer n => inferInstanceAs (Decidable (0 ≤ n))
  | .decimal _ => inferInstanceAs (Decidable (_ ∧ _))
  | .text _ => inferInstanceAs (Decidable ¬ (_ ∧ _))
  | .truth _ => inferInstanceAs (Decidable False)

theorem Literal.problem?_eq_none_iff {v : Literal} : v.problem? = none ↔ v.Writable := by
  cases v with
  | integer n => simp [problem?, Writable]
  | decimal x => simp [problem?, Writable]
  | text s => simp [problem?, Writable, String.contains_char_eq]
  | truth b => simp [problem?, Writable]

namespace Expr

/-- A node that does not stand in the way of writing the tree. -/
structure Unblemished (n : Expr) : Prop where
  literal : ∀ v ∈ n.literal?, v.Writable
  /-- No binding is callee, argument, seed, operator, extra argument or target. -/
  operands : ∀ x ∈ n.operands, x.isAssignment = false

theorem unblemished_iff {n : Expr} : n.Unblemished ↔
    (∀ v ∈ n.literal?, v.Writable) ∧ ∀ x ∈ n.operands, x.isAssignment = false :=
  ⟨fun h => ⟨h.literal, h.operands⟩, fun h => ⟨h.1, h.2⟩⟩

instance : DecidablePred Unblemished := fun _ => decidable_of_iff' _ unblemished_iff

theorem operandBlemish?_of_isAssignment {e : Expr} (he : e.isAssignment = false)
    (inside : Option FormatError) : e.operandBlemish? inside = inside := by
  cases e with
  | assignment => cases he
  | _ => rfl

/-- A tree is refused when one of its nodes stands in the way. -/
theorem blemish?_eq_none_iff (e : Expr) : e.blemish? = none ↔ e.Everywhere Unblemished := by
  have hoperands : (∀ p ∈ e.places, p.operand = true → p.node.isAssignment = false) ↔
      ∀ n ∈ e.nodes, ∀ x ∈ n.operands, x.isAssignment = false := by
    constructor
    · intro h n hn x hx
      exact h _ (mem_places_operand.mpr ⟨n, hn, hx⟩) rfl
    · rintro h ⟨x, operand⟩ hp rfl
      obtain ⟨n, hn, hx⟩ := mem_places_operand.mp hp
      exact h n hn x hx
  have hliterals : (∀ p ∈ e.places, ∀ v ∈ p.node.literal?, v.Writable) ↔
      ∀ n ∈ e.nodes, ∀ v ∈ n.literal?, v.Writable := by
    rw [← e.map_node_places, List.forall_mem_map]
  calc e.blemish? = none
      ↔ ∀ p ∈ e.places, ¬ p.IsBad := blemish?_eq_none_iff_places
    _ ↔ ∀ p ∈ e.places, (∀ v ∈ p.node.literal?, v.Writable) ∧
          (p.operand = true → p.node.isAssignment = false) := by
      simp only [Place.isBad_iff, not_or, not_exists, not_and, Classical.not_not,
        Literal.problem?_eq_none_iff, Bool.not_eq_true]
    _ ↔ ∀ n ∈ e.nodes, (∀ v ∈ n.literal?, v.Writable) ∧
          ∀ x ∈ n.operands, x.isAssignment = false := by
      rw [forall₂_and, forall₂_and, hliterals, hoperands]
    _ ↔ e.Everywhere Unblemished := by
      simp only [Everywhere, unblemished_iff]

end Expr

theorem Literal.Expressible.writable {v : Literal} (h : v.Expressible) : v.Writable := by
  cases v with
  | integer n => exact h.1
  | decimal x =>
    obtain ⟨m, rfl⟩ := h.exists_magnitude
    exact ⟨rfl, rfl⟩
  | text s => exact h
  | truth b => exact h

theorem Expr.Expressible.unblemished {n : Expr} (h : n.Expressible) : n.Unblemished where
  literal := fun v hv => (h.literal v hv).writable
  operands := h.operands

theorem Literal.Expressible.isPlain {v : Literal} (h : v.Expressible) : v.IsPlain := by
  cases v with
  | decimal x =>
    obtain ⟨m, rfl⟩ := h.exists_magnitude
    rfl
  | integer n | text s | truth b => trivial

theorem Expr.hasPlainLiteral_unlocated (n : Expr) :
    n.unlocated.HasPlainLiteral ↔ n.HasPlainLiteral := by
  rw [HasPlainLiteral, HasPlainLiteral, n.literal?_unlocated]

/-- A tree that is an expressible one up to locations is the same as it. -/
theorem Expr.same_of_unlocated_eq {e e' : Expr} (h : e.Everywhere Expr.Expressible)
    (hsame : e'.unlocated = e.unlocated) : e'.same e = true := by
  have hplain : e.Everywhere HasPlainLiteral := h.imp fun n hn v hv => (hn.literal v hv).isPlain
  have hplain' : e'.Everywhere HasPlainLiteral :=
    .of_unlocated_eq hasPlainLiteral_unlocated hsame.symm hplain
  exact (same_iff e' e hplain' hplain).mpr hsame

/-! ### Texts of every depth -/

/-- The text of a tree, however deep it is, or the node that is in its way. -/
def Layout.written (c : Layout) (e : Expr) : Except FormatError String :=
  match e.blemish? with
  | some error => .error error
  | none => .ok (String.ofList (c.programText e))

theorem Layout.render_eq_written (c : Layout) {e : Expr} {limit : Nat} (h : e.depth ≤ limit) :
    c.render e limit = c.written e := if_neg (Nat.not_lt.mpr h)

/-- The text is read as the tree, up to locations, by all readers that allow enough expressions
    nested in each other. -/
def Program.ReadsBack (text : String) (e : Expr) : Prop :=
  ∃ limit, ∀ depth ≥ limit, ∀ filename, ∃ e',
    parseTo depth text filename = .ok e' ∧ e'.unlocated = e.unlocated

namespace Layout

open Grammar TokenList

/-- As many levels of nesting are enough as there are in the text. -/
theorem readsFrom_programText (c : Layout) {e : Expr} (h : e.Everywhere Expr.Expressible) :
    Program.ReadsFrom (nesting e) (String.ofList (c.programText e)) e := by
  have hspells := c.spells_programText (h.imp fun n hn => hn.legible)
  have hreads : Fragment (c.programText e) (ReadsExpression (expression (nesting e)) · e) := by
    refine ⟨shapes e, writes_of_spells hspells, fun ts hts => ?_⟩
    exact (readsTrees_expression _).readsExpression h hts (Nat.le_refl _)
  exact Program.readsFrom_of_fragment (by rwa [String.toList_ofList])

theorem readsBack_programText (c : Layout) {e : Expr} (h : e.Everywhere Expr.Expressible) :
    Program.ReadsBack (String.ofList (c.programText e)) e :=
  ⟨_, c.readsFrom_programText h⟩

theorem written_of_unblemished (c : Layout) {e : Expr} (h : e.Everywhere Expr.Unblemished) :
    c.written e = .ok (String.ofList (c.programText e)) := by
  rw [written, e.blemish?_eq_none_iff.mpr h]

/-- **Every expressible tree is written, and read back from its text.** -/
theorem exists_written_readsBack (c : Layout) {e : Expr} (h : ∀ n ∈ e.nodes, n.Expressible) :
    ∃ text, c.written e = .ok text ∧ Program.ReadsBack text e := by
  refine ⟨_, c.written_of_unblemished fun n hn => (h n hn).unblemished, ?_⟩
  exact c.readsBack_programText h

/-- A call whose parts go on over what comes after them: a function without braces, whose body
    begins with a block in braces, a chain on a call, a block marked by `!`, and a chain. -/
def openCall : Expr :=
  .call
    (.function none ["x"]
      (.call (.block .brace [.symbol "x" none] none) [.symbol "y" none] none) none)
    [.chain (.call (.symbol "f" none) [.literal (.text "it's") none] none)
      [.mk (.symbol "+" none) [.literal (.integer 1) none]] none,
    .invocation (.block .paren [.symbol "z" none] none) none,
    .chain (.symbol "a" none) [.mk (.symbol "-" none) []] none] none

theorem exists_written_readsBack_openCall :
    ∃ text, ({ indentSize := -1, maxLineLength := 0 } : Layout).written openCall = .ok text ∧
      Program.ReadsBack text openCall :=
  exists_written_readsBack { indentSize := -1, maxLineLength := 0 } (by decide +kernel)

/-! ### Operands in front of anything -/

/-- The text of an operand is scanned to its end, which gives the tokens of the operand. -/
theorem exists_operandTokens (c : Layout) (d : Nat) {e : Expr}
    (h : e.Everywhere Expr.Expressible) (filename : Option String) :
    ∃ ts last k,
      Scanner.all (.start (operandText e (c.text d e)) filename) = .ok (ts ++ [last]) k ∧
      last.isEnd = true ∧ ts.map Token.shape = operandShapes e (shapes e) := by
  have hwrites : Writes (operandText e (c.text d e)) (operandShapes e (shapes e)) :=
    writes_operandText e (writes_text e d (h.imp fun n hn => hn.legible))
  obtain ⟨ts, last, hscans, hlast, hts⟩ := hwrites.spells.exists_tokens filename
  obtain ⟨k, hall⟩ := Scanner.all_of_scans hscans
  exact ⟨ts, last, k, hall, hlast, hts⟩

/-- **An operand ends where its text ends**: its tokens are read as its tree and nothing behind
    them is taken, whatever it is, unless it is the mark of a call.  This is so at every depth of
    blocks, and also for the operands that stand without parentheses. -/
theorem invoked_operandText (c : Layout) (d : Nat) {e : Expr} (h : ∀ n ∈ e.nodes, n.Expressible)
    (he : e.isAssignment = false) :
    e.operandBlemish? e.blemish? = none ∧
    (isClosed e = true → operandText e (c.text d e) = c.text d e) ∧
    ∀ filename, ∃ ts last k,
      Scanner.all (.start (operandText e (c.text d e)) filename) = .ok (ts ++ [last]) k ∧
      last.isEnd = true ∧
      ∀ depth, operandNesting e (nesting e) ≤ depth + 1 →
        ∀ rest, kind rest ≠ .punctuation .bang →
          ∃ e', invoked (expression depth) (ts ++ rest) = .ok e' rest ∧ e'.same e = true := by
  refine ⟨?_, fun hclosed => if_pos hclosed, fun filename => ?_⟩
  · rw [e.operandBlemish?_of_isAssignment he]
    exact e.blemish?_eq_none_iff.mpr fun n hn => (h n hn).unblemished
  · obtain ⟨ts, last, k, hall, hlast, hts⟩ := c.exists_operandTokens d h filename
    refine ⟨ts, last, k, hall, hlast, fun depth hdepth rest hrest => ?_⟩
    have hoperand : ReadsOperand (expression depth) ts e :=
      readsOperand_shapes (expression_takes depth) (readsTrees_expression depth) e h he ts hts
        hdepth
    obtain ⟨e', he', hsame⟩ := hoperand.exists_invoked hrest
    exact ⟨e', he', Expr.same_of_unlocated_eq h hsame⟩

/-- A function without braces whose body begins with a block in braces, in front of an operand. -/
theorem invoked_operandText_openFunction :
    ∃ ts last k, Scanner.all (.start "(fn (x) ({ x } y))".toList none) = .ok (ts ++ [last]) k ∧
      ∃ e', invoked (expression 4) (ts ++ [⟨.symbol "z", { line := 1, column := 20 }⟩]) =
          .ok e' [⟨.symbol "z", { line := 1, column := 20 }⟩] ∧
        e'.same (.function none ["x"]
          (.call (.block .brace [.symbol "x" none] none) [.symbol "y" none] none) none) = true := by
  obtain ⟨-, -, hread⟩ := invoked_operandText {} 0
    (e := .function none ["x"]
      (.call (.block .brace [.symbol "x" none] none) [.symbol "y" none] none) none)
    (by decide +kernel) rfl
  obtain ⟨ts, last, k, hall, -, hinvoked⟩ := hread none
  exact ⟨ts, last, k, hall, hinvoked 4 (by decide) _ (by decide)⟩

end Layout

/-! ### Trees that are misread -/

/-- A whole number is not too long for a token. -/
def Literal.HasFewDigits : Literal → Prop
  | .integer n => (Nat.toDigits 10 n.natAbs).length ≤ Scan.digitLimit
  | _ => True

instance : DecidablePred Literal.HasFewDigits
  | .integer n => inferInstanceAs (Decidable ((Nat.toDigits 10 n.natAbs).length ≤ Scan.digitLimit))
  | .decimal _ | .text _ | .truth _ => isTrue trivial

/-- A node as it can be built by hand, of whatever form and with whatever literal; a call cannot
    be built without arguments. -/
structure Expr.Buildable (n : Expr) : Prop where
  /-- Every name is read, as a whole, as one symbol. -/
  names : ∀ name ∈ n.names, Scan.ofText name.toList = .token (.symbol name)
  literal : ∀ v ∈ n.literal?, v.HasFewDigits
  arguments : n.HasArguments

/-- The number `-0.0`. -/
def Binary64.negativeZero : Binary64 := .finite true .zero

/-- A node that its text stands for: no chain on a chain, no chain without steps, and no
    negative zero. -/
structure Expr.Faithful (n : Expr) : Prop where
  flat : n.IsFlat
  literal : n.literal? ≠ some (.decimal .negativeZero)

theorem Magnitude.eq_zero {m : Magnitude} (h : m.significand = 0) : m = .zero := by
  obtain ⟨significand, scale, hcanonical⟩ := m
  obtain rfl : significand = 0 := h
  rcases hcanonical.2.2 with hlarge | rfl
  · exact absurd hlarge (by decide)
  · rfl

/-- Of the literals that are not refused only a negative zero has no text of its own. -/
theorem Literal.Writable.expressible {v : Literal} (h : v.Writable) (hdigits : v.HasFewDigits)
    (hzero : v ≠ .decimal .negativeZero) : v.Expressible := by
  cases v with
  | integer n => exact ⟨h, hdigits⟩
  | text s => exact h
  | truth b => exact h
  | decimal x =>
    obtain ⟨hfinite, hsign⟩ := h
    cases x with
    | nan | infinity b => cases hfinite
    | finite negative m =>
      cases negative with
      | false => rfl
      | true =>
        have hm : m.significand = 0 := by simpa [Binary64.isNegative] using hsign
        rw [Magnitude.eq_zero hm] at hzero
        exact absurd rfl hzero

theorem Expr.expressible_of_faithful {n : Expr} (h : n.Buildable) (hunblemished : n.Unblemished)
    (hfaithful : n.Faithful) : n.Expressible where
  names := h.names
  literal := by
    intro v hv
    refine (hunblemished.literal v hv).expressible (h.literal v hv) ?_
    rintro rfl
    exact hfaithful.literal hv
  operands := hunblemished.operands
  arguments := h.arguments
  flat := hfaithful.flat

theorem Expr.Normal.faithful {n : Expr} (h : n.Normal) : n.Faithful where
  flat := h.flat
  literal := fun hzero => Bool.noConfusion (h.literal _ hzero)

theorem Expr.faithful_unlocated (n : Expr) : n.unlocated.Faithful ↔ n.Faithful := by
  have hliteral := n.literal?_unlocated
  constructor
  · intro h
    refine ⟨n.isFlat_unlocated.mp h.flat, ?_⟩
    rw [← hliteral]
    exact h.literal
  · intro h
    refine ⟨n.isFlat_unlocated.mpr h.flat, ?_⟩
    rw [hliteral]
    exact h.literal

/-- Nothing but faithful trees is ever read, from whatever text. -/
theorem Program.faithful_of_parseTo {depth : Nat} {text : String} {filename : Option String}
    {e e' : Expr} (h : parseTo depth text filename = .ok e')
    (hsame : e'.unlocated = e.unlocated) : e.Everywhere Expr.Faithful := by
  obtain ⟨ts, hbuilds, hlexemes⟩ := builds_of_parseTo h
  have hnormal : e'.Everywhere Expr.Normal := hbuilds.good hlexemes
  exact .of_unlocated_eq Expr.faithful_unlocated hsame (hnormal.imp fun n hn => hn.faithful)

namespace Layout

/-- **A tree is refused or read back exactly when** one of its nodes is in the way, or all of them
    are faithful. -/
theorem refuses_or_readsBack_iff (c : Layout) {e : Expr} (h : ∀ n ∈ e.nodes, n.Buildable) :
    ((∃ error, c.written e = .error error) ∨
        ∃ text, c.written e = .ok text ∧ Program.ReadsBack text e) ↔
      ((∀ n ∈ e.nodes, n.Unblemished) → ∀ n ∈ e.nodes, n.Faithful) := by
  by_cases hunblemished : e.Everywhere Expr.Unblemished
  · have hwritten := c.written_of_unblemished hunblemished
    constructor
    · rintro (⟨error, herror⟩ | ⟨text, -, limit, hread⟩) -
      · rw [hwritten] at herror
        cases herror
      · obtain ⟨e', he', hsame⟩ := hread limit (Nat.le_refl limit) none
        exact Program.faithful_of_parseTo he' hsame
    · intro hfaithful
      refine Or.inr ⟨_, hwritten, c.readsBack_programText fun n hn => ?_⟩
      exact Expr.expressible_of_faithful (h n hn) (hunblemished n hn) (hfaithful hunblemished n hn)
  · have hblemish : e.blemish? ≠ none := by
      intro hnone
      exact hunblemished (e.blemish?_eq_none_iff.mp hnone)
    obtain ⟨error, herror⟩ := Option.ne_none_iff_exists'.mp hblemish
    refine iff_of_true (Or.inl ⟨error, ?_⟩) fun hall => absurd hall hunblemished
    rw [written, herror]

/-- A negative zero is neither refused nor read back. -/
theorem not_refuses_or_readsBack_negativeZero :
    ¬ ((∃ error, ({} : Layout).written (.literal (.decimal .negativeZero) none) = .error error) ∨
      ∃ text, ({} : Layout).written (.literal (.decimal .negativeZero) none) = .ok text ∧
        Program.ReadsBack text (.literal (.decimal .negativeZero) none)) := by
  have hbuildable : Expr.Everywhere Expr.Buildable (.literal (.decimal .negativeZero) none) :=
    Expr.everywhere_literal.mpr ⟨nofun, by rintro v ⟨⟩; trivial, trivial⟩
  have hunblemished : Expr.Everywhere Expr.Unblemished (.literal (.decimal .negativeZero) none) :=
    Expr.everywhere_literal.mpr ⟨by rintro v ⟨⟩; exact ⟨rfl, rfl⟩, nofun⟩
  intro hclaim
  have hfaithful := (refuses_or_readsBack_iff {} hbuildable).mp hclaim hunblemished
  exact (Expr.Everywhere.self hfaithful).literal rfl

end Layout

end Juxta
