/-
  Juxta/Proofs/Grammar/Enclosure.lean
  ===================================
  **Texts in brackets, bindings and functions** — the tree of a text that is put together from
  texts with trees of their own: statements in brackets, the value of a binding, the body of a
  function.  Whatever the statements end with, a `;` and a closing bracket end it as the end of
  the text does.

  `Program.readsFrom_enclosed` has all of these side by side.  A level of nesting is needed for
  each bracket and each binding around a text, and no more.
-/
import Juxta.Proofs.Grammar.Fragment
import Juxta.Proofs.Layout.Reading

namespace Juxta

open Grammar TokenList

variable {depth : Nat} {b : Bracket} {sources : List String} {trees : List Expr}

/-! ### Statements in brackets -/

/-- The statements behind the first one. -/
theorem fragment_later (h : List.Forall₂ (Program.HasTree depth) sources trees) (trailing : Bool) :
    Fragment (sources.flatMap (fun s => ';' :: s.toList) ++ if trailing then [';'] else [])
        (ReadsLater (expression depth) b · (trailing || !trees.isEmpty) trees) ∧
      Text.AtBoundary
        (sources.flatMap (fun s => ';' :: s.toList) ++ if trailing then [';'] else []) := by
  induction h with
  | nil =>
    cases trailing with
    | false => exact ⟨.nil readsLater_nil, Text.atBoundary_nil⟩
    | true =>
      have hnothing : Fragment [] (· = []) := .nil rfl
      refine ⟨hnothing.mark .semicolon ?_, Text.atBoundary_mark .semicolon []⟩
      rintro t _ ht rfl
      exact readsLater_trailing ht
  | @cons source tree sources trees hsource _ ih =>
    obtain ⟨hlater, hboundary⟩ := ih
    rw [List.flatMap_cons, List.cons_append, List.cons_append, List.append_assoc]
    refine ⟨?_, Text.atBoundary_mark .semicolon _⟩
    have hparts := hsource.fragment.append hlater hboundary
      (R := fun ts => ∃ us vs, ts = us ++ vs ∧ ReadsExpression (expression depth) us tree ∧
        ReadsLater (expression depth) b vs (trailing || !trees.isEmpty) trees)
      fun us vs hus hvs => ⟨us, vs, rfl, hus, hvs⟩
    refine hparts.mark .semicolon ?_
    rintro t _ ht ⟨us, vs, rfl, hus, hvs⟩
    rw [List.isEmpty_cons, Bool.not_false, Bool.or_true]
    exact hvs.cons ht hus

/-- Texts with a `;` between each and the next, and one more at the end if it is asked for. -/
def Program.statementsText (sources : List String) (trailing : Bool) : String :=
  ";".intercalate sources ++ if trailing then ";" else ""

theorem fragment_statements (h : List.Forall₂ (Program.HasTree depth) sources trees)
    {trailing : Bool} (htrailing : trailing = true → sources ≠ []) :
    Fragment (Program.statementsText sources trailing).toList
      (ReadsStatements (expression depth) b · (trailing || !trees.tail.isEmpty) trees) := by
  have htext : (Program.statementsText sources trailing).toList =
      [';'].intercalate (sources.map String.toList) ++ if trailing then [';'] else [] := by
    rw [Program.statementsText, String.toList_append, String.toList_intercalate]
    cases trailing <;> rfl
  rw [htext]
  cases h with
  | nil =>
    cases trailing with
    | false => exact .nil readsStatements_nil
    | true => exact absurd rfl (htrailing rfl)
  | @cons source tree sources trees hsource hmore =>
    obtain ⟨hlater, hboundary⟩ := fragment_later (b := b) hmore trailing
    rw [List.map_cons, Layout.intercalate_cons, List.flatMap_map, List.append_assoc]
    exact hsource.fragment.append hlater hboundary fun us vs hus hvs => hvs.statements hus

/-- A block begins with its bracket, and is read in front of anything. -/
theorem fragment_block (h : List.Forall₂ (Program.HasTree depth) sources trees)
    {trailing : Bool} (htrailing : trailing = true → sources ≠ []) :
    Fragment (b.opener.char :: ((Program.statementsText sources trailing).toList ++
        [b.closer.char])) fun ts =>
      (∀ rest, kind (ts ++ rest) = .punctuation b.opener) ∧
        ReadsOperand (expression depth) ts
          (blockOf b (trailing || !trees.tail.isEmpty) trees ending.location) := by
  have hcloser : Fragment [b.closer.char] fun ts => ∃ c, ts = [c] ∧
      c.kind = .punctuation b.closer := by
    refine Fragment.mark (P := (· = [])) (.nil rfl) b.closer ?_
    rintro c _ hc rfl
    exact ⟨c, rfl, hc⟩
  have hbody := (fragment_statements (b := b) h htrailing).append hcloser
    (Text.atBoundary_mark b.closer []) (R := fun ts => ∃ us c, ts = us ++ [c] ∧
      ReadsStatements (expression depth) b us (trailing || !trees.tail.isEmpty) trees ∧
      c.kind = .punctuation b.closer)
    (by rintro us _ hus ⟨c, rfl, hc⟩; exact ⟨us, c, rfl, hus, hc⟩)
  refine hbody.mark b.opener ?_
  rintro t _ ht ⟨us, c, rfl, hus, hc⟩
  refine ⟨fun rest => ht, .of_operand fun rest => ?_⟩
  have hopener : kind (t :: (us ++ [c]) ++ rest) = .punctuation b.opener := ht
  rw [operand_block hopener]
  exact hus.exists_block (expression_takes depth) ht hc ending.location rest

/-! ### Bindings and functions -/

theorem fragment_binding {source : String} {tree : Expr} (h : Program.HasTree depth source tree)
    {x : String} (hx : Text.IsName x) {k : Keyword} (hk : k ≠ .function) :
    Fragment (k.lexeme.toList ++ ' ' :: (x.toList ++ ' ' :: source.toList))
      (ReadsExpression (expression (depth + 1)) ·
        (.assignment (k == .recursiveBinding) x tree none)) := by
  have hvalue : Fragment (x.toList ++ ' ' :: source.toList) fun ts => ∃ u us, ts = u :: us ∧
      u.shape = .symbol x ∧ ReadsExpression (expression depth) us tree := by
    refine Fragment.lexeme (s := .symbol x) (h.fragment.blank rfl) hx
      (Text.atBoundary_blank rfl _) ?_
    exact fun u us hu hus => ⟨u, us, rfl, hu, hus⟩
  refine Fragment.lexeme (s := .keyword k) (hvalue.blank rfl) trivial
    (Text.atBoundary_blank rfl _) ?_
  rintro t _ ht ⟨u, us, rfl, hu, hus⟩
  exact hus.binding (Layout.kind_of_shape ht) hk hu none

/-- A body that begins with a parenthesis is an expression. -/
theorem fragment_function {name : Option String} {parameters : List String} {body : List Char}
    {e : Expr} (hname : ∀ n ∈ name.toList, Text.IsName n)
    (hparameters : ∀ p ∈ parameters, Text.IsName p)
    (h : Fragment body fun ts => (∀ rest, kind (ts ++ rest) = .punctuation .openParen) ∧
      ReadsExpression (expression depth) ts e) :
    Fragment (Layout.functionText name parameters body)
      (ReadsExpression (expression (depth + 1)) · (.function name parameters e none)) := by
  obtain ⟨ss, hwrites, hbody⟩ := h
  refine ⟨_, Layout.writes_functionText hname hparameters hwrites, fun ts hts rest hrest => ?_⟩
  have hread : ∀ ws, ws.map Token.shape = ss →
      ∃ e', functionBody (expression depth) (ws ++ rest) = .ok e' rest ∧
        e'.unlocated = e.unlocated := by
    intro ws hws
    obtain ⟨hopen, hreads⟩ := hbody ws hws
    obtain ⟨hstart, e', he', hsame⟩ := hreads hrest
    refine ⟨e', ?_, hsame⟩
    rw [functionBody_open (by rw [hopen]; decide) hstart, he']
  obtain ⟨e', l, hfunction, hsame⟩ :=
    Layout.function_reads (P := fun e' => e'.unlocated = e.unlocated) hts hread
  have hstart := startsOperand_of_operand_eq_ok hfunction
  refine ⟨startsExpression_of_startsOperand hstart, .function name parameters e' (some l), ?_, ?_⟩
  · rw [expression, expressionOver_of_startsOperand hstart]
    exact application_of_operand (expression_takes depth) hfunction hrest
  · rw [Expr.unlocated, Expr.unlocated, hsame]

/-! ### Texts -/

/-- The tree of statements in parentheses: a block, unless a single statement that is no binding
    stands there without a `;` behind it. -/
def Expr.parenthesised (trailing : Bool) (statements : List Expr) : Expr :=
  match statements with
  | [e] => if trailing || e.isAssignment then .block .paren [e] none else e
  | _ => .block .paren statements none

theorem unlocated_blockOf_paren (trailing : Bool) (trees : List Expr) (l : Location) :
    (blockOf .paren (trailing || !trees.tail.isEmpty) trees l).unlocated =
      (Expr.parenthesised trailing trees).unlocated := by
  rcases trees with _ | ⟨e, _ | ⟨e', es⟩⟩
  · cases trailing <;> rfl
  · cases trailing with
    | true => rfl
    | false => cases ha : e.isAssignment <;> simp [blockOf, Expr.parenthesised, ha, Expr.unlocated]
  · cases trailing <;> rfl

namespace Program

theorem readsFrom_braces (h : List.Forall₂ (HasTree depth) sources trees)
    {trailing : Bool} (htrailing : trailing = true → sources ≠ []) :
    ReadsFrom (depth + 1) ("\x7b" ++ statementsText sources trailing ++ "\x7d")
      (.block .brace trees none) := by
  refine readsFrom_of_fragment ?_
  rw [String.toList_append, String.toList_append, List.append_assoc]
  refine (fragment_block (b := .brace) h htrailing).imp fun ts hts => ?_
  exact (hts.2.readsExpression (expression_takes depth)).congr rfl

/-- Statements in parentheses are an expression, and one that begins with a parenthesis. -/
theorem fragment_parentheses (h : List.Forall₂ (HasTree depth) sources trees) {trailing : Bool}
    (htrailing : trailing = true → sources ≠ []) :
    Fragment ("(" ++ statementsText sources trailing ++ ")").toList fun ts =>
      (∀ rest, kind (ts ++ rest) = .punctuation .openParen) ∧
        ReadsExpression (expression (depth + 1)) ts (Expr.parenthesised trailing trees) := by
  rw [String.toList_append, String.toList_append, List.append_assoc]
  refine (fragment_block (b := .paren) h htrailing).imp fun ts hts => ⟨hts.1, ?_⟩
  exact (hts.2.readsExpression (expression_takes depth)).congr (unlocated_blockOf_paren _ _ _)

/-- **Enclosure.**  Statements in braces are a block of their trees, and so are statements in
    parentheses, unless a single one stands there by itself.  What is bound to a name, or is the
    body of a function, has the tree that it has by itself. -/
theorem readsFrom_enclosed {depth : Nat} {sources : List String} {trees : List Expr}
    {trailing : Bool} {source x a b : String} {tree : Expr}
    (hsources : List.Forall₂ (HasTree depth) sources trees)
    (htrailing : trailing = true → sources ≠ []) (hsource : HasTree depth source tree)
    (hx : Text.IsName x) (ha : Text.IsName a) (hb : Text.IsName b) :
    ReadsFrom (depth + 1) ("\x7b" ++ statementsText sources trailing ++ "\x7d")
        (.block .brace trees none) ∧
      ReadsFrom (depth + 1) ("(" ++ statementsText sources trailing ++ ")")
        (Expr.parenthesised trailing trees) ∧
      ReadsFrom (depth + 1) ("let " ++ x ++ " " ++ source) (.assignment false x tree none) ∧
      ReadsFrom (depth + 1) ("letrec " ++ x ++ " " ++ source) (.assignment true x tree none) ∧
      ReadsFrom (depth + 2) ("fn (" ++ a ++ ", " ++ b ++ ") (" ++ source ++ ")")
        (.function none [a, b] (Expr.parenthesised false [tree]) none) := by
  have hbinding {k : Keyword} (hk : k ≠ .function) :
      ReadsFrom (depth + 1) (k.lexeme ++ " " ++ x ++ " " ++ source)
        (.assignment (k == .recursiveBinding) x tree none) := by
    refine readsFrom_of_fragment ?_
    simpa using fragment_binding hsource hx hk
  have hparentheses := fragment_parentheses hsources htrailing
  refine ⟨readsFrom_braces hsources htrailing,
    readsFrom_of_fragment (hparentheses.imp fun _ hts => hts.2), ?_, ?_, ?_⟩
  · exact hbinding (k := .binding) (by decide)
  · exact hbinding (k := .recursiveBinding) (by decide)
  · have hsingle : List.Forall₂ (HasTree depth) [source] [tree] := .cons hsource .nil
    have hparameters : ∀ p ∈ [a, b], Text.IsName p := by simp [ha, hb]
    have htext : ("fn (" ++ a ++ ", " ++ b ++ ") (" ++ source ++ ")").toList =
        Layout.functionText none [a, b] ("(" ++ statementsText [source] false ++ ")").toList := by
      simp [statementsText, Layout.functionText, Layout.parenthesized]
    refine readsFrom_of_fragment ?_
    rw [htext]
    refine fragment_function (by simp) hparameters (fragment_parentheses hsingle ?_)
    exact fun _ => List.cons_ne_nil source []

/-- A binding that ends in the open body of a function. -/
def openBinding : Expr :=
  .assignment false "y"
    (.function none ["z"] (.call (.symbol "f" none) [.symbol "z" none] none) none) none

def shortChain : Expr := .chain (.symbol "g" none) [.mk (.symbol "h" none) []] none

/-- A `;` ends the body of a function, and a bracket ends a chain. -/
theorem readsFrom_enclosed_openBinding :
    List.Forall₂ (HasTree 3) ["let y fn (z) f z", "g\x60h"] [openBinding, shortChain] ∧
      Text.IsName "x" ∧ Text.IsName "a" ∧ Text.IsName "+" ∧
      ReadsFrom 4 "\x7blet y fn (z) f z;g\x60h;\x7d"
        (.block .brace [openBinding, shortChain] none) ∧
      ReadsFrom 4 "(let y fn (z) f z;g\x60h;)" (.block .paren [openBinding, shortChain] none) ∧
      ReadsFrom 4 "let x let y fn (z) f z" (.assignment false "x" openBinding none) ∧
      ReadsFrom 4 "letrec x let y fn (z) f z" (.assignment true "x" openBinding none) ∧
      ReadsFrom 5 "fn (a, +) (let y fn (z) f z)"
        (.function none ["a", "+"] (.block .paren [openBinding] none) none) := by
  have hbinding : HasTree 3 "let y fn (z) f z" openBinding :=
    hasTree_of_same none (by decide) (by decide +kernel)
  have hchain : HasTree 3 "g\x60h" shortChain := ⟨none, _, rfl, rfl⟩
  have hsources : List.Forall₂ (HasTree 3) ["let y fn (z) f z", "g\x60h"]
      [openBinding, shortChain] := .cons hbinding (.cons hchain .nil)
  have hx : Text.IsName "x" := (Scan.ofText_eq_symbol_iff _).mp rfl
  have ha : Text.IsName "a" := (Scan.ofText_eq_symbol_iff _).mp rfl
  have hplus : Text.IsName "+" := (Scan.ofText_eq_symbol_iff _).mp rfl
  have hbraces : "\x7blet y fn (z) f z;g\x60h;\x7d" =
      "\x7b" ++ statementsText ["let y fn (z) f z", "g\x60h"] true ++ "\x7d" := by decide
  have hparentheses : "(let y fn (z) f z;g\x60h;)" =
      "(" ++ statementsText ["let y fn (z) f z", "g\x60h"] true ++ ")" := by decide
  have hlet : "let x let y fn (z) f z" = "let " ++ "x" ++ " " ++ "let y fn (z) f z" := by decide
  have hletrec : "letrec x let y fn (z) f z" =
      "letrec " ++ "x" ++ " " ++ "let y fn (z) f z" := by decide
  have hfunction : "fn (a, +) (let y fn (z) f z)" =
      "fn (" ++ "a" ++ ", " ++ "+" ++ ") (" ++ "let y fn (z) f z" ++ ")" := by decide
  rw [hbraces, hparentheses, hlet, hletrec, hfunction]
  refine ⟨hsources, hx, ha, hplus, readsFrom_enclosed hsources ?_ hbinding hx ha hplus⟩
  exact fun _ => List.cons_ne_nil _ _

end Program

end Juxta
