/-
  Juxta/Proofs/Layout/Independence.lean
  =====================================
  **Settings change blank space only** — a tree that is written under some settings of the
  layout is written under all of them, and all these texts consist of the same tokens
  (`Layout.shapes_of_render`).  Parentheses, separators, the contents of strings and the choice
  of their quote marks are therefore the same under all settings.

  A tree need not mean what its text means for that: a negative zero, a chain on a chain and a
  call without arguments are written as well.
-/
import Juxta.Proofs.Layout.RoundTrip

namespace Juxta

/-- A literal that is not refused has a text that is read as one, if it is not too long. -/
theorem Literal.Writable.legible {v : Literal} (h : v.Writable) (hdigits : v.HasFewDigits) :
    v.Legible := by
  cases v with
  | integer n => exact hdigits
  | decimal x => exact h.1
  | text s => exact h
  | truth b => exact h

namespace Layout

variable {e : Expr} {limit : Nat}

theorem everywhere_legible
    (hnames : ∀ n ∈ e.nodes, ∀ name ∈ n.names, Scan.ofText name.toList = .token (.symbol name))
    (hdigits : ∀ n ∈ e.nodes, ∀ v ∈ n.literal?, v.HasFewDigits)
    (h : e.blemish? = none) : e.Everywhere Expr.Legible := by
  have hunblemished := e.blemish?_eq_none_iff.mp h
  intro n hn
  constructor
  · intro name hname
    exact (Scan.ofText_eq_symbol_iff name).mp (hnames n hn name hname)
  · intro v hv
    exact ((hunblemished n hn).literal v hv).legible (hdigits n hn v hv)

/-- Whether a tree is written depends on the tree alone. -/
theorem render_eq_ok_iff {c : Layout} {text : String} : c.render e limit = .ok text ↔
    e.depth ≤ limit ∧ e.blemish? = none ∧ text = String.ofList (c.programText e) := by
  rw [← Nat.not_lt]
  unfold render
  split
  next hdepth => simp [hdepth]
  next hdepth =>
    cases hblemish : e.blemish? with
    | none => simp [hdepth, eq_comm]
    | some error => simp

/-- The text of a legible tree is read to its end as the tokens of the tree. -/
theorem exists_all_programText (c : Layout) (h : e.Everywhere Expr.Legible)
    (filename : Option String) :
    ∃ ts k, Scanner.all (.start (c.programText e) filename) = .ok ts k ∧
      ts.map Token.shape = shapes e ++ [.endOfInput] := by
  obtain ⟨ts, hscans, hshapes⟩ := (c.spells_programText h).exists_scans (k := .start _ filename) rfl
  obtain ⟨k, hall⟩ := Scanner.all_of_scans hscans
  exact ⟨ts, k, hall, hshapes⟩

/-- **The tokens of a written tree are the same under all settings.** -/
theorem shapes_of_render
    (hnames : ∀ n ∈ e.nodes, ∀ name ∈ n.names, Scan.ofText name.toList = .token (.symbol name))
    (hdigits : ∀ n ∈ e.nodes, ∀ v ∈ n.literal?, v.HasFewDigits)
    {c : Layout} {text : String} (h : c.render e limit = .ok text) (c' : Layout) :
    ∃ text', c'.render e limit = .ok text' ∧
      ∀ filename filename', ∃ ts k ts' k',
        Scanner.all (.start text.toList filename) = .ok ts k ∧
        Scanner.all (.start text'.toList filename') = .ok ts' k' ∧
        ts.map Token.shape = ts'.map Token.shape := by
  obtain ⟨hdepth, hblemish, rfl⟩ := render_eq_ok_iff.mp h
  have hlegible := everywhere_legible hnames hdigits hblemish
  refine ⟨_, render_eq_ok_iff.mpr ⟨hdepth, hblemish, rfl⟩, ?_⟩
  intro filename filename'
  obtain ⟨ts, k, hall, hshapes⟩ := exists_all_programText c hlegible filename
  obtain ⟨ts', k', hall', hshapes'⟩ := exists_all_programText c' hlegible filename'
  refine ⟨ts, k, ts', k', ?_, ?_, hshapes.trans hshapes'.symm⟩
  · rwa [String.toList_ofList]
  · rwa [String.toList_ofList]

/-- A function whose body begins with a block in braces, a string over two lines, a binding in
    braces on its own and a negative zero. -/
def nestedBlocks : Expr :=
  .block .paren
    [.function (some "f") ["x"]
      (.call (.block .brace [.assignment false "y" (.symbol "x" none) none] none)
        [.block .brace [.literal (.text "a \"b\"\nc") none] none] none) none,
    .literal (.decimal .negativeZero) none] none

/-- On as few lines as the string allows, and on one line for each statement. -/
theorem shapes_of_render_nestedBlocks :
    let c : Layout := { maxLineLength := 500, trailingNewline := false }
    let c' : Layout := { indentSize := 8, maxLineLength := 0 }
    c.programText nestedBlocks ≠ c'.programText nestedBlocks ∧
      ∃ text text', c.render nestedBlocks = .ok text ∧ c'.render nestedBlocks = .ok text' ∧
        ∀ filename filename', ∃ ts k ts' k',
          Scanner.all (.start text.toList filename) = .ok ts k ∧
          Scanner.all (.start text'.toList filename') = .ok ts' k' ∧
          ts.map Token.shape = ts'.map Token.shape := by
  intro c c'
  have hnames : ∀ n ∈ nestedBlocks.nodes, ∀ name ∈ n.names,
      Scan.ofText name.toList = .token (.symbol name) := by decide +kernel
  have hdigits : ∀ n ∈ nestedBlocks.nodes, ∀ v ∈ n.literal?, v.HasFewDigits := by decide +kernel
  have hunblemished : nestedBlocks.Everywhere Expr.Unblemished := by decide +kernel
  have hrender : c.render nestedBlocks = .ok _ :=
    render_eq_ok_iff.mpr
      ⟨by decide +kernel, nestedBlocks.blemish?_eq_none_iff.mpr hunblemished, rfl⟩
  obtain ⟨text', hrender', htokens⟩ := shapes_of_render hnames hdigits hrender c'
  exact ⟨by decide +kernel, _, text', hrender, hrender', htokens⟩

end Layout

end Juxta
