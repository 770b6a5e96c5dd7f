/-
  Juxta/Proofs/Layout/Returns.lean
  ================================
  **Canonical texts have no carriage returns** unless the text that is formatted has one: a file
  that is read as text has none, so that what is written back to it is read as it is.

    * `Layout.return_not_mem_text`: the layout writes none of its own accord;
    * `Program.infix_of_literal`: a text literal stands in the text that it was read from;
    * `Program.return_not_mem_of_format`: nor does formatting bring one in.
-/
import Juxta.Proofs.Grammar.Outline
import Juxta.Proofs.Layout.Assembly
import Juxta.Proofs.Layout.Canonical

namespace Juxta

/-! ### Names and literals -/

/-- A character that no name and no number has, and that is no quote mark: it is written where a
    string has it, or by the layout. -/
def IsForeign (a : Char) : Prop :=
  Text.isWordPart a = false ∧ Text.isOperatorChar a = false ∧ a.isDigit = false ∧
    a ∉ ['-', '.', '"', '\'']

instance : DecidablePred IsForeign := fun _ => inferInstanceAs (Decidable (_ ∧ _ ∧ _ ∧ _))

namespace IsForeign

variable {a : Char} (ha : IsForeign a)
include ha

theorem not_mem_name {name : String} (h : Text.IsName name) : a ∉ name.toList := by
  obtain ⟨hword, hoperator, -⟩ := ha
  intro hmem
  rcases h with ⟨hname, -⟩ | hname
  · exact Bool.false_ne_true (hword.symm.trans (hname.isWordPart hmem))
  · exact Bool.false_ne_true (hoperator.symm.trans (hname.2 a hmem))

theorem not_mem_digits {digits : List Char} (h : ∀ c ∈ digits, c.isDigit = true) :
    a ∉ digits := by
  obtain ⟨-, -, hdigit, -⟩ := ha
  exact fun hmem => Bool.false_ne_true (hdigit.symm.trans (h a hmem))

theorem not_mem_positional (n : Numeral) : a ∉ n.positional := by
  obtain ⟨whole, fraction, htext, -, -, hwhole, hfraction, -⟩ := n.exists_positional
  have hpoint : a ≠ '.' := by
    rintro rfl
    exact ha.2.2.2 (by decide)
  rw [htext]
  simp [ha.not_mem_digits hwhole, ha.not_mem_digits hfraction, hpoint]

theorem not_mem_sign (negative : Bool) : a ∉ (if negative then ['-'] else []) := by
  have hsign : a ≠ '-' := by
    rintro rfl
    exact ha.2.2.2 (by decide)
  cases negative <;> simp [hsign]

theorem not_mem_literalText {v : Literal} (hv : v.Writable)
    (hs : ∀ s, v = .text s → a ∉ s.toList) : a ∉ Layout.literalText v := by
  cases v with
  | integer n =>
    have hdigits : a ∉ Nat.toDigits 10 n.natAbs := ha.not_mem_digits fun c hc =>
      Nat.isDigit_of_mem_toDigits (by decide) (by decide) hc
    have hsign := ha.not_mem_sign (decide (n < 0))
    simp only [decide_eq_true_eq] at hsign
    exact List.not_mem_append hsign hdigits
  | decimal x =>
    cases x with
    | nan => cases hv.1
    | infinity _ => cases hv.1
    | finite negative m =>
      exact List.not_mem_append (ha.not_mem_sign negative) (ha.not_mem_positional m.numeral)
  | text s =>
    have hmark (mark : Char) (h : mark ∈ ['"', '\'']) : a ≠ mark := by
      rintro rfl
      exact ha.2.2.2 (List.mem_cons_of_mem _ (List.mem_cons_of_mem _ h))
    have hdouble := hmark '"' (by decide)
    have hsingle := hmark '\'' (by decide)
    change a ∉ Layout.quoted s.toList
    unfold Layout.quoted
    dsimp only
    split <;> simp [hs s rfl, hdouble, hsingle]
  | truth b => cases hv

end IsForeign

/-- The names of the node and the text of its literal have no carriage return. -/
structure Expr.HasNoReturn (n : Expr) : Prop where
  names : ∀ name ∈ n.names, '\r' ∉ name.toList
  literal : ∀ v ∈ n.literal?, '\r' ∉ Layout.literalText v

namespace Layout

/-! ### Trees -/

theorem keeps_return_not_mem : Keeps ('\r' ∉ ·) where
  append h h' := by simp [h, h']
  blank h := by simp [h]
  feed h h' := by simp [h, h']
  mark p := by cases p <;> decide
  keyword k := by cases k <;> decide

/-- **The layout writes no carriage return of its own accord.** -/
theorem return_not_mem_text (c : Layout) (e : Expr) (d : Nat)
    (h : e.Everywhere Expr.HasNoReturn) : '\r' ∉ c.text d e :=
  keeps_return_not_mem.text c e d (h.imp fun _ hn => ⟨hn.names, hn.literal⟩)

theorem return_not_mem_programText (c : Layout) {e : Expr} (h : e.Everywhere Expr.HasNoReturn) :
    '\r' ∉ c.programText e := by
  have htext := return_not_mem_text c e 0 h
  unfold programText
  dsimp only
  split <;> simp [htext]

end Layout

/-! ### Programs -/

namespace Program

variable {depth : Nat} {text out : String} {filename : Option String} {e : Expr}

/-- A text literal stands in the text that it was read from, between quote marks. -/
theorem infix_of_literal (h : parseTo depth text filename = .ok e) {n : Expr} (hn : n ∈ e.nodes)
    {s : String} (hs : n.literal? = some (.text s)) :
    ∃ mark : QuoteMark, mark.char :: (s.toList ++ [mark.char]) <:+: text.toList := by
  obtain ⟨ts, last, hscans, -, hbuilds⟩ := exists_scans_of_parseTo h
  obtain ⟨t, ht, hliteral⟩ := (hbuilds.accountsFor.exists_literal_iff (.text s)).mp ⟨n, hn, hs⟩
  have hstart : Cursor.start text.toList filename = .behind text.toList filename 0 := rfl
  obtain ⟨hbegins, -⟩ := hscans.inOrder (Nat.zero_le _) hstart
  obtain ⟨start, stop, -, hstands⟩ := hbegins t (List.mem_append_left _ ht)
  cases hstands with
  | @token shape _ hlexeme hfront =>
    have hmark : ∃ mark, shape = .string mark s := by
      cases shape <;> cases hliteral
      exact ⟨_, rfl⟩
    obtain ⟨mark, rfl⟩ := hmark
    have hwritten : (Shape.string mark s).lexeme.toList =
        mark.char :: (s.toList ++ [mark.char]) := by
      simp [Shape.lexeme, String.toList_append]
    rw [hwritten] at hfront
    exact ⟨mark, hfront.isInfix.trans (List.drop_suffix _ _).isInfix⟩
  | endOfInput => cases hliteral

/-- **Formatting brings no carriage return in.** -/
theorem return_not_mem_of_format {c : Layout} {limits : Limits}
    (h : format c text filename limits = .ok out) (hreturn : '\r' ∉ text.toList) :
    '\r' ∉ out.toList := by
  obtain ⟨e, hparse, -, hexpressible, rfl⟩ := exists_tree_of_format h
  have hforeign : IsForeign '\r' := by decide
  rw [String.toList_ofList]
  refine Layout.return_not_mem_programText c fun n hn => ⟨fun name hname => ?_, fun v hv => ?_⟩
  · -- No name has a blank in it, wherever it comes from.
    have hread := (hexpressible n hn).names name hname
    exact hforeign.not_mem_name ((Scan.ofText_eq_symbol_iff name).mp hread)
  · refine hforeign.not_mem_literalText ((hexpressible n hn).unblemished.literal v hv) ?_
    rintro s rfl hmem
    obtain ⟨mark, hplace⟩ := infix_of_literal hparse hn hv
    exact hreturn (hplace.subset (by simp [hmem]))

end Program

end Juxta
