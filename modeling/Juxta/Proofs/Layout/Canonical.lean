/-
  Juxta/Proofs/Layout/Canonical.lean
  ==================================
  **Formatted text is canonical and stable** — what a program is formatted to depends on its tree
  alone, and is formatted to itself (`Program.format_canonical`).

    * The text of a tree does not depend on locations (`Layout.text_unlocated`).
    * A tree that was read and is written is expressible, so that its text is read back as it
      (`Expr.expressible_of_parseTo`).

  A text is its own canonical text exactly when its diff is empty, since a diff that shows nothing
  is one of equal texts, and exactly when there is nothing to edit.
-/
import Juxta.Editor.TextEdit
import Juxta.Proofs.Diff.Script
import Juxta.Proofs.Expr.Same
import Juxta.Proofs.Layout.Formatting
import Mathlib.Data.Nat.Digits.Defs

namespace Juxta

open Juxta.Expr

/-! ### Locations are not written -/

namespace Layout

theorem isClosed_unlocated (e : Expr) : isClosed e.unlocated = isClosed e := by
  cases e <;> simp [isClosed, unlocated]

theorem operandText_unlocated (e : Expr) (text : List Char) :
    operandText e.unlocated text = operandText e text := by
  rw [operandText, operandText, isClosed_unlocated]

theorem lastArgumentText_unlocated (e : Expr) (text : List Char) :
    lastArgumentText e.unlocated text = lastArgumentText e text := by
  cases e <;> first | rfl | exact operandText_unlocated _ _

theorem keepsSeparator_unlocated (b : Bracket) (xs : List Expr) :
    keepsSeparator b (unlocatedAll xs) = keepsSeparator b xs := by
  rcases xs with _ | ⟨x, _ | ⟨y, ys⟩⟩ <;> simp [keepsSeparator, unlocatedAll]

theorem bodyText_unlocated (e : Expr) (text : List Char) :
    bodyText e.unlocated text = bodyText e text := by
  rw [bodyText, bodyText, isBraceBlock_unlocated]

mutual

/-- **The text of a tree does not depend on locations.** -/
theorem text_unlocated (c : Layout) (depth : Nat) : (e : Expr) →
    c.text depth e.unlocated = c.text depth e
  | .literal _ _ | .symbol _ _ => rfl
  | .function _ _ x _ => by
    rw [unlocated, text, text, bodyText_unlocated, text_unlocated c depth x]
  | .block _ xs _ => by
    rw [unlocated, text, text, keepsSeparator_unlocated, texts_unlocated c (depth + 1) xs]
  | .assignment _ _ x _ => by rw [unlocated, text, text, text_unlocated c depth x]
  | .call f xs _ => by
    rw [unlocated, text, text, operandText_unlocated, text_unlocated c depth f,
      argumentTexts_unlocated c depth xs]
  | .chain x ss _ => by
    rw [unlocated, text, text, operandText_unlocated, text_unlocated c depth x,
      stepTexts_unlocated c depth ss]
  | .invocation x _ => by
    rw [unlocated, text, text, operandText_unlocated, text_unlocated c depth x]

theorem texts_unlocated (c : Layout) (depth : Nat) : (xs : List Expr) →
    c.texts depth (unlocatedAll xs) = c.texts depth xs
  | [] => rfl
  | x :: xs => by
    rw [unlocatedAll, texts, texts, text_unlocated c depth x, texts_unlocated c depth xs]

theorem argumentTexts_unlocated (c : Layout) (depth : Nat) : (xs : List Expr) →
    c.argumentTexts depth (unlocatedAll xs) = c.argumentTexts depth xs
  | [] => rfl
  | x :: xs => by
    have hlast : (unlocatedAll xs).isEmpty = xs.isEmpty := by cases xs <;> rfl
    rw [unlocatedAll, argumentTexts, argumentTexts, hlast, text_unlocated c depth x,
      lastArgumentText_unlocated, operandText_unlocated, argumentTexts_unlocated c depth xs]

theorem operandTexts_unlocated (c : Layout) (depth : Nat) : (xs : List Expr) →
    c.operandTexts depth (unlocatedAll xs) = c.operandTexts depth xs
  | [] => rfl
  | x :: xs => by
    rw [unlocatedAll, operandTexts, operandTexts, operandText_unlocated, text_unlocated c depth x,
      operandTexts_unlocated c depth xs]

theorem stepTexts_unlocated (c : Layout) (depth : Nat) : (ss : List Step) →
    c.stepTexts depth (unlocatedSteps ss) = c.stepTexts depth ss
  | [] => rfl
  | .mk p xs :: ss => by
    rw [unlocatedSteps, stepTexts, stepTexts, operandText_unlocated, text_unlocated c depth p,
      operandTexts_unlocated c depth xs, stepTexts_unlocated c depth ss]

end

theorem programText_eq (c : Layout) {e e' : Expr} (h : e.unlocated = e'.unlocated) :
    c.programText e = c.programText e' := by
  rw [programText, programText, ← text_unlocated, h, text_unlocated]

end Layout

/-! ### Trees that are read are expressible -/

/-- Digits stand for a number that is not longer than they are. -/
theorem ofDigitChars_lt {digits : List Char} (h : ∀ c ∈ digits, c.isDigit = true) :
    Nat.ofDigitChars 10 digits 0 < 10 ^ digits.length := by
  induction digits with
  | nil => simp
  | cons c digits ih =>
    obtain ⟨hc, hdigits⟩ := List.forall_mem_cons.mp h
    have hdigit : c.toNat - '0'.toNat ≤ 9 := by
      simp only [Char.isDigit, Bool.and_eq_true, decide_eq_true_eq] at hc
      have hnine : c.toNat ≤ 57 := hc.2
      have hzero : '0'.toNat = 48 := rfl
      omega
    have hlater := ih hdigits
    have hfirst := Nat.mul_le_mul_left (10 ^ digits.length) hdigit
    rw [Nat.ofDigitChars_cons, Nat.ofDigitChars_eq_ofDigitChars_zero, Nat.mul_zero, Nat.zero_add,
      List.length_cons, Nat.pow_succ]
    omega

theorem Shape.IsLexeme.hasFewDigits {s : Shape} (h : s.IsLexeme) {v : Literal}
    (hv : s.literal? = some v) : v.HasFewDigits := by
  cases s with
  | integer digits =>
    cases hv
    obtain ⟨⟨hne, hdigits⟩, hlimit⟩ := h
    have hlength := Nat.toDigits_length 10 _ _ (List.length_pos_iff.mpr hne) (ofDigitChars_lt hdigits)
    rw [String.length_toList] at hlength
    exact hlength.trans hlimit
  | decimal whole fraction =>
    cases hv
    trivial
  | string mark body =>
    cases hv
    trivial
  | _ => cases hv

namespace Program

variable {c : Layout} {limits : Limits} {text out : String} {filename : Option String}
  {depth : Nat} {e : Expr}

/-- The literals of a tree that is read are not too long for a token. -/
theorem hasFewDigits_of_parseTo (h : parseTo depth text filename = .ok e) :
    ∀ n ∈ e.nodes, ∀ v ∈ n.literal?, v.HasFewDigits := by
  intro n hn v hv
  obtain ⟨ts, hbuilds, hlexemes⟩ := builds_of_parseTo h
  obtain ⟨t, ht, hliteral⟩ := (hbuilds.accountsFor.exists_literal_iff v).mp ⟨n, hn, hv⟩
  exact (hlexemes t ht).hasFewDigits hliteral

/-- **A tree that is read is expressible** when nothing keeps it from being written. -/
theorem expressible_of_parseTo (h : parseTo depth text filename = .ok e)
    (hunblemished : e.Everywhere Unblemished) : e.Everywhere Expressible := by
  intro n hn
  obtain ⟨ts, hbuilds, hlexemes⟩ := builds_of_parseTo h
  have hnormal : n.Normal := hbuilds.good hlexemes n hn
  have hbuildable : n.Buildable :=
    { names := fun name hname => (Scan.ofText_eq_symbol_iff name).mpr (hnormal.names name hname)
      literal := hasFewDigits_of_parseTo h n hn
      arguments := hnormal.arguments }
  exact expressible_of_faithful hbuildable (hunblemished n hn) hnormal.faithful

/-- What a program is formatted to is the text of an expressible tree. -/
theorem exists_tree_of_format (h : format c text filename limits = .ok out) :
    ∃ e, parseTo limits.reading text filename = .ok e ∧ e.depth ≤ limits.writing ∧
      e.Everywhere Expressible ∧ out = String.ofList (c.programText e) := by
  unfold format at h
  cases hparse : parseTo limits.reading text filename with
  | error error =>
    rw [hparse] at h
    cases h
  | ok e =>
    rw [hparse] at h
    change (c.render e limits.writing).mapError Failure.format = .ok out at h
    unfold Layout.render at h
    split_ifs at h with hdepth
    · cases h
    · cases hblemish : e.blemish? with
      | some error =>
        rw [hblemish] at h
        cases h
      | none =>
        rw [hblemish] at h
        cases h
        have hunblemished := e.blemish?_eq_none_iff.mp hblemish
        exact ⟨e, rfl, Nat.not_lt.mp hdepth, expressible_of_parseTo hparse hunblemished, rfl⟩

/-- A program whose tree is that of a text, up to locations, is formatted to it. -/
theorem format_eq_ok {e' : Expr} (h : parseTo limits.reading text filename = .ok e')
    (hsame : e'.unlocated = e.unlocated) (he : e.Everywhere Expressible)
    (hdepth : e.depth ≤ limits.writing) :
    format c text filename limits = .ok (String.ofList (c.programText e)) := by
  have hunlocated : ∀ n : Expr, n.unlocated.Unblemished ↔ n.Unblemished := by
    intro n
    simp [unblemished_iff, operands_unlocated]
  have hdepth' : e'.depth ≤ limits.writing := by
    rwa [← depth_unlocated, hsame, depth_unlocated]
  have hunblemished : e'.Everywhere Unblemished :=
    .of_unlocated_eq hunlocated hsame.symm (he.imp fun n hn => hn.unblemished)
  rw [format_of_parseTo c h hdepth', c.written_of_unblemished hunblemished, c.programText_eq hsame]
  rfl

/-- **What has been formatted is formatted to itself**, if enough levels are allowed. -/
theorem exists_format_formatted (h : format c text filename limits = .ok out) :
    ∃ bound, ∀ limits' : Limits, bound ≤ limits'.reading → bound ≤ limits'.writing →
      format c out none limits' = .ok out := by
  obtain ⟨e, -, -, he, rfl⟩ := exists_tree_of_format h
  obtain ⟨limit, hread⟩ := c.readsBack_programText he
  refine ⟨max limit e.depth, fun limits' hreading hwriting => ?_⟩
  obtain ⟨e', he', hsame⟩ := hread limits'.reading ((Nat.le_max_left _ _).trans hreading) none
  exact format_eq_ok he' hsame he ((Nat.le_max_right _ _).trans hwriting)

/-- Two programs are formatted to one text exactly when their trees are the same. -/
theorem format_eq_iff_same {limits' : Limits} {text' out' : String} {filename' : Option String}
    {e' : Expr} (h : format c text filename limits = .ok out)
    (h' : format c text' filename' limits' = .ok out')
    (he : parseTo limits.reading text filename = .ok e)
    (he' : parseTo limits'.reading text' filename' = .ok e') :
    out = out' ↔ e.same e' = true := by
  obtain ⟨x, hx, -, hexpressible, rfl⟩ := exists_tree_of_format h
  obtain ⟨x', hx', -, hexpressible', rfl⟩ := exists_tree_of_format h'
  obtain rfl : e = x := Except.ok.inj (he.symm.trans hx)
  obtain rfl : e' = x' := Except.ok.inj (he'.symm.trans hx')
  rw [same_iff e e' (hasPlainLiteral_of_parseTo he) (hasPlainLiteral_of_parseTo he')]
  constructor
  · intro heq
    -- One text is read as both trees.
    obtain ⟨limit, hread⟩ := c.readsBack_programText hexpressible
    obtain ⟨limit', hread'⟩ := c.readsBack_programText hexpressible'
    obtain ⟨a, ha, hsame⟩ := hread (max limit limit') (Nat.le_max_left _ _) none
    obtain ⟨a', ha', hsame'⟩ := hread' (max limit limit') (Nat.le_max_right _ _) none
    rw [heq, ha'] at ha
    cases ha
    exact hsame.symm.trans hsame'
  · intro hsame
    rw [c.programText_eq hsame]

/-! ### Checking, comparing and editing -/

theorem isFormatted_of_format (h : format c text none limits = .ok out) :
    isFormatted c text limits = .ok (text == out) := by
  unfold isFormatted
  rw [h]
  rfl

theorem diff_of_format (h : format c text none limits = .ok out) (name : String) :
    diff c name text limits = .ok (if text == out then "" else Diff.unified name text out) := by
  unfold diff
  rw [h]
  rfl

theorem formatting_of_format (h : format c text none limits = .ok out) :
    Editor.TextEdit.formatting c text limits =
      .ok (if text == out then [] else [.replaceAll text out]) := by
  unfold Editor.TextEdit.formatting
  rw [h]

/-- A program is formatted, has an empty diff and needs no edit only all at once. -/
theorem isFormatted_iff (h : format c text none limits = .ok out) (name : String) :
    (isFormatted c text limits = .ok true ↔ text = out) ∧
      (diff c name text limits = .ok "" ↔ text = out) ∧
      (Editor.TextEdit.formatting c text limits = .ok [] ↔ text = out) := by
  rw [isFormatted_of_format h, diff_of_format h, formatting_of_format h]
  by_cases heq : text = out
  · subst heq
    simp
  · have hdiff : Diff.unified name text out ≠ "" := fun hempty =>
      heq (Diff.eq_of_unified_eq_empty hempty)
    simp [heq, hdiff]

/-- **Formatted text is canonical and stable.**  Programs are formatted to one text exactly when
    their trees are the same; what a program is formatted to is formatted, has an empty diff and
    needs no edit, if enough levels are allowed; and the program itself is formatted, has an empty
    diff or needs no edit only all at once. -/
theorem format_canonical (c : Layout) :
    (∀ (limits limits' : Limits) (text text' out out' : String) (e e' : Expr),
      format c text none limits = .ok out → format c text' none limits' = .ok out' →
      parseTo limits.reading text = .ok e → parseTo limits'.reading text' = .ok e' →
      (out = out' ↔ e.same e' = true)) ∧
    ∀ (limits : Limits) (name text out : String), format c text none limits = .ok out →
      (∃ bound, ∀ limits' : Limits, bound ≤ limits'.reading → bound ≤ limits'.writing →
        isFormatted c out limits' = .ok true ∧ diff c name out limits' = .ok "" ∧
          Editor.TextEdit.formatting c out limits' = .ok []) ∧
      (isFormatted c text limits = .ok true ↔ diff c name text limits = .ok "") ∧
      (diff c name text limits = .ok "" ↔
        Editor.TextEdit.formatting c text limits = .ok []) := by
  refine ⟨fun limits limits' text text' out out' e e' h h' he he' =>
    format_eq_iff_same h h' he he', fun limits name text out h => ⟨?_, ?_⟩⟩
  · obtain ⟨bound, hbound⟩ := exists_format_formatted h
    refine ⟨bound, fun limits' hreading hwriting => ?_⟩
    obtain ⟨hchecked, hdiff, hedit⟩ := isFormatted_iff (hbound limits' hreading hwriting) name
    exact ⟨hchecked.mpr rfl, hdiff.mpr rfl, hedit.mpr rfl⟩
  · obtain ⟨hchecked, hdiff, hedit⟩ := isFormatted_iff h name
    exact ⟨hchecked.trans hdiff.symm, hdiff.trans hedit.symm⟩

/-- A call with blanks, a grouping and a zero in front, and the same call without them. -/
theorem format_canonical_grouping :
    (∃ e e', parse "( f  01 )" = .ok e ∧ parse "f 1" = .ok e' ∧ e.same e' = true) ∧
      ∃ bound, ∀ limits : Limits, bound ≤ limits.reading → bound ≤ limits.writing →
        isFormatted {} "f 1\n" limits = .ok true ∧ diff {} "p" "f 1\n" limits = .ok "" ∧
          Editor.TextEdit.formatting {} "f 1\n" limits = .ok [] := by
  have h : format {} "( f  01 )" none {} = .ok "f 1\n" := by decide +kernel
  have h' : format {} "f 1" none {} = .ok "f 1\n" := by decide +kernel
  obtain ⟨e, he, -⟩ := exists_tree_of_format h
  obtain ⟨e', he', -⟩ := exists_tree_of_format h'
  obtain ⟨hsame, hstable⟩ := format_canonical {}
  refine ⟨⟨e, e', he, he', (hsame {} {} _ _ _ _ e e' h h' he he').mp rfl⟩, ?_⟩
  exact (hstable {} "p" _ _ h).1

end Program

end Juxta
