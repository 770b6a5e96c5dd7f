/-
  Juxta/Proofs/Layout/Writing.lean
  ================================
  **Texts that spell tokens wherever they end** — a piece of text may be put in front of
  anything that begins with blank space or a reserved mark, because no lexeme goes on over
  such a boundary.  `Writes text shapes` says that a piece spells the given tokens in front of
  every boundary.

  The pieces of the layout are put together with blanks, marks and separators only.  Each of
  these ways keeps `Writes`, so that what a text spells can be read off its construction.
-/
import Juxta.Layout.Render
import Juxta.Proofs.Token.Sequence
import Mathlib.Data.List.Forall2

namespace Juxta

/-! ### Boundaries -/

namespace Text

/-- The text is empty, or begins with blank space or a reserved mark. -/
def AtBoundary (rest : List Char) : Prop :=
  ∀ c ∈ rest.head?, isBlank c = true ∨ ∃ p : Punctuation, c = p.char

theorem atBoundary_nil : AtBoundary [] := by
  intro c hc
  cases hc

theorem atBoundary_blank {c : Char} (hc : isBlank c = true) (rest : List Char) :
    AtBoundary (c :: rest) := by
  intro d hd
  cases hd
  exact Or.inl hc

theorem atBoundary_mark (p : Punctuation) (rest : List Char) : AtBoundary (p.char :: rest) := by
  intro d hd
  cases hd
  exact Or.inr ⟨p, rfl⟩

theorem atBoundary_of_isBlank {blank : List Char} (h : ∀ c ∈ blank, isBlank c = true) :
    AtBoundary blank :=
  fun c hc => Or.inl (h c (List.mem_of_mem_head? hc))

theorem AtBoundary.append {text rest : List Char} (h : AtBoundary text) (hrest : AtBoundary rest) :
    AtBoundary (text ++ rest) := by
  cases text with
  | nil => exact hrest
  | cons c text => exact h

/-- A class of characters without blanks and marks ends at a boundary. -/
theorem AtBoundary.stops {rest : List Char} (h : AtBoundary rest) {p : Char → Bool}
    (hblank : ∀ c, isBlank c = true → p c = false)
    (hmark : ∀ m : Punctuation, p m.char = false) : Stops p rest := by
  intro c hc
  rcases h c hc with hc | ⟨m, rfl⟩
  · exact hblank c hc
  · exact hmark m

theorem of_isBlank {P : Char → Prop} (hspace : P ' ') (htab : P '\t') (hreturn : P '\r')
    (hfeed : P '\n') (c : Char) (hc : isBlank c = true) : P c := by
  simp only [isBlank, Bool.or_eq_true, decide_eq_true_eq] at hc
  rcases hc with ((rfl | rfl) | rfl) | rfl
  · exact hspace
  · exact htab
  · exact hreturn
  · exact hfeed

end Text

/-- **Every lexeme ends at a boundary.** -/
theorem Shape.endsBefore_of_atBoundary (s : Shape) {rest : List Char}
    (h : Text.AtBoundary rest) : s.EndsBefore rest := by
  have hword : Text.Stops Text.isWordPart rest :=
    h.stops (Text.of_isBlank (by decide) (by decide) (by decide) (by decide))
      Punctuation.isWordPart_char
  have hoperator : Text.Stops Text.isOperatorChar rest :=
    h.stops (Text.of_isBlank (by decide) (by decide) (by decide) (by decide))
      Punctuation.isOperatorChar_char
  have hdigit : Text.Stops Char.isDigit rest :=
    h.stops (Text.of_isBlank (by decide) (by decide) (by decide) (by decide))
      Punctuation.isDigit_char
  have hpoint : rest.head? ≠ some '.' := by
    intro hhead
    rcases h '.' hhead with hblank | ⟨p, hp⟩
    · exact absurd hblank (by decide)
    · exact absurd hp (by cases p <;> decide)
  cases s with
  | integer _ => exact ⟨hdigit, hpoint⟩
  | decimal _ _ => exact hdigit
  | symbol _ => exact ⟨fun _ => hword, fun _ => hoperator⟩
  | keyword _ => exact hword
  | endOfInput | string _ _ | punctuation _ => exact trivial

/-- What ends a lexeme ends it also where the text goes on behind a boundary. -/
theorem Shape.EndsBefore.append {s : Shape} {text rest : List Char} (h : s.EndsBefore text)
    (hrest : Text.AtBoundary rest) : s.EndsBefore (text ++ rest) := by
  cases text with
  | nil => exact s.endsBefore_of_atBoundary hrest
  | cons c text => cases s <;> exact h

/-! ### Pieces of text -/

namespace Layout

/-- In front of every boundary the text spells the tokens. -/
def Writes (text : List Char) (ss : List Shape) : Prop :=
  ∀ ⦃rest ss'⦄, Text.AtBoundary rest → Text.Spells rest ss' →
    Text.Spells (text ++ rest) (ss ++ ss')

variable {text text' : List Char} {ss ss' : List Shape} {s : Shape}

theorem writes_nil : Writes [] [] := fun _ _ _ hrest => hrest

theorem writes_lexeme (hs : s.IsLexeme) : Writes s.lexeme.toList [s] := by
  intro rest ss' hrest hspells
  exact .lexeme hs (s.endsBefore_of_atBoundary hrest) hspells

theorem writes_blank {c : Char} (hc : Text.isBlank c = true) (h : Writes text ss) :
    Writes (c :: text) ss := by
  intro rest ss' hrest hspells
  exact .blank hc (h hrest hspells)

theorem writes_mark (p : Punctuation) (h : Writes text ss) :
    Writes (p.char :: text) (.punctuation p :: ss) := by
  intro rest ss' hrest hspells
  have hlexeme : (Shape.punctuation p).lexeme.toList = [p.char] := by
    simp [Shape.lexeme, Char.toString_eq_singleton]
  have hmark := Text.Spells.lexeme (s := .punctuation p) trivial trivial (h hrest hspells)
  rwa [hlexeme] at hmark

/-- A piece that begins at a boundary may stand behind any other. -/
theorem Writes.append (h : Writes text ss) (h' : Writes text' ss')
    (hboundary : ∀ rest, Text.AtBoundary rest → Text.AtBoundary (text' ++ rest)) :
    Writes (text ++ text') (ss ++ ss') := by
  intro rest ss'' hrest hspells
  rw [List.append_assoc, List.append_assoc]
  exact h (hboundary rest hrest) (h' hrest hspells)

theorem Writes.append_blank {c : Char} (h : Writes text ss) (hc : Text.isBlank c = true)
    (h' : Writes text' ss') : Writes (text ++ c :: text') (ss ++ ss') :=
  h.append (writes_blank hc h') fun _ _ => Text.atBoundary_blank hc _

theorem Writes.append_mark (h : Writes text ss) (p : Punctuation) (h' : Writes text' ss') :
    Writes (text ++ p.char :: text') (ss ++ .punctuation p :: ss') :=
  h.append (writes_mark p h') fun _ _ => Text.atBoundary_mark p _

theorem writes_indent (n : Nat) (h : Writes text ss) :
    Writes (List.replicate n ' ' ++ text) ss := by
  induction n with
  | zero => exact h
  | succ n ih =>
    rw [List.replicate_succ]
    exact writes_blank (by decide) ih

/-- A text that is written by itself is spelled out. -/
theorem Writes.spells (h : Writes text ss) : Text.Spells text ss := by
  have hspells := h Text.atBoundary_nil .nil
  rwa [List.append_nil, List.append_nil] at hspells

/-- A text that is spelled out may stand in front of every boundary. -/
theorem writes_of_spells (h : Text.Spells text ss) : Writes text ss := by
  intro rest ss' hrest hspells
  induction h with
  | nil => exact hspells
  | blank hc _ ih => exact .blank hc ih
  | @lexeme s text ss hs hends _ ih =>
    rw [List.append_assoc]
    exact .lexeme hs (hends.append hrest) ih

/-! ### Sequences of pieces -/

theorem intercalate_cons {α : Type} (separator x : List α) (xs : List (List α)) :
    separator.intercalate (x :: xs) = x ++ xs.flatMap (separator ++ ·) := by
  induction xs generalizing x with
  | nil => simp
  | cons y ys ih => simp [ih]

/-- Tokens of several pieces with a mark between each and the next. -/
def separated (p : Punctuation) : List (List Shape) → List Shape
  | [] => []
  | ss :: sss => ss ++ sss.flatMap (.punctuation p :: ·)

variable {texts : List (List Char)} {sss : List (List Shape)}

theorem atBoundary_flatMap {f : List Char → List Char}
    (hf : ∀ text rest, Text.AtBoundary (f text ++ rest)) (texts : List (List Char))
    {rest : List Char} (hrest : Text.AtBoundary rest) :
    Text.AtBoundary (texts.flatMap f ++ rest) := by
  cases texts with
  | nil => exact hrest
  | cons text texts =>
    rw [List.flatMap_cons, List.append_assoc]
    exact hf text _

/-- Pieces that begin at a boundary each may stand one after another. -/
theorem writes_flatMap {f : List Char → List Char} {g : List Shape → List Shape}
    (hf : ∀ text rest, Text.AtBoundary (f text ++ rest))
    (hg : ∀ text ss, Writes text ss → Writes (f text) (g ss))
    (h : List.Forall₂ Writes texts sss) : Writes (texts.flatMap f) (sss.flatMap g) := by
  induction h with
  | nil => exact writes_nil
  | @cons text ss texts sss htext _ ih =>
    rw [List.flatMap_cons, List.flatMap_cons]
    exact (hg text ss htext).append ih fun rest hrest => atBoundary_flatMap hf texts hrest

/-- Pieces with a blank between each and the next. -/
theorem writes_intercalate (h : List.Forall₂ Writes texts sss) :
    Writes ([' '].intercalate texts) sss.flatten := by
  have hf (text rest : List Char) : Text.AtBoundary ([' '] ++ text ++ rest) :=
    Text.atBoundary_blank (by decide) _
  have hg (text : List Char) (ss : List Shape) (htext : Writes text ss) :
      Writes ([' '] ++ text) (id ss) := writes_blank (by decide) htext
  cases h with
  | nil => exact writes_nil
  | @cons text ss texts sss htext hrest =>
    rw [intercalate_cons, List.flatten_cons, ← List.flatMap_id]
    exact htext.append (writes_flatMap hf hg hrest) fun rest => atBoundary_flatMap hf texts

/-- Pieces with a mark and a blank between each and the next. -/
theorem writes_separated (p : Punctuation) (h : List.Forall₂ Writes texts sss) :
    Writes ([p.char, ' '].intercalate texts) (separated p sss) := by
  have hf (text rest : List Char) : Text.AtBoundary ([p.char, ' '] ++ text ++ rest) :=
    Text.atBoundary_mark p _
  have hg (text : List Char) (ss : List Shape) (htext : Writes text ss) :
      Writes ([p.char, ' '] ++ text) (.punctuation p :: ss) :=
    writes_mark p (writes_blank (by decide) htext)
  cases h with
  | nil => exact writes_nil
  | @cons text ss texts sss htext hrest =>
    rw [intercalate_cons, separated]
    exact htext.append (writes_flatMap hf hg hrest) fun rest => atBoundary_flatMap hf texts

end Layout

end Juxta
