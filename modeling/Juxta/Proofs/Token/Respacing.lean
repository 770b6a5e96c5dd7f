/-
  Juxta/Proofs/Token/Respacing.lean
  =================================
  **Blank space between tokens is free** — the lexemes of a text may be written with any other
  blank space in front of, between and behind them, as long as there is some between any two:
  the tokens stay what they are (`Scanner.all_respaced`).  Blank characters inside a string
  belong to its lexeme.
-/
import Juxta.Proofs.Token.Factorisation

namespace Juxta

namespace Text

/-- Lexemes, each with the blank space behind it, after blank space at the beginning. -/
def respaced (lead : List Char) (pieces : List (String × List Char)) : List Char :=
  lead ++ pieces.flatMap fun p => p.1.toList ++ p.2

/-- Blank space in front and behind, and between any two pieces some of it. -/
structure IsSpacing (lead : List Char) (pieces : List (String × List Char)) : Prop where
  isBlank_lead : ∀ c ∈ lead, isBlank c = true
  isBlank : ∀ p ∈ pieces, ∀ c ∈ p.2, Text.isBlank c = true
  apart : ∀ p ∈ pieces.dropLast, p.2 ≠ []

theorem isSpacing_iff {lead : List Char} {pieces : List (String × List Char)} :
    IsSpacing lead pieces ↔ lead.all isBlank = true ∧
      (pieces.all fun p => p.2.all isBlank) = true ∧ ∀ p ∈ pieces.dropLast, p.2 ≠ [] := by
  simp only [List.all_eq_true]
  constructor
  · intro h
    exact ⟨h.isBlank_lead, h.isBlank, h.apart⟩
  · rintro ⟨hlead, hblank, hapart⟩
    exact ⟨hlead, hblank, hapart⟩

instance (lead : List Char) (pieces : List (String × List Char)) :
    Decidable (IsSpacing lead pieces) :=
  decidable_of_iff _ isSpacing_iff.symm

/-- The blank space behind a piece comes in front of nothing if there is none of it. -/
theorem flatMap_eq_nil_of_apart {p : String × List Char} {pieces : List (String × List Char)}
    (h : ∀ q ∈ (p :: pieces).dropLast, q.2 ≠ []) (hp : p.2 = []) :
    pieces.flatMap (fun q => q.1.toList ++ q.2) = [] := by
  cases pieces with
  | nil => rfl
  | cons q pieces => exact absurd hp (h p List.mem_cons_self)

/-- Lexemes with blank space between them are spelled, whatever the space is. -/
theorem spells_respaced {pieces : List (String × List Char)} {ss : List Shape}
    (hlexemes : pieces.map Prod.fst = ss.map Shape.lexeme) (hss : ∀ s ∈ ss, s.IsLexeme)
    (hblank : ∀ p ∈ pieces, ∀ c ∈ p.2, isBlank c = true) (hapart : ∀ p ∈ pieces.dropLast, p.2 ≠ []) :
    Spells (pieces.flatMap fun p => p.1.toList ++ p.2) ss := by
  induction pieces generalizing ss with
  | nil =>
    obtain rfl : ss = [] := List.map_eq_nil_iff.mp hlexemes.symm
    exact .nil
  | cons p pieces ih =>
    obtain ⟨s, later, rfl, hs, hlater⟩ := List.map_eq_cons_iff.mp hlexemes.symm
    rw [List.forall_mem_cons] at hss hblank
    have hends : s.EndsBefore (p.2 ++ pieces.flatMap fun q => q.1.toList ++ q.2) := by
      apply Shape.endsBefore_append hss.1 hblank.1
      intro hp
      rw [flatMap_eq_nil_of_apart hapart hp]
      nofun
    have hspells : Spells (pieces.flatMap fun q => q.1.toList ++ q.2) later := by
      apply ih hlater.symm hss.2 hblank.2
      intro q hq
      apply hapart q
      cases pieces with
      | nil => cases hq
      | cons r pieces => exact List.mem_cons_of_mem p hq
    rw [List.flatMap_cons, List.append_assoc, ← hs]
    exact .lexeme hss.1 hends (hspells.append_blank hblank.1)

end Text

namespace Scanner

/-- The tokens of a text but for the last are lexemes, and the last is the end of input. -/
theorem shapes_of_scans {k : Cursor} {ts : List Token} (h : k.Scans ts none) :
    ∃ ss : List Shape, ts.map Token.shape = ss ++ [.endOfInput] ∧ ∀ s ∈ ss, s.IsLexeme := by
  generalize hf : (none : Option ScanError) = f at h
  induction h with
  | @last k k' t hn ht =>
    obtain ⟨hshape, -⟩ := isBlank_of_isEnd hn ht
    refine ⟨[], ?_, nofun⟩
    rw [List.map_singleton, hshape, List.nil_append]
  | fault => cases hf
  | @more k k' t ts _ hn ht _ ih =>
    obtain ⟨ss, hss, hlexemes⟩ := ih hf
    obtain ⟨-, -, -, hlexeme, -⟩ := exists_lead hn ht
    refine ⟨t.shape :: ss, ?_, List.forall_mem_cons.mpr ⟨hlexeme, hlexemes⟩⟩
    rw [List.map_cons, hss, List.cons_append]

theorem lexemes_eq_of_shapes (ts : List Token) :
    ts.dropLast.map Token.lexeme = (ts.map Token.shape).dropLast.map Shape.lexeme := by
  rw [← List.map_dropLast, List.map_map]
  rfl

/-- **The lexemes of a text, respaced, are read as the same tokens.** -/
theorem all_respaced {text lead : List Char} {filename filename' : Option String}
    {pieces : List (String × List Char)} {ts : List Token} {k : Cursor}
    (h : all (.start text filename) = .ok ts k)
    (hlexemes : pieces.map Prod.fst = ts.dropLast.map Token.lexeme)
    (hspacing : Text.IsSpacing lead pieces) :
    ∃ ts' k', all (.start (Text.respaced lead pieces) filename') = .ok ts' k' ∧
      ts'.map Token.shape = ts.map Token.shape := by
  obtain ⟨ss, hss, hlexeme⟩ := shapes_of_scans (scans_of_all h)
  have hpieces : pieces.map Prod.fst = ss.map Shape.lexeme := by
    rw [hlexemes, lexemes_eq_of_shapes, hss, List.dropLast_concat]
  have hspells := Text.spells_respaced hpieces hlexeme hspacing.isBlank hspacing.apart
  obtain ⟨ts', hscans, hshapes⟩ :=
    (hspells.append_blank hspacing.isBlank_lead).exists_scans
      (k := .start (Text.respaced lead pieces) filename') rfl
  obtain ⟨k', hall⟩ := all_of_scans hscans
  exact ⟨ts', k', hall, hshapes.trans hss.symm⟩

end Scanner

end Juxta
