/-
  Juxta/Proofs/Grammar/Text.lean
  ==============================
  **Texts read to a chosen depth** — `Program.parse` allows a fixed number of expressions
  nested in each other.  `Program.parseTo` leaves the number open, so that what holds of the
  grammar at every depth can be said of texts; it reads a text as the list of its tokens is
  read (`parseTo_of_scans`).
-/
import Juxta.Program
import Juxta.Proofs.Grammar.Supply

namespace Juxta.Program

variable {depth : Nat} {text : String} {filename : Option String} {ts : List Token} {e : Expr}

/-- A text has the tree that its tokens have. -/
theorem parseTo_of_scans (h : (Cursor.start text.toList filename).Scans ts none)
    {rest : List Token} (hts : Grammar.program depth ts = .ok e rest) :
    parseTo depth text filename = .ok e := by
  have hsource : (TokenSource.ofText text filename).Holds ts none := .waiting h
  have hagree := (Grammar.agrees_program (P := TokenSource.pairing none) depth).agree hsource
  rw [hts] at hagree
  unfold parseTo
  cases hs : Grammar.program depth (TokenSource.ofText text filename) with
  | ok a s =>
    rw [hs] at hagree
    cases hagree
    rfl
  | error a s =>
    rw [hs] at hagree
    cases hagree with
    | excused he =>
      obtain ⟨fault, hfault, -⟩ := he
      cases hfault

/-- A source that has been looked at keeps the token at hand. -/
theorem lookahead_of_nextIs {p : Kind → Bool} {s s' : TokenSource} {b : Bool}
    (h : Grammar.nextIs p s = .ok b s') : ∃ t, s'.lookahead = some t := by
  obtain ⟨t, m, hpeek, hpure⟩ := Grammar.bind_eq_ok.mp h
  obtain ⟨-, rfl⟩ := Grammar.pure_eq_ok.mp hpure
  change EStateM.adaptExcept _ TokenSource.peek s = _ at hpeek
  cases hsource : TokenSource.peek s with
  | ok u k =>
    simp only [EStateM.adaptExcept, hsource] at hpeek
    cases hpeek
    exact ⟨t, TokenSource.lookahead_of_peek hsource⟩
  | error e k =>
    simp only [EStateM.adaptExcept, hsource] at hpeek
    cases hpeek

theorem lookahead_of_program {s s' : TokenSource} (h : Grammar.program depth s = .ok e s') :
    ∃ t, s'.lookahead = some t := by
  obtain ⟨starts, m, -, h₁⟩ := Grammar.bind_eq_ok.mp h
  cases starts with
  | false => exact absurd h₁ (Grammar.refuse_ne_ok _ _ _ _)
  | true =>
    obtain ⟨e', m', -, h₂⟩ := Grammar.bind_eq_ok.mp h₁
    obtain ⟨ended, m'', hended, h₃⟩ := Grammar.bind_eq_ok.mp h₂
    cases ended with
    | false => exact absurd h₃ (Grammar.refuse_ne_ok _ _ _ _)
    | true =>
      obtain ⟨-, rfl⟩ := Grammar.pure_eq_ok.mp h₃
      exact lookahead_of_nextIs hended

/-- A text that has a tree is scanned to its end, and its tokens are read as the tree. -/
theorem exists_program_of_parseTo (h : parseTo depth text filename = .ok e) :
    ∃ ts last, (Cursor.start text.toList filename).Scans (ts ++ [last]) none ∧
      last.isEnd = true ∧ Grammar.program depth (ts ++ [last]) = .ok e [last] := by
  obtain ⟨ts, f, hscans⟩ := Cursor.exists_scans (.start text.toList filename)
  have hsource : (TokenSource.ofText text filename).Holds ts f := .waiting hscans
  have hagree := (Grammar.agrees_program (P := TokenSource.pairing f) depth).agree hsource
  unfold parseTo at h
  cases hs : Grammar.program depth (TokenSource.ofText text filename) with
  | ok a s =>
    rw [hs] at h hagree
    cases h
    cases hts : Grammar.program depth ts with
    | ok b rest =>
      rw [hts] at hagree
      obtain ⟨used, rfl, -, hend⟩ := Grammar.program_takes hts
      obtain ⟨last, hlast⟩ := lookahead_of_program hs
      cases hagree with
      | ok hholds =>
        -- The end of input is at hand, so that no fault comes after the tokens.
        cases hholds with
        | waiting => cases hlast
        | looked ht => exact absurd (by simp [Token.isEnd, ← hend]) (ne_true_of_eq_false ht)
        | ended ht => exact ⟨used, _, hscans, ht, hts⟩
    | error b rest =>
      rw [hts] at hagree
      cases hagree
  | error a s =>
    rw [hs] at h
    cases h

/-- A text that has a tree has it from its tokens. -/
theorem exists_scans_of_parseTo (h : parseTo depth text filename = .ok e) :
    ∃ ts last, (Cursor.start text.toList filename).Scans (ts ++ [last]) none ∧
      last.isEnd = true ∧ Grammar.Builds .expression ts e := by
  obtain ⟨ts, last, hscans, hlast, hprogram⟩ := exists_program_of_parseTo h
  obtain ⟨used, hused, hbuilds, -⟩ := Grammar.program_takes hprogram
  obtain rfl := List.append_cancel_right hused
  exact ⟨ts, last, hscans, hlast, hbuilds⟩

/-- A text that has a tree has it from lexemes. -/
theorem builds_of_parseTo (h : parseTo depth text filename = .ok e) :
    ∃ ts, Grammar.Builds .expression ts e ∧ ∀ t ∈ ts, t.shape.IsLexeme := by
  obtain ⟨ts, last, hscans, -, hbuilds⟩ := exists_scans_of_parseTo h
  refine ⟨ts, hbuilds, fun t ht => ?_⟩
  exact hscans.isLexeme t (List.mem_append_left _ ht) (hbuilds.isEnd t ht)

end Juxta.Program
