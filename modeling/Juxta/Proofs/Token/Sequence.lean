/-
  Juxta/Proofs/Token/Sequence.lean
  ================================
  **The tokens of a text** — two views of a text as a sequence of tokens:

    * `Text.Spells text shapes`: the text is blank space and lexemes in turn, each lexeme
      ending where the rest of the text begins;
    * `Cursor.Scans k tokens fault`: the tokens that the scanner reads one after another
      from the cursor `k` on, up to the end of input or to the first fault.

  A text that is spelled out is scanned to its end with the same shapes
  (`Text.Spells.exists_scans`); every scan comes to an end (`Cursor.exists_scans`), and what
  it reads are lexemes (`Cursor.Scans.isLexeme`).
-/
import Juxta.Proofs.Token.Lexeme

namespace Juxta

/-! ### One token -/

namespace Scan

theorem ofText_of_isBlank {c : Char} (h : Text.isBlank c = true) (rest : List Char) :
    ofText (c :: rest) = .fault (.unexpectedCharacter c) := by
  simp only [Text.isBlank, Bool.or_eq_true, decide_eq_true_eq] at h
  rcases h with ((rfl | rfl) | rfl) | rfl <;> rfl

/-- A text at whose head a token stands does not begin with blank space. -/
theorem stops_isBlank_of_ofText {text : List Char} {s : Shape} (h : ofText text = .token s) :
    Text.Stops Text.isBlank text := by
  intro c hc
  obtain ⟨rest, rfl⟩ := List.head?_eq_some_iff.mp hc
  cases hblank : Text.isBlank c with
  | false => rfl
  | true =>
    rw [ofText_of_isBlank hblank] at h
    cases h

end Scan

theorem Shape.IsLexeme.length_pos {s : Shape} (h : s.IsLexeme) : 0 < s.lexeme.length := by
  cases s with
  | endOfInput => exact absurd h (by simp [Shape.IsLexeme])
  | integer digits =>
    rw [← String.length_toList]
    exact List.length_pos_iff.mpr h.1.1
  | decimal whole fraction =>
    have hpoint : ".".length = 1 := rfl
    simp only [Shape.lexeme, String.length_append]
    omega
  | string mark body =>
    have hmark : mark.char.toString.length = 1 := by cases mark <;> decide
    simp only [Shape.lexeme, String.length_append]
    omega
  | symbol name =>
    rw [← String.length_toList]
    rcases h with ⟨⟨c, rest, hword, -⟩, -⟩ | ⟨hne, -⟩
    · simp [Shape.lexeme, hword]
    · exact List.length_pos_iff.mpr hne
  | keyword k => cases k <;> decide
  | punctuation p => cases p <;> decide

namespace Cursor

theorem rest_skipBlanks (k : Cursor) : k.skipBlanks.rest = k.rest.dropWhile Text.isBlank := by
  obtain ⟨run, rest, htext, htake, hdrop, -⟩ := Text.exists_run Text.isBlank k.rest
  rw [skipBlanks, rest_forward, htake, hdrop, htext]
  exact List.drop_left

end Cursor

namespace Scanner

theorem next_of_isBlank {k : Cursor} {c : Char} {rest : List Char} (hk : k.rest = c :: rest)
    (hc : Text.isBlank c = true) : next k = next (k.step c rest) := by
  have hskip : k.skipBlanks = (k.step c rest).skipBlanks := by
    simp only [Cursor.skipBlanks, hk, Cursor.rest_step, List.takeWhile_cons_of_pos hc,
      List.length_cons, Cursor.forward]
  simp only [next, hskip]

theorem next_of_ofText {k : Cursor} {s : Shape} (h : Scan.ofText k.rest = .token s) :
    next k = .ok ⟨s, k.location s.lexeme.length⟩ (k.forward s.lexeme.length) := by
  have hskip : k.skipBlanks = k := by
    rw [Cursor.skipBlanks, Text.takeWhile_of_stops (Scan.stops_isBlank_of_ofText h)]
    rfl
  simp only [next, hskip, h, Scan.passed]

/-- What a step of the scanner has read: the end of the text, or a lexeme that it passes. -/
theorem next_eq_ok {k k' : Cursor} {t : Token} (h : next k = .ok t k') :
    (t.shape = .endOfInput ∧ k.rest.dropWhile Text.isBlank = []) ∨
      (Scan.Heads (k.rest.dropWhile Text.isBlank) t.shape ∧
        k'.rest = (k.rest.dropWhile Text.isBlank).drop t.shape.lexeme.length) := by
  simp only [next] at h
  cases hscan : Scan.ofText k.skipBlanks.rest with
  | token s =>
    rw [hscan] at h
    cases h
    rw [Cursor.rest_skipBlanks] at hscan
    rcases Scan.eq_append_of_ofText hscan with hend | hheads
    · exact Or.inl hend
    · refine Or.inr ⟨hheads, ?_⟩
      rw [Cursor.rest_forward, Cursor.rest_skipBlanks, Scan.passed]
  | fault f =>
    rw [hscan] at h
    cases h
  | tooManyDigits digits =>
    rw [hscan] at h
    cases h

theorem length_rest_lt {k k' : Cursor} {t : Token} (h : next k = .ok t k')
    (ht : t.isEnd = false) : k'.rest.length < k.rest.length := by
  have hle : (k.rest.dropWhile Text.isBlank).length ≤ k.rest.length :=
    (List.dropWhile_sublist _).length_le
  rcases next_eq_ok h with ⟨hend, -⟩ | ⟨⟨hlexeme, rest, htext, -⟩, hrest⟩
  · rw [Token.isEnd, Token.kind, hend] at ht
    cases ht
  · have hpos := hlexeme.length_pos
    rw [hrest, List.length_drop]
    have hlen : (k.rest.dropWhile Text.isBlank).length = t.shape.lexeme.length + rest.length := by
      rw [htext, List.length_append, String.length_toList]
    omega

end Scanner

/-! ### All tokens -/

/-- Blank space and lexemes in turn, each lexeme ending where the rest of the text begins. -/
inductive Text.Spells : List Char → List Shape → Prop where
  | nil : Spells [] []
  | blank {c : Char} {text : List Char} {ss : List Shape} :
      Text.isBlank c = true → Spells text ss → Spells (c :: text) ss
  | lexeme {s : Shape} {text : List Char} {ss : List Shape} :
      s.IsLexeme → s.EndsBefore text → Spells text ss →
      Spells (s.lexeme.toList ++ text) (s :: ss)

/-- The tokens that are read from a cursor on, the end of input being the last, and the fault
    before which the reading breaks off, if there is one. -/
inductive Cursor.Scans : Cursor → List Token → Option ScanError → Prop where
  | last {k k' : Cursor} {t : Token} :
      Scanner.next k = .ok t k' → t.isEnd = true → Scans k [t] none
  | fault {k k' : Cursor} {e : ScanError} :
      Scanner.next k = .error e k' → Scans k [] (some e)
  | more {k k' : Cursor} {t : Token} {ts : List Token} {f : Option ScanError} :
      Scanner.next k = .ok t k' → t.isEnd = false → Scans k' ts f → Scans k (t :: ts) f

namespace Cursor

/-- Cursors with the same next token have the same tokens. -/
theorem Scans.of_next_eq {k l : Cursor} {ts : List Token} {f : Option ScanError}
    (h : Scans l ts f) (heq : Scanner.next k = Scanner.next l) : Scans k ts f := by
  cases h with
  | last hn ht => exact .last (heq.trans hn) ht
  | fault hn => exact .fault (heq.trans hn)
  | more hn ht hs => exact .more (heq.trans hn) ht hs

/-- Every scan ends, since each token but the last takes a character. -/
theorem exists_scans (k : Cursor) : ∃ ts f, Scans k ts f := by
  induction hn : k.rest.length using Nat.strongRecOn generalizing k with
  | _ n ih =>
    cases hnext : Scanner.next k with
    | error e k' => exact ⟨[], some e, .fault hnext⟩
    | ok t k' =>
      cases ht : t.isEnd with
      | true => exact ⟨[t], none, .last hnext ht⟩
      | false =>
        have hlt : k'.rest.length < n := hn ▸ Scanner.length_rest_lt hnext ht
        obtain ⟨ts, f, hs⟩ := ih _ hlt k' rfl
        exact ⟨t :: ts, f, .more hnext ht hs⟩

/-- The tokens of a text are lexemes, the end of input apart. -/
theorem Scans.isLexeme {k : Cursor} {ts : List Token} {f : Option ScanError}
    (h : Scans k ts f) : ∀ t ∈ ts, t.isEnd = false → t.shape.IsLexeme := by
  induction h with
  | last hn ht =>
    intro t hmem hend
    rw [List.mem_singleton.mp hmem, ht] at hend
    cases hend
  | fault hn =>
    intro t hmem
    cases hmem
  | more hn ht _ ih =>
    intro t hmem hend
    rcases List.mem_cons.mp hmem with rfl | hmem
    · rcases Scanner.next_eq_ok hn with ⟨hshape, -⟩ | ⟨⟨hlexeme, -⟩, -⟩
      · rw [Token.isEnd, Token.kind, hshape] at hend
        cases hend
      · exact hlexeme
    · exact ih t hmem hend

end Cursor

/-- **A text that is spelled out is read as it is spelled.** -/
theorem Text.Spells.exists_scans {text : List Char} {ss : List Shape} (h : Spells text ss)
    {k : Cursor} (hk : k.rest = text) :
    ∃ ts, Cursor.Scans k ts none ∧ ts.map Token.shape = ss ++ [.endOfInput] := by
  induction h generalizing k with
  | nil =>
    have hnext : Scanner.next k = .ok ⟨.endOfInput, k.location 0⟩ (k.forward 0) :=
      Scanner.next_of_ofText (s := .endOfInput) (by rw [hk]; rfl)
    exact ⟨_, .last hnext rfl, rfl⟩
  | @blank c text ss hc _ ih =>
    obtain ⟨ts, hs, hmap⟩ := ih (Cursor.rest_step k c text)
    exact ⟨ts, hs.of_next_eq (Scanner.next_of_isBlank hk hc), hmap⟩
  | @lexeme s text ss hs hends _ ih =>
    have hnext := Scanner.next_of_ofText (k := k) (hk ▸ Scan.ofText_append hs hends)
    have hrest : (k.forward s.lexeme.length).rest = text := by
      rw [Cursor.rest_forward, hk, ← String.length_toList]
      exact List.drop_left
    obtain ⟨ts, hscans, hmap⟩ := ih hrest
    have hend : Token.isEnd ⟨s, k.location s.lexeme.length⟩ = false := by
      cases s with
      | endOfInput => exact absurd hs (by simp [Shape.IsLexeme])
      | _ => rfl
    exact ⟨_, .more hnext hend hscans, by simp [hmap]⟩

end Juxta
