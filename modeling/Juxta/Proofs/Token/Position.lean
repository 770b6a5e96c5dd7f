/-
  Juxta/Proofs/Token/Position.lean
  ================================
  **Places in a text** — a cursor that has moved over `n` characters counts as whoever looks at
  the whole text would: `Cursor.behind_eq` gives all that it holds from the text and `n`.  The
  lines behind its line number are the pieces of the text between line feeds
  (`Text.getElem?_splitNewlines`).
-/
import Juxta.Cursor
import Juxta.Proofs.Stream.Refinement

namespace Juxta

/-! ### Lines by their numbers -/

namespace Text

theorem splitNewlines_eq_cons (text : List Char) :
    ∃ later, splitNewlines text = firstLine text :: later := by
  induction text with
  | nil => exact ⟨[], rfl⟩
  | cons c text ih =>
    obtain ⟨later, hlater⟩ := ih
    by_cases hc : c = '\n'
    · exact ⟨splitNewlines text, by simp [splitNewlines, firstLine, hc]⟩
    · exact ⟨later, by simp [splitNewlines, firstLine, hc, hlater]⟩

theorem forall_ne_lineFeed {text : List Char} (h : '\n' ∉ text) :
    ∀ c ∈ text, (c != '\n') = true := by
  intro c hc
  have hne : c ≠ '\n' := fun heq => h (heq ▸ hc)
  simpa using hne

/-- A character in front belongs to the current line unless a line feed has been read. -/
theorem lineHead_cons (c : Char) (text : List Char) (n : Nat) :
    lineHead (c :: text) (n + 1) =
      if '\n' ∈ c :: text.take n then lineHead text n else c :: text.take n := by
  rw [lineHead, lineHead, List.take_succ_cons]
  by_cases hfeed : '\n' ∈ c :: text.take n
  · rw [if_pos hfeed]
    by_cases hlater : '\n' ∈ text.take n
    · -- The scan from behind does not reach the character in front.
      have hshort : ((text.take n).reverse.takeWhile (· != '\n')).length ≠
          (text.take n).reverse.length := by
        intro hlength
        have hall := (List.takeWhile_prefix _).eq_of_length hlength
        have hne := List.takeWhile_eq_self_iff.mp hall '\n' (List.mem_reverse.mpr hlater)
        simp at hne
      rw [List.rtakeWhile, List.rtakeWhile, List.reverse_cons, List.takeWhile_append,
        if_neg hshort]
    · obtain rfl : '\n' = c := by simpa [hlater] using hfeed
      have hstop : ['\n'].takeWhile (· != '\n') = [] := rfl
      rw [List.rtakeWhile, List.rtakeWhile, List.reverse_cons, List.takeWhile_append, hstop]
      split
      · rename_i hlength
        rw [(List.takeWhile_prefix _).eq_of_length hlength, List.append_nil]
      · rfl
  · rw [if_neg hfeed]
    exact List.rtakeWhile_eq_self_iff.mpr (forall_ne_lineFeed hfeed)

/-- **The line with the number that is counted** holds the consumed part of the current line and
    what follows up to the next line feed. -/
theorem getElem?_splitNewlines {text : List Char} {n : Nat} (hn : n ≤ text.length) :
    (splitNewlines text)[(text.take n).count '\n']? =
      some (lineHead text n ++ firstLine (text.drop n)) := by
  induction text generalizing n with
  | nil =>
    obtain rfl : n = 0 := Nat.le_zero.mp hn
    rfl
  | cons c text ih =>
    cases n with
    | zero =>
      obtain ⟨later, hlater⟩ := splitNewlines_eq_cons (c :: text)
      rw [hlater, lineHead_zero]
      rfl
    | succ n =>
      have hline := ih (Nat.le_of_succ_le_succ hn)
      rw [List.take_succ_cons, List.drop_succ_cons]
      rw [lineHead_cons]
      by_cases hc : c = '\n'
      · rw [if_pos (List.mem_cons.mpr (Or.inl hc.symm)), hc, List.count_cons_self, splitNewlines,
          if_pos rfl, List.getElem?_cons_succ, hline]
      · obtain ⟨later, hlater⟩ := splitNewlines_eq_cons text
        have hsplit : splitNewlines (c :: text) = (c :: firstLine text) :: later := by
          rw [splitNewlines, if_neg hc, hlater]
        rw [hlater] at hline
        rw [List.count_cons_of_ne hc, hsplit]
        by_cases hfeed : '\n' ∈ text.take n
        · -- The character in front stands in an earlier line.
          have hpos := List.count_pos_iff.mpr hfeed
          obtain ⟨k, hk⟩ := Nat.exists_eq_succ_of_ne_zero (Nat.pos_iff_ne_zero.mp hpos)
          rw [hk, List.getElem?_cons_succ] at hline ⊢
          rw [if_pos (List.mem_cons_of_mem c hfeed), hline]
        · have hzero : (text.take n).count '\n' = 0 := List.count_eq_zero.mpr hfeed
          have hhead : '\n' ∉ c :: text.take n := by
            rw [List.mem_cons, not_or]
            exact ⟨Ne.symm hc, hfeed⟩
          rw [if_neg hhead, hzero, List.getElem?_cons_zero, List.cons_append, Option.some.injEq,
            List.cons.injEq]
          refine ⟨rfl, ?_⟩
          have hfirst : (text.take n ++ text.drop n).takeWhile (· != '\n') = _ :=
            List.takeWhile_append_of_pos (forall_ne_lineFeed hfeed)
          rwa [List.take_append_drop] at hfirst

theorem currentLine_eq (text : List Char) (n : Nat) :
    currentLine text n = dropTrailingReturns (lineHead text n ++ firstLine (text.drop n)) := by
  rw [dropTrailingReturns_eq_rdropWhile]
  rfl

/-- Two places with the same line number are in the same line. -/
theorem currentLine_eq_of_count {text : List Char} {n m : Nat} (hn : n ≤ text.length)
    (hm : m ≤ text.length) (h : (text.take n).count '\n' = (text.take m).count '\n') :
    currentLine text n = currentLine text m := by
  have hline := getElem?_splitNewlines hn
  rw [h, getElem?_splitNewlines hm, Option.some.injEq] at hline
  rw [currentLine_eq, currentLine_eq, hline]

end Text

/-! ### Cursors by the number of characters read -/

namespace Cursor

/-- The cursor behind the first `n` characters of a text. -/
def behind (text : List Char) (filename : Option String) (n : Nat) : Cursor :=
  (start text filename).forward n

variable {text : List Char} {filename : Option String} {n : Nat}

theorem forward_behind (m : Nat) :
    (behind text filename n).forward m = behind text filename (n + m) :=
  (forward_add n m _).symm

theorem behind_succ {c : Char} (h : text[n]? = some c) :
    behind text filename (n + 1) = (behind text filename n).step c (text.drop (n + 1)) := by
  obtain ⟨hn, hc⟩ := List.getElem?_eq_some_iff.mp h
  have hrest : (behind text filename n).rest = c :: text.drop (n + 1) := by
    rw [behind, rest_forward, ← hc]
    exact List.drop_eq_getElem_cons hn
  rw [← forward_behind 1, forward_of_rest_cons hrest]
  rfl

/-- **What a cursor holds** can be read off the text and the number of characters read. -/
theorem behind_eq (hn : n ≤ text.length) :
    behind text filename n =
      { filename := filename, lineHead := (Text.lineHead text n).reverse, rest := text.drop n,
        line := 1 + (text.take n).count '\n', column := 1 + (Text.lineHead text n).length,
        offset := n } := by
  induction n with
  | zero => simp [behind, forward, start, Text.lineHead_zero]
  | succ n ih =>
    have hlt : n < text.length := hn
    have hc : text[n]? = some text[n] := List.getElem?_eq_getElem hlt
    rw [behind_succ hc, ih (Nat.le_of_lt hlt), step]
    by_cases hfeed : text[n] = '\n'
    · rw [if_pos hfeed, Text.lineHead_succ_of_lineFeed (hc.trans (congrArg some hfeed)),
        List.take_add_one, hc, Option.toList_some, List.count_append, hfeed,
        List.count_singleton_self]
      rfl
    · rw [if_neg hfeed, Text.lineHead_succ hc hfeed, List.take_add_one, hc, Option.toList_some,
        List.count_append, List.count_singleton, beq_false_of_ne hfeed, List.reverse_append,
        List.length_append]
      rfl

theorem rest_behind : (behind text filename n).rest = text.drop n := by
  rw [behind, rest_forward]
  rfl

theorem location_behind (hn : n ≤ text.length) (length : Nat) :
    (behind text filename n).location length = Text.locationAt text filename n length := by
  rw [behind_eq hn, location, Text.locationAt]
  simp

theorem lineText_behind (hn : n ≤ text.length) :
    (behind text filename n).lineText = Text.currentLine text n := by
  rw [behind_eq hn, lineText, List.reverse_reverse, Text.currentLine_eq]

end Cursor

end Juxta
