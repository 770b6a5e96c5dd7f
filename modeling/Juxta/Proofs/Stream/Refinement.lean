/-
  Juxta/Proofs/Stream/Refinement.lean
  ===================================
  **Reads make no difference** — a stream takes its text in reads of any lengths, keeps a
  buffer that is cut at every line feed, and fills it when it is asked for more.  Whoever
  asks cannot tell: all answers are those of the whole text and the number of characters
  consumed so far.

    * `Text.answer` is the plain reader, a text and an index into it;
    * `Stream.Holds reads filename n s` says which part of the text the stream `s` has at hand
      when `n` characters have been consumed;
    * `Stream.Holds.answer` is the step: one call on both sides, the same answer, and the
      relation holds again;
    * `Stream.run_eq_run` is the run: any calls in any order, over any reads.
-/
import Juxta.Stream
import Mathlib.Data.List.DropRight

namespace Juxta

/-! ### Calls and answers -/

namespace Stream

/-- What a reader of characters is asked for. -/
inductive Call where
  | peek (ahead : Nat)
  | advance
  | atEnd
  | location (length : Int)
  | lineText

inductive Answer where
  /-- The character ahead, if the text goes on that far. -/
  | ahead (c : Option Char)
  | consumed (c : Char)
  /-- There was nothing left to consume. -/
  | pastEnd
  | atEnd (ended : Bool)
  | location (l : Location)
  | lineText (line : List Char)

/-- What a stream answers, and what it is afterwards. -/
def answer : Call → Stream → Answer × Stream
  | .peek ahead, s => (.ahead (s.peek ahead).1, (s.peek ahead).2)
  | .advance, s =>
    match s.advance with
    | (some c, s) => (.consumed c, s)
    | (none, s) => (.pastEnd, s)
  | .atEnd, s => (.atEnd s.atEnd.1, s.atEnd.2)
  | .location length, s => (.location (s.location length), s)
  | .lineText, s => (.lineText s.lineText.1, s.lineText.2)

def run : List Call → Stream → List Answer × Stream
  | [], s => ([], s)
  | call :: calls, s =>
    let (a, s) := answer call s
    let (later, s) := run calls s
    (a :: later, s)

end Stream

/-! ### The plain reader -/

namespace Text

/-- The consumed part of the current line. -/
def lineHead (text : List Char) (n : Nat) : List Char := (text.take n).rtakeWhile (· != '\n')

/-- Where the current line begins. -/
def lineStart (text : List Char) (n : Nat) : Nat := n - (lineHead text n).length

/-- The current line, without its line feed and the carriage returns before it. -/
def currentLine (text : List Char) (n : Nat) : List Char :=
  (lineHead text n ++ (text.drop n).takeWhile (· != '\n')).rdropWhile (· == '\r')

def locationAt (text : List Char) (filename : Option String) (n : Nat) (length : Int) : Location :=
  { line := 1 + ((text.take n).count '\n' : Nat), column := 1 + ((lineHead text n).length : Nat),
    offset := n, length := length, filename := filename }

/-- What is answered from the whole text when `n` characters have been consumed, and how many
    have been afterwards. -/
def answer (text : List Char) (filename : Option String) :
    Stream.Call → Nat → Stream.Answer × Nat
  | .peek ahead, n => (.ahead text[n + ahead]?, n)
  | .advance, n =>
    match text[n]? with
    | some c => (.consumed c, n + 1)
    | none => (.pastEnd, n)
  | .atEnd, n => (.atEnd (decide (text.length ≤ n)), n)
  | .location length, n => (.location (locationAt text filename n length), n)
  | .lineText, n => (.lineText (currentLine text n), n)

def run (text : List Char) (filename : Option String) :
    List Stream.Call → Nat → List Stream.Answer × Nat
  | [], n => ([], n)
  | call :: calls, n =>
    let (a, n) := answer text filename call n
    let (later, n) := run text filename calls n
    (a :: later, n)

theorem lineHead_zero (text : List Char) : lineHead text 0 = [] := by
  rw [lineHead, List.take_zero, List.rtakeWhile_nil]

theorem lineHead_succ_of_lineFeed {text : List Char} {n : Nat} (h : text[n]? = some '\n') :
    lineHead text (n + 1) = [] := by
  rw [lineHead, List.take_add_one, h, Option.toList_some]
  exact List.rtakeWhile_concat_neg _ _ _ (by decide)

theorem lineHead_succ {text : List Char} {n : Nat} {c : Char} (h : text[n]? = some c)
    (hc : c ≠ '\n') : lineHead text (n + 1) = lineHead text n ++ [c] := by
  rw [lineHead, List.take_add_one, h, Option.toList_some]
  exact List.rtakeWhile_concat_pos _ _ _ (by simpa using hc)

theorem length_lineHead_le (text : List Char) (n : Nat) : (lineHead text n).length ≤ n := by
  have hsuffix : lineHead text n <:+ text.take n := List.rtakeWhile_suffix _ _
  have hle := hsuffix.length_le
  rw [List.length_take] at hle
  omega

/-- From where the current line begins, the text is the consumed part of that line and what
    is to come. -/
theorem drop_lineStart {text : List Char} {n : Nat} (hn : n ≤ text.length) :
    text.drop (lineStart text n) = lineHead text n ++ text.drop n := by
  obtain ⟨before, hbefore⟩ : lineHead text n <:+ text.take n := List.rtakeWhile_suffix _ _
  have htext : text = before ++ (lineHead text n ++ text.drop n) := by
    rw [← List.append_assoc, hbefore, List.take_append_drop]
  have hlength : before.length = lineStart text n := by
    have htake := congrArg List.length hbefore
    rw [List.length_append, List.length_take] at htake
    rw [lineStart]
    omega
  have hdrop : text.drop before.length = lineHead text n ++ text.drop n := by
    conv_lhs => rw [htext]
    exact List.drop_left
  rw [← hlength, hdrop]

theorem takeWhile_lineHead (text : List Char) (n : Nat) (rest : List Char) :
    (lineHead text n ++ rest).takeWhile (· != '\n') =
      lineHead text n ++ rest.takeWhile (· != '\n') := by
  refine List.takeWhile_append_of_pos fun c hc => ?_
  exact List.mem_rtakeWhile_imp (p := (· != '\n')) hc

theorem dropTrailingReturns_eq_rdropWhile (text : List Char) :
    dropTrailingReturns text = text.rdropWhile (· == '\r') := by
  induction text with
  | nil => rfl
  | cons c text ih =>
    rw [dropTrailingReturns, ih]
    rcases List.eq_nil_or_concat (text.rdropWhile (· == '\r')) with hnil | ⟨kept, d, hkept⟩
    · -- All of `text` is dropped, so that `c` becomes the last character.
      have hall := List.rdropWhile_eq_nil_iff.mp hnil
      rw [hnil]
      have hdrop : (c :: text).rdropWhile (· == '\r') = [c].rdropWhile (· == '\r') := by
        rw [← List.singleton_append, List.rdropWhile, List.reverse_append,
          List.dropWhile_append_of_pos (by simpa using hall), List.rdropWhile]
      rw [hdrop, List.rdropWhile_singleton]
      simp
    · have hne : text.reverse.dropWhile (· == '\r') ≠ [] := by
        intro hnil
        rw [List.rdropWhile, hnil] at hkept
        simp at hkept
      have hdrop : (c :: text).rdropWhile (· == '\r') = c :: text.rdropWhile (· == '\r') := by
        rw [← List.singleton_append, List.rdropWhile, List.reverse_append, List.dropWhile_append]
        rw [List.rdropWhile]
        simp [hne]
      rw [hdrop, hkept]
      cases kept <;> rfl

end Text

namespace Stream

/-! ### Taking reads -/

/-- Some of the reads to come have been taken into the buffer, and nothing else has changed. -/
def Pulled (s s' : Stream) : Prop :=
  ∃ taken later, s.pending = taken ++ later ∧
    s' = { s with buffer := s.buffer ++ taken.flatten, pending := later }

/-- Filling takes reads until there are enough characters or no more reads. -/
theorem fill_go (s : Stream) (count : Nat) {pending : List (List Char)} (buffer : List Char)
    (h : ∀ read ∈ pending, read ≠ []) :
    ∃ taken later, pending = taken ++ later ∧
      (fill.go s count buffer pending).2 =
        { s with buffer := buffer ++ taken.flatten, pending := later } ∧
      (count ≤ (buffer ++ taken.flatten).length - s.index ∨ later = []) := by
  induction pending generalizing buffer with
  | nil => exact ⟨[], [], rfl, by simp [fill.go], Or.inr rfl⟩
  | cons read pending ih =>
    rw [List.forall_mem_cons] at h
    by_cases henough : count ≤ buffer.length - s.index
    · refine ⟨[], read :: pending, rfl, by simp [fill.go, henough], Or.inl ?_⟩
      simpa using henough
    · obtain ⟨taken, later, rfl, hgo, hdone⟩ := ih (buffer ++ read) h.2
      refine ⟨read :: taken, later, rfl, ?_, ?_⟩
      · rw [fill.go, if_neg henough, if_neg (by simpa using h.1), hgo]
        simp
      · simpa using hdone

theorem pulled_fill {s : Stream} (h : ∀ read ∈ s.pending, read ≠ []) (count : Nat) :
    Pulled s (s.fill count).2 ∧
      (count ≤ (s.fill count).2.buffer.length - s.index ∨ (s.fill count).2.pending = []) := by
  obtain ⟨taken, later, hpending, hgo, hdone⟩ := fill_go s count s.buffer h
  have hfill : (s.fill count).2 =
      { s with buffer := s.buffer ++ taken.flatten, pending := later } := hgo
  rw [hfill]
  exact ⟨⟨taken, later, hpending, rfl⟩, hdone⟩

/-- Filling the line takes reads until there is a line feed or no more reads. -/
theorem fillLine_go (s : Stream) {pending : List (List Char)} (buffer : List Char)
    (h : ∀ read ∈ pending, read ≠ []) :
    ∃ taken later, pending = taken ++ later ∧
      fillLine.go s buffer pending =
        { s with buffer := buffer ++ taken.flatten, pending := later } ∧
      ('\n' ∈ buffer ++ taken.flatten ∨ later = []) := by
  induction pending generalizing buffer with
  | nil => exact ⟨[], [], rfl, by simp [fillLine.go], Or.inr rfl⟩
  | cons read pending ih =>
    rw [List.forall_mem_cons] at h
    by_cases hline : '\n' ∈ buffer
    · refine ⟨[], read :: pending, rfl, by simp [fillLine.go, hline], Or.inl ?_⟩
      simpa using hline
    · obtain ⟨taken, later, rfl, hgo, hdone⟩ := ih (buffer ++ read) h.2
      refine ⟨read :: taken, later, rfl, ?_, ?_⟩
      · rw [fillLine.go, if_neg (by simpa using hline), if_neg (by simpa using h.1), hgo]
        simp
      · simpa using hdone

theorem pulled_fillLine {s : Stream} (h : ∀ read ∈ s.pending, read ≠ []) :
    Pulled s s.fillLine ∧ ('\n' ∈ s.fillLine.buffer ∨ s.fillLine.pending = []) := by
  obtain ⟨taken, later, hpending, hgo, hdone⟩ := fillLine_go s s.buffer h
  have hfill : s.fillLine = { s with buffer := s.buffer ++ taken.flatten, pending := later } := hgo
  rw [hfill]
  exact ⟨⟨taken, later, hpending, rfl⟩, hdone⟩

/-! ### Reads of one size -/

theorem cutInto_reads {size : Nat} (hsize : 0 < size) {fuel : Nat} {text : List Char}
    (h : text.length ≤ fuel) :
    (∀ read ∈ cutInto size fuel text, read ≠ []) ∧ (cutInto size fuel text).flatten = text := by
  induction fuel generalizing text with
  | zero =>
    obtain rfl : text = [] := List.length_eq_zero_iff.mp (Nat.le_zero.mp h)
    simp [cutInto]
  | succ fuel ih =>
    cases text with
    | nil => simp [cutInto]
    | cons c text =>
      have hshorter : ((c :: text).drop size).length ≤ fuel := by
        simp only [List.length_drop, List.length_cons] at h ⊢
        omega
      obtain ⟨hlater, hflatten⟩ := ih hshorter
      have hfirst : (c :: text).take size ≠ [] := by
        simp [List.take_eq_nil_iff, Nat.pos_iff_ne_zero.mp hsize]
      rw [cutInto, List.isEmpty_cons, if_neg (by decide)]
      refine ⟨List.forall_mem_cons.mpr ⟨hfirst, hlater⟩, ?_⟩
      rw [List.flatten_cons, hflatten, List.take_append_drop]

/-- Reads of a fixed size, other than zero, are not empty and are the text together. -/
theorem readsOf_reads {size : Int} (hsize : size ≠ 0) {text : List Char} (h : text ≠ []) :
    (∀ read ∈ readsOf size text, read ≠ []) ∧ (readsOf size text).flatten = text := by
  unfold readsOf
  split
  · simpa using h
  · exact cutInto_reads (by omega) (Nat.le_refl _)

/-! ### What a stream has at hand -/

/-- The stream over the text when `n` characters have been consumed.  Its buffer begins where
    the current line does, and goes as far as the text has been read. -/
structure Holds (reads : List (List Char)) (filename : Option String) (n : Nat) (s : Stream) :
    Prop where
  ne_nil : ∀ read ∈ reads, read ≠ []
  pending : s.pending <:+ reads
  consumed : n ≤ reads.flatten.length
  filename : s.filename = filename
  buffer : reads.flatten.drop (Text.lineStart reads.flatten n) = s.buffer ++ s.pending.flatten
  index : s.index = (Text.lineHead reads.flatten n).length
  index_le : s.index ≤ s.buffer.length
  line : s.line = 1 + (reads.flatten.take n).count '\n'
  column : s.column = 1 + s.index
  offset : s.offset = n

variable {reads : List (List Char)} {filename : Option String} {n : Nat} {s s' : Stream}

theorem holds_ofReads (h : ∀ read ∈ reads, read ≠ []) (filename : Option String) :
    Holds reads filename 0 (ofReads reads filename) where
  ne_nil := h
  pending := List.suffix_rfl
  consumed := Nat.zero_le _
  filename := rfl
  buffer := by simp [Text.lineStart, ofReads]
  index := by simp [Text.lineHead_zero, ofReads]
  index_le := Nat.zero_le _
  line := by simp [ofReads]
  column := rfl
  offset := rfl

theorem Holds.pending_ne_nil (h : Holds reads filename n s) : ∀ read ∈ s.pending, read ≠ [] := by
  intro read hread
  exact h.ne_nil read (h.pending.subset hread)

/-- Taking reads changes nothing that can be seen. -/
theorem Holds.pulled (h : Holds reads filename n s) (hs : Pulled s s') :
    Holds reads filename n s' := by
  obtain ⟨taken, later, hpending, rfl⟩ := hs
  have hlater : later <:+ s.pending := ⟨taken, hpending.symm⟩
  refine ⟨h.ne_nil, hlater.trans h.pending, h.consumed, h.filename, ?_, h.index, ?_, h.line,
    h.column, h.offset⟩
  · rw [h.buffer, hpending, List.flatten_append]
    simp
  · have hle := h.index_le
    simp only [List.length_append]
    omega

/-- The characters of the buffer are those of the text. -/
theorem Holds.getElem?_text (h : Holds reads filename n s) (ahead : Nat) :
    reads.flatten[n + ahead]? = (s.buffer ++ s.pending.flatten)[s.index + ahead]? := by
  have hle := Text.length_lineHead_le reads.flatten n
  rw [← h.buffer, List.getElem?_drop, h.index, Text.lineStart]
  congr 1
  omega

theorem Holds.getElem?_buffer (h : Holds reads filename n s) {ahead : Nat}
    (henough : ahead + 1 ≤ s.buffer.length - s.index ∨ s.pending = []) :
    s.buffer[s.index + ahead]? = reads.flatten[n + ahead]? := by
  rw [h.getElem?_text]
  rcases henough with henough | hall
  · rw [List.getElem?_append_left (by omega)]
  · rw [hall, List.flatten_nil, List.append_nil]

/-! ### One call -/

theorem Holds.peek (h : Holds reads filename n s) (ahead : Nat) :
    (s.peek ahead).1 = reads.flatten[n + ahead]? ∧ Holds reads filename n (s.peek ahead).2 ∧
      (s.peek ahead).2.buffer[(s.peek ahead).2.index + ahead]? = reads.flatten[n + ahead]? := by
  obtain ⟨hpulled, hdone⟩ := pulled_fill h.pending_ne_nil (ahead + 1)
  have hfilled := h.pulled hpulled
  have hindex : (s.fill (ahead + 1)).2.index = s.index := by
    rw [hfilled.index, h.index]
  rw [← hindex] at hdone
  have hbuffer := hfilled.getElem?_buffer hdone
  exact ⟨hbuffer, hfilled, hbuffer⟩

/-- A line feed is consumed: the buffer is cut behind it. -/
theorem Holds.cut (h : Holds reads filename n s) (hc : reads.flatten[n]? = some '\n')
    (hbuffer : s.buffer[s.index]? = some '\n') :
    Holds reads filename (n + 1)
      { s with buffer := s.buffer.drop (s.index + 1), index := 0, line := s.line + 1,
               column := 1, offset := s.offset + 1 } := by
  obtain ⟨hlt, -⟩ := List.getElem?_eq_some_iff.mp hbuffer
  obtain ⟨hn, -⟩ := List.getElem?_eq_some_iff.mp hc
  have hhead := Text.lineHead_succ_of_lineFeed hc
  have hle := Text.length_lineHead_le reads.flatten n
  refine ⟨h.ne_nil, h.pending, hn, h.filename, ?_, ?_, Nat.zero_le _, ?_, rfl, ?_⟩
  · have hstart : Text.lineStart reads.flatten (n + 1) =
        Text.lineStart reads.flatten n + (s.index + 1) := by
      rw [Text.lineStart, hhead, Text.lineStart, h.index, List.length_nil]
      omega
    rw [hstart, ← List.drop_drop, h.buffer, List.drop_append_of_le_length (by omega)]
  · rw [hhead]
    rfl
  · have hline := h.line
    rw [List.take_add_one, hc, Option.toList_some, List.count_append, List.count_singleton_self]
    dsimp only
    omega
  · have hoffset := h.offset
    dsimp only
    omega

/-- Any other character is consumed: the buffer stays. -/
theorem Holds.step {c : Char} (h : Holds reads filename n s) (hc : reads.flatten[n]? = some c)
    (hne : c ≠ '\n') (hbuffer : s.buffer[s.index]? = some c) :
    Holds reads filename (n + 1)
      { s with index := s.index + 1, column := s.column + 1, offset := s.offset + 1 } := by
  obtain ⟨hlt, -⟩ := List.getElem?_eq_some_iff.mp hbuffer
  obtain ⟨hn, -⟩ := List.getElem?_eq_some_iff.mp hc
  have hhead := Text.lineHead_succ hc hne
  refine ⟨h.ne_nil, h.pending, hn, h.filename, ?_, ?_, hlt, ?_, ?_, ?_⟩
  · have hstart : Text.lineStart reads.flatten (n + 1) = Text.lineStart reads.flatten n := by
      rw [Text.lineStart, hhead, Text.lineStart, List.length_append, List.length_singleton]
      omega
    rw [hstart]
    exact h.buffer
  · rw [hhead, List.length_append, List.length_singleton, h.index]
  · rw [List.take_add_one, hc, Option.toList_some, List.count_append,
      List.count_singleton, beq_false_of_ne hne]
    exact h.line
  · have hcolumn := h.column
    dsimp only
    omega
  · have hoffset := h.offset
    dsimp only
    omega

/-- At the end of the text there are no reads left, and asking for more changes nothing. -/
theorem Holds.advance_end (h : Holds reads filename n s) (hn : reads.flatten[n]? = none) :
    s.advance = (none, s) := by
  have hpending : s.pending = [] := by
    have hempty : s.pending.flatten = [] := by
      have hlength := congrArg List.length h.buffer
      have hle := List.getElem?_eq_none_iff.mp hn
      have hhead := Text.length_lineHead_le reads.flatten n
      have hconsumed := h.consumed
      have hindex := h.index_le
      rw [List.length_drop, Text.lineStart, List.length_append, ← h.index] at hlength
      rw [← h.index] at hhead
      exact List.length_eq_zero_iff.mp (by omega)
    refine List.eq_nil_iff_forall_not_mem.mpr fun read hread => ?_
    exact h.pending_ne_nil read hread (List.flatten_eq_nil_iff.mp hempty read hread)
  have hfill : (s.fill 1).2 = s := by
    rw [fill, hpending]
    cases s
    simp_all [fill.go]
  have hpeek : s.peek 0 = (none, s) := by
    have hnone := (h.peek 0).1
    rw [Nat.add_zero, hn] at hnone
    exact Prod.ext hnone hfill
  rw [advance, hpeek]

theorem Holds.advance (h : Holds reads filename n s) {c : Char} (hc : reads.flatten[n]? = some c) :
    s.advance.1 = some c ∧ Holds reads filename (n + 1) s.advance.2 := by
  obtain ⟨hfirst, hheld, hbuffer⟩ := h.peek 0
  simp only [Nat.add_zero, hc] at hfirst hbuffer
  have hpeek : s.peek 0 = (some c, (s.peek 0).2) := Prod.ext hfirst rfl
  rw [Stream.advance, hpeek]
  by_cases hline : c = '\n'
  · subst hline
    exact ⟨rfl, hheld.cut hc hbuffer⟩
  · dsimp only
    rw [if_neg hline]
    exact ⟨rfl, hheld.step hc hline hbuffer⟩

theorem Holds.location (h : Holds reads filename n s) (length : Int) :
    s.location length = Text.locationAt reads.flatten filename n length := by
  rw [Stream.location, Text.locationAt, h.line, h.column, h.offset, h.filename, h.index]
  simp

theorem Holds.lineText (h : Holds reads filename n s) :
    s.lineText.1 = Text.currentLine reads.flatten n ∧ Holds reads filename n s.lineText.2 := by
  obtain ⟨hpulled, hdone⟩ := pulled_fillLine h.pending_ne_nil
  have hfilled := h.pulled hpulled
  refine ⟨?_, hfilled⟩
  -- A line feed in the buffer ends the line there; without one the buffer is all there is.
  have hline : s.fillLine.buffer.takeWhile (· != '\n') =
      (reads.flatten.drop (Text.lineStart reads.flatten n)).takeWhile (· != '\n') := by
    rw [hfilled.buffer]
    rcases hdone with hfeed | hall
    · rw [List.takeWhile_append, if_neg]
      intro hlength
      have hself : s.fillLine.buffer.takeWhile (· != '\n') = s.fillLine.buffer :=
        (List.takeWhile_prefix _).eq_of_length hlength
      have hnot := List.takeWhile_eq_self_iff.mp hself '\n' hfeed
      simp at hnot
    · rw [hall, List.flatten_nil, List.append_nil]
  change Text.dropTrailingReturns (Text.firstLine s.fillLine.buffer) = _
  rw [Text.dropTrailingReturns_eq_rdropWhile, Text.firstLine, hline,
    Text.drop_lineStart h.consumed, Text.takeWhile_lineHead, Text.currentLine]

/-- **One call.**  A stream answers as the plain reader does, and stays in step with it. -/
theorem Holds.answer (h : Holds reads filename n s) (call : Call) :
    (answer call s).1 = (Text.answer reads.flatten filename call n).1 ∧
      Holds reads filename (Text.answer reads.flatten filename call n).2 (answer call s).2 := by
  cases call with
  | peek ahead =>
    obtain ⟨hanswer, hheld, -⟩ := h.peek ahead
    exact ⟨congrArg Answer.ahead hanswer, hheld⟩
  | advance =>
    cases hc : reads.flatten[n]? with
    | none =>
      have hend := h.advance_end hc
      simp only [Stream.answer, Text.answer, hc, hend]
      exact ⟨trivial, h⟩
    | some c =>
      obtain ⟨hanswer, hheld⟩ := h.advance hc
      have hadvance : s.advance = (some c, s.advance.2) := Prod.ext hanswer rfl
      simp only [Stream.answer, Text.answer, hc]
      rw [hadvance]
      exact ⟨rfl, hheld⟩
  | atEnd =>
    obtain ⟨hanswer, hheld, -⟩ := h.peek 0
    refine ⟨congrArg Answer.atEnd ?_, hheld⟩
    change (s.peek 0).1.isNone = _
    rw [hanswer, Nat.add_zero, Bool.eq_iff_iff, Option.isNone_iff_eq_none,
      List.getElem?_eq_none_iff, decide_eq_true_iff]
  | location length => exact ⟨congrArg Answer.location (h.location length), h⟩
  | lineText =>
    obtain ⟨hanswer, hheld⟩ := h.lineText
    exact ⟨congrArg Answer.lineText hanswer, hheld⟩

/-! ### Any calls in any order -/

theorem Holds.run (h : Holds reads filename n s) (calls : List Call) :
    (run calls s).1 = (Text.run reads.flatten filename calls n).1 ∧
      Holds reads filename (Text.run reads.flatten filename calls n).2 (run calls s).2 := by
  induction calls generalizing n s with
  | nil => exact ⟨rfl, h⟩
  | cons call calls ih =>
    obtain ⟨hanswer, hnext⟩ := h.answer call
    obtain ⟨hlater, hlast⟩ := ih hnext
    exact ⟨congrArg₂ List.cons hanswer hlater, hlast⟩

/-- **Reads make no difference.**  Whatever is asked of a stream, in whatever order, is
    answered from the whole text and the number of characters consumed.  The buffer is the
    text from the start of the current line to where it has been read, and consuming at the
    end of the text changes nothing. -/
theorem run_eq_run (h : ∀ read ∈ reads, read ≠ []) (filename : Option String)
    (calls : List Call) :
    (run calls (ofReads reads filename)).1 = (Text.run reads.flatten filename calls 0).1 ∧
      (run calls (ofReads reads filename)).2.pending <:+ reads ∧
      reads.flatten.drop
          (Text.lineStart reads.flatten (Text.run reads.flatten filename calls 0).2) =
        (run calls (ofReads reads filename)).2.buffer ++
          (run calls (ofReads reads filename)).2.pending.flatten ∧
      ((Text.run reads.flatten filename calls 0).2 = reads.flatten.length →
        (run calls (ofReads reads filename)).2.advance =
          (none, (run calls (ofReads reads filename)).2)) := by
  have hstart := holds_ofReads h filename
  obtain ⟨hanswers, hlast⟩ := hstart.run calls
  refine ⟨hanswers, hlast.pending, hlast.buffer, fun hend => ?_⟩
  exact hlast.advance_end (List.getElem?_eq_none_iff.mpr (Nat.le_of_eq hend.symm))

/-- Reads of two characters each, one of which ends between a carriage return and its line
    feed; the line is asked for before and after. -/
theorem run_eq_run_lineEnd :
    (∀ read ∈ readsOf 2 ['a', '\r', '\n', 'b', '\r'], read ≠ []) ∧
      (run [.peek 3, .advance, .lineText, .advance, .advance, .location 1, .lineText, .advance,
        .advance, .atEnd, .advance] (ofReads (readsOf 2 ['a', '\r', '\n', 'b', '\r']) none)).1 =
        [.ahead (some 'b'), .consumed 'a', .lineText ['a'], .consumed '\r', .consumed '\n',
          .location { line := 2, column := 1, offset := 3, length := 1 }, .lineText ['b'],
          .consumed 'b', .consumed '\r', .atEnd true, .pastEnd] := by
  have hsize : (2 : Int) ≠ 0 := by decide
  have hreads := (readsOf_reads hsize (List.cons_ne_nil 'a' ['\r', '\n', 'b', '\r'])).1
  exact ⟨hreads, (run_eq_run hreads none _).1.trans rfl⟩

end Stream

end Juxta
