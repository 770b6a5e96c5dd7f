/-
  Juxta/Proofs/Diff/Reading.lean
  ==============================
  **Diffs read as patches** — where a line feed ends every line, and nothing else does, the text of
  a diff is read as the hunks that were written (`readPatch?_unified`), and applied to the first
  text it makes the second (`patched?_unified`).  Each part is read as it was written:

    * `feedLines_flatten`: lines are found again in their text;
    * `heading?_heading`: the heading of a hunk;
    * `hunksFrom?_written`: as many marked lines as the heading announces;
    * `hunksFrom?_hunks`: one hunk after another.
-/
import Juxta.Proofs.Diff.Hunks
import Juxta.Proofs.Token.Lexeme

namespace Juxta.Diff

/-! ### Lines -/

/-- A line feed ends the text, and there is no other. -/
def IsLine (text : List Char) : Prop := ∃ body, text = body ++ ['\n'] ∧ '\n' ∉ body

theorem flatten_feedLines (text : List Char) : (feedLines text).flatten = text := by
  induction text with
  | nil => rfl
  | cons c text ih =>
    rw [feedLines]
    split
    · rw [List.flatten_cons, ih, List.singleton_append]
    · rw [Text.flatten_consLine, ih]

theorem feedLines_append {line : List Char} (h : IsLine line) (rest : List Char) :
    feedLines (line ++ rest) = line :: feedLines rest := by
  obtain ⟨body, rfl, hbody⟩ := h
  induction body with
  | nil => rfl
  | cons c body ih =>
    simp only [List.mem_cons, not_or] at hbody
    obtain ⟨hc, hrest⟩ := hbody
    rw [List.cons_append, List.cons_append, feedLines, if_neg (Ne.symm hc), ih hrest]
    rfl

/-- **Lines are found again in their text.** -/
theorem feedLines_flatten {lines : List (List Char)} (h : ∀ line ∈ lines, IsLine line) :
    feedLines lines.flatten = lines := by
  induction lines with
  | nil => rfl
  | cons line lines ih =>
    obtain ⟨hline, hlines⟩ := List.forall_mem_cons.mp h
    rw [List.flatten_cons, feedLines_append hline, ih hlines]

theorem IsLine.endsInFeed {line : List Char} (h : IsLine line) : endsInFeed line = true := by
  obtain ⟨body, rfl, -⟩ := h
  simp [Diff.endsInFeed]

theorem isLine_of_endsInFeed {line : List Char} (hbody : '\n' ∉ line.dropLast)
    (h : endsInFeed line = true) : IsLine line := by
  obtain ⟨body, rfl⟩ := List.getLast?_eq_some_iff.mp (beq_iff_eq.mp h)
  rw [List.dropLast_concat] at hbody
  exact ⟨body, rfl, hbody⟩

theorem IsLine.ne_nil {line : List Char} (h : IsLine line) : line ≠ [] := by
  obtain ⟨body, rfl, -⟩ := h
  exact List.append_ne_nil_of_right_ne_nil _ (List.cons_ne_nil _ _)

theorem endsInFeed_append (front : List Char) {text : List Char} (h : text ≠ []) :
    endsInFeed (front ++ text) = endsInFeed text := by
  rw [endsInFeed, endsInFeed, List.getLast?_append, List.getLast?_eq_some_getLast h,
    Option.some_or]

/-- Lines end in a line feed if the last of them does. -/
theorem endsInFeed_flatten {lines : List (List Char)} (hne : lines ≠ [])
    (hlast : lines.getLast hne ≠ []) :
    endsInFeed lines.flatten = endsInFeed (lines.getLast hne) := by
  have hsplit : lines.flatten = lines.dropLast.flatten ++ lines.getLast hne := by
    rw [← List.flatten_concat, List.dropLast_concat_getLast]
  rw [hsplit, endsInFeed_append _ hlast]

/-- Every line of a text that ends in a line feed does. -/
theorem isLine_of_mem_feedLines {text : List Char} (h : endsInFeed text = true) :
    ∀ line ∈ feedLines text, IsLine line := by
  induction text with
  | nil => nofun
  | cons c text ih =>
    have hrest (hne : text ≠ []) : endsInFeed text = true := by
      obtain ⟨d, text, rfl⟩ := List.exists_cons_of_ne_nil hne
      exact h
    rw [feedLines]
    split
    next hc =>
      refine List.forall_mem_cons.mpr ⟨⟨[], congrArg ([·]) hc, List.not_mem_nil⟩, ?_⟩
      cases text with
      | nil => nofun
      | cons d text => exact ih (hrest (List.cons_ne_nil _ _))
    next hc =>
      cases hlines : feedLines text with
      | nil =>
        -- The text is this character alone, which does not end it.
        obtain rfl : text = [] := by rw [← flatten_feedLines text, hlines, List.flatten_nil]
        exact absurd (Option.some.inj (beq_iff_eq.mp h)) hc
      | cons line lines =>
        have hne : text ≠ [] := by
          rintro rfl
          cases hlines
        have hall := ih (hrest hne)
        rw [hlines] at hall
        obtain ⟨⟨body, rfl, hbody⟩, hmore⟩ := List.forall_mem_cons.mp hall
        refine List.forall_mem_cons.mpr ⟨⟨c :: body, rfl, ?_⟩, hmore⟩
        exact List.not_mem_cons_of_ne_of_not_mem (Ne.symm hc) hbody

theorem tail_consLine (c : Char) (lines : List (List Char)) :
    (Text.consLine c lines).tail = lines.tail := by
  cases lines <;> rfl

theorem head?_of_mem_consLine {c : Char} {line : List Char} {lines : List (List Char)}
    (h : line ∈ Text.consLine c lines) : line.head? = some c ∨ line ∈ lines.tail := by
  cases lines with
  | nil => exact .inl (by rw [List.mem_singleton.mp h]; rfl)
  | cons first lines =>
    rcases List.mem_cons.mp h with rfl | h
    · exact .inl rfl
    · exact .inr h

theorem tail_feedLines_append {piece : List Char} (h : '\n' ∉ piece) (rest : List Char) :
    (feedLines (piece ++ rest)).tail = (feedLines rest).tail := by
  induction piece with
  | nil => rfl
  | cons c piece ih =>
    simp only [List.mem_cons, not_or] at h
    rw [List.cons_append, feedLines, if_neg (Ne.symm h.1), tail_consLine, ih h.2]

/-- **A line begins where a piece of the text begins**, if a line feed only ends a piece. -/
theorem exists_head?_of_mem_feedLines {pieces : List (List Char)}
    (h : ∀ piece ∈ pieces, piece ≠ [] ∧ '\n' ∉ piece.dropLast) :
    ∀ line ∈ feedLines pieces.flatten, ∃ piece ∈ pieces, line.head? = piece.head? := by
  induction pieces with
  | nil => nofun
  | cons piece pieces ih =>
    obtain ⟨⟨hne, hfeed⟩, hpieces⟩ := List.forall_mem_cons.mp h
    have hlater {line : List Char} (hline : line ∈ feedLines pieces.flatten) :
        ∃ piece' ∈ piece :: pieces, line.head? = piece'.head? := by
      obtain ⟨piece', hmem, hhead⟩ := ih hpieces line hline
      exact ⟨piece', List.mem_cons_of_mem _ hmem, hhead⟩
    intro line hline
    rw [List.flatten_cons] at hline
    have hsplit := List.dropLast_concat_getLast hne
    by_cases hlast : piece.getLast hne = '\n'
    · rw [hlast] at hsplit
      rw [feedLines_append ⟨_, hsplit.symm, hfeed⟩] at hline
      rcases List.mem_cons.mp hline with rfl | hline
      · exact ⟨_, List.mem_cons_self, rfl⟩
      · exact hlater hline
    · -- The next piece goes on with the line that this one begins.
      have hnone : '\n' ∉ piece := by
        rw [← hsplit]
        exact List.not_mem_append hfeed (fun h => hlast (List.mem_singleton.mp h).symm)
      obtain ⟨c, body, rfl⟩ := List.exists_cons_of_ne_nil hne
      simp only [List.mem_cons, not_or] at hnone
      rw [List.cons_append, feedLines, if_neg (Ne.symm hnone.1)] at hline
      rcases head?_of_mem_consLine hline with hhead | htail
      · exact ⟨_, List.mem_cons_self, hhead⟩
      · rw [tail_feedLines_append hnone.2] at htail
        exact hlater (List.mem_of_mem_tail htail)

theorem withoutRemarks_eq_self {lines : List (List Char)}
    (h : ∀ line ∈ lines, line.head? ≠ some '\\') : withoutRemarks lines = lines := by
  fun_induction withoutRemarks lines with
  | case1 line next lines hnext ih => exact absurd hnext (h next (by simp))
  | case2 line next lines hnext ih => rw [ih (List.forall_mem_cons.mp h).2]
  | case3 => rfl

/-! ### Headings -/

theorem isDigit_of_mem_repr {n : Nat} {c : Char} (h : c ∈ n.repr.toList) : c.isDigit = true := by
  rw [Nat.toList_repr] at h
  exact Nat.isDigit_of_mem_toDigits (by decide) (by decide) h

theorem natural?_repr (n : Nat) : natural? n.repr.toList = some n := by
  have hdigits : n.repr.toList.all Char.isDigit = true :=
    List.all_eq_true.mpr fun c hc => isDigit_of_mem_repr hc
  have hne : n.repr.toList ≠ [] := by
    rw [Nat.toList_repr]
    exact Nat.toDigits_ne_nil
  have hvalue : Nat.ofDigitChars 10 n.repr.toList 0 = n := by
    rw [Nat.toList_repr]
    exact Nat.ofDigitChars_ten_toDigits
  have hempty : n.repr.toList.isEmpty = false := by rwa [List.isEmpty_eq_false_iff]
  rw [natural?, hdigits, hvalue, hempty]
  rfl

theorem bne_of_mem_repr {n : Nat} {a c : Char} (ha : a.isDigit = false)
    (hc : c ∈ n.repr.toList) : (c != a) = true := by
  rw [bne_iff_ne]
  rintro rfl
  exact Bool.false_ne_true (ha.symm.trans (isDigit_of_mem_repr hc))

/-- The number of the first line of a range that is written with more than one or none. -/
theorem rangeOf?_eq (start count : Nat) :
    rangeOf? (if count = 0 then start else start + 1) count = some (start, count) := by
  unfold rangeOf?
  split
  next h => rw [h]
  next h => rw [if_neg (Nat.succ_ne_zero start), Nat.add_sub_cancel]

/-- A range is read as it was written. -/
theorem range?_rangeText (start count : Nat) :
    range? (rangeText start count).toList = some (start, count) := by
  have hread (n : Nat) {rest : List Char} (hrest : Text.Stops (· != ',') rest) :
      (n.repr.toList ++ rest).takeWhile (· != ',') = n.repr.toList ∧
        (n.repr.toList ++ rest).dropWhile (· != ',') = rest := by
    have hrun : ∀ c ∈ n.repr.toList, (c != ',') = true := fun c hc =>
      bne_of_mem_repr (by decide) hc
    exact ⟨Text.takeWhile_append hrun hrest, Text.dropWhile_append hrun hrest⟩
  unfold rangeText
  split
  next h =>
    obtain ⟨htake, hdrop⟩ := hread (start + 1) (Text.stops_nil _)
    rw [List.append_nil] at htake hdrop
    unfold range?
    rw [htake, hdrop, natural?_repr, h]
    rfl
  next h =>
    have hcomma : Text.Stops (· != ',') (',' :: count.repr.toList) :=
      Text.stops_cons.mpr (by decide)
    obtain ⟨htake, hdrop⟩ := hread (if count = 0 then start else start + 1) hcomma
    rw [String.toList_append, String.toList_append, List.append_assoc]
    change range? (_ ++ ',' :: count.repr.toList) = _
    unfold range?
    simp only [htake, hdrop, natural?_repr, Option.bind_some, rangeOf?_eq]

/-- The heading of a hunk. -/
def Hunk.heading (h : Hunk) : List Char :=
  '@' :: '@' :: ' ' :: '-' :: ((rangeText h.oldStart h.oldCount).toList ++
    ' ' :: '+' :: ((rangeText h.newStart h.newCount).toList ++ [' ', '@', '@', '\n']))

theorem bne_of_mem_rangeText {start count : Nat} {a c : Char} (ha : a.isDigit = false)
    (hcomma : ',' ≠ a) (hc : c ∈ (rangeText start count).toList) : (c != a) = true := by
  unfold rangeText at hc
  split at hc
  · exact bne_of_mem_repr ha hc
  · rw [String.toList_append, String.toList_append, List.mem_append, List.mem_append] at hc
    rcases hc with (hc | hc) | hc
    · exact bne_of_mem_repr ha hc
    · obtain rfl : c = ',' := List.mem_singleton.mp hc
      exact bne_iff_ne.mpr hcomma
    · exact bne_of_mem_repr ha hc

/-- **A heading is read as it was written.** -/
theorem heading?_heading (h : Hunk) :
    heading? h.heading = some (⟨h.oldStart, h.newStart, []⟩, h.oldCount, h.newCount) := by
  have hread (start count : Nat) {rest : List Char} (hrest : Text.Stops (· != ' ') rest) :
      ((rangeText start count).toList ++ rest).takeWhile (· != ' ') =
          (rangeText start count).toList ∧
        ((rangeText start count).toList ++ rest).dropWhile (· != ' ') = rest := by
    have hrun : ∀ c ∈ (rangeText start count).toList, (c != ' ') = true := fun c hc =>
      bne_of_mem_rangeText (by decide) (by decide) hc
    exact ⟨Text.takeWhile_append hrun hrest, Text.dropWhile_append hrun hrest⟩
  have hplus : Text.Stops (· != ' ')
      (' ' :: '+' :: ((rangeText h.newStart h.newCount).toList ++ [' ', '@', '@', '\n'])) :=
    Text.stops_cons.mpr (by decide)
  have hclose : Text.Stops (· != ' ') [' ', '@', '@', '\n'] := Text.stops_cons.mpr (by decide)
  obtain ⟨htake, hdrop⟩ := hread h.oldStart h.oldCount hplus
  obtain ⟨htake', hdrop'⟩ := hread h.newStart h.newCount hclose
  simp only [Hunk.heading, heading?, htake, hdrop, htake', hdrop', if_true, range?_rangeText,
    Option.bind_some, Option.map_some]

/-! ### Hunks -/

/-- A marked line as it is written. -/
def written (line : Mark × String) : List Char := line.1.char :: line.2.toList

/-- The heading of a hunk and its lines. -/
def Hunk.writtenLines (h : Hunk) : List (List Char) := h.heading :: h.lines.map written

theorem toList_text (h : Hunk) : h.text.toList = h.writtenLines.flatten := by
  simp [Hunk.text, Hunk.writtenLines, Hunk.heading, String.toList_join, List.flatMap_def,
    Function.comp_def]
  rfl

theorem marked?_written (line : Mark × String) : marked? (written line) = some line := by
  obtain ⟨m, text⟩ := line
  cases m <;> simp [marked?, written, Mark.ofChar?, Mark.char]

/-- **Marked lines are read as they were written**, as many as were announced. -/
theorem hunksFrom?_written (lines : List (Mark × String)) (h : Hunk) (rest : List (List Char)) :
    hunksFrom? h (lines.countP (·.1 != .new)) (lines.countP (·.1 != .old))
        (lines.map written ++ rest) = hunksFrom? (h.extend lines) 0 0 rest := by
  induction lines generalizing h with
  | nil => simp [Hunk.extend]
  | cons line lines ih =>
    have holds : (line :: lines).countP (·.1 != .new) =
        line.1.olds + lines.countP (·.1 != .new) := by
      rw [List.countP_cons, Mark.olds, Nat.add_comm]
    have hnews : (line :: lines).countP (·.1 != .old) =
        line.1.news + lines.countP (·.1 != .old) := by
      rw [List.countP_cons, Mark.news, Nat.add_comm]
    have hsome : 0 < line.1.olds + line.1.news := by cases line.1 <;> decide
    have hcoming : ¬ (line.1.olds + lines.countP (·.1 != .new) = 0 ∧
        line.1.news + lines.countP (·.1 != .old) = 0) := by omega
    have hextend : (h.extend [line]).extend lines = h.extend (line :: lines) := by
      simp [Hunk.extend]
    rw [holds, hnews, List.map_cons, List.cons_append, hunksFrom?, if_neg hcoming, marked?_written,
      Option.bind_some, if_pos ⟨Nat.le_add_right .., Nat.le_add_right ..⟩, Nat.add_sub_cancel_left,
      Nat.add_sub_cancel_left, ih, hextend]

/-- **Hunks are read as they were written.** -/
theorem hunksFrom?_hunks (h : Hunk) (hs : List Hunk) :
    hunksFrom? h 0 0 (hs.flatMap Hunk.writtenLines) = some (h :: hs) := by
  induction hs generalizing h with
  | nil => rfl
  | cons next hs ih =>
    have hlines := hunksFrom?_written next.lines ⟨next.oldStart, next.newStart, []⟩
      (hs.flatMap Hunk.writtenLines)
    have hnext : Hunk.extend ⟨next.oldStart, next.newStart, []⟩ next.lines = next := rfl
    rw [List.flatMap_cons, Hunk.writtenLines, List.cons_append, hunksFrom?, if_pos ⟨rfl, rfl⟩,
      heading?_heading, Option.bind_some, Hunk.oldCount, Hunk.newCount]
    dsimp only
    rw [hlines, hnext, ih]
    rfl

/-! ### Diffs -/

/-- The first header line is `--- a/` with the name, and the second one `+++ b/` with it. -/
def headerLine (front : String) (name : String) : List Char :=
  front.toList ++ (name.toList ++ ['\n'])

/-- The pieces that a diff is put together of. -/
def diffPieces (name : String) (hs : List Hunk) : List (List Char) :=
  headerLine "--- a/" name :: headerLine "+++ b/" name :: hs.flatMap Hunk.writtenLines

variable {name old new : String}

theorem toList_unified (h : hunks (script (linesOf old) (linesOf new)) ≠ []) :
    (unified name old new).toList =
      (diffPieces name (hunks (script (linesOf old) (linesOf new)))).flatten := by
  unfold unified
  split
  next hnil => exact absurd hnil h
  next found =>
    have hjoin (hs : List Hunk) : (String.join (hs.map Hunk.text)).toList =
        (hs.flatMap Hunk.writtenLines).flatten := by
      simp [String.toList_join, toList_text, List.flatMap_def,
        Function.comp_def, List.map_map, List.flatten_flatten]
    simp [diffPieces, headerLine, hjoin]

theorem hunks_ne_nil_of_ne (h : old ≠ new) :
    hunks (script (linesOf old) (linesOf new)) ≠ [] := by
  intro hnil
  have hempty : unified "" old new = "" := by rw [unified, hnil]
  exact h (eq_of_unified_eq_empty hempty)

theorem isLine_headerLine {front : String} (hfront : '\n' ∉ front.toList)
    (hname : '\n' ∉ name.toList) : IsLine (headerLine front name) :=
  ⟨front.toList ++ name.toList, (List.append_assoc ..).symm, List.not_mem_append hfront hname⟩

theorem Hunk.isLine_heading (h : Hunk) : IsLine h.heading := by
  have hrange (start count : Nat) : '\n' ∉ (rangeText start count).toList := fun hmem =>
    bne_iff_ne.mp (bne_of_mem_rangeText (by decide) (by decide) hmem) rfl
  refine ⟨'@' :: '@' :: ' ' :: '-' :: ((rangeText h.oldStart h.oldCount).toList ++
    ' ' :: '+' :: ((rangeText h.newStart h.newCount).toList ++ [' ', '@', '@'])), ?_, ?_⟩
  · simp [Hunk.heading]
  · simp [hrange]

theorem forall_mem_diffPieces {P : List Char → Prop} {hs : List Hunk}
    (hold : P (headerLine "--- a/" name)) (hnew : P (headerLine "+++ b/" name))
    (hheading : ∀ h : Hunk, P h.heading)
    (hlines : ∀ h ∈ hs, ∀ line ∈ h.lines, P (written line)) :
    ∀ piece ∈ diffPieces name hs, P piece := by
  refine List.forall_mem_cons.mpr ⟨hold, List.forall_mem_cons.mpr ⟨hnew, ?_⟩⟩
  intro piece hpiece
  obtain ⟨h, hh, hpiece⟩ := List.mem_flatMap.mp hpiece
  rcases List.mem_cons.mp hpiece with rfl | hpiece
  · exact hheading h
  · obtain ⟨line, hline, rfl⟩ := List.mem_map.mp hpiece
    exact hlines h hh line hline

/-- No piece of a diff begins like a remark. -/
theorem head?_of_mem_diffPieces {hs : List Hunk} :
    ∀ piece ∈ diffPieces name hs, piece.head? ≠ some '\\' := by
  refine forall_mem_diffPieces ?_ ?_ ?_ ?_
  · simp [headerLine]
  · simp [headerLine]
  · simp [Hunk.heading]
  · rintro - - ⟨m, text⟩ -
    cases m <;> simp [written, Mark.char]

/-- **A diff is read as the hunks that it shows**, if a line feed ends each of their lines. -/
theorem readPatch?_unified (hname : '\n' ∉ name.toList)
    (hold : ∀ line ∈ linesOf old, IsLine line.toList)
    (hnew : ∀ line ∈ linesOf new, IsLine line.toList) (hne : old ≠ new) :
    readPatch? (unified name old new).toList =
      some (hunks (script (linesOf old) (linesOf new))) := by
  have hhunks := hunks_ne_nil_of_ne hne
  have hlines := forall_mem_hunks hold hnew
  rw [toList_unified hhunks]
  generalize hunks (script (linesOf old) (linesOf new)) = hs at hhunks hlines
  have hpieces : ∀ piece ∈ diffPieces name hs, IsLine piece := by
    refine forall_mem_diffPieces (isLine_headerLine (by decide) hname)
      (isLine_headerLine (by decide) hname) Hunk.isLine_heading fun h hh line hline => ?_
    obtain ⟨body, hbody, hfeed⟩ := hlines h hh line hline
    refine ⟨line.1.char :: body, congrArg (line.1.char :: ·) hbody, ?_⟩
    exact List.not_mem_cons_of_ne_of_not_mem (by cases line.1 <;> decide) hfeed
  obtain ⟨h, hs, rfl⟩ := List.exists_cons_of_ne_nil hhunks
  have hends : endsInFeed (diffPieces name (h :: hs)).flatten = true := by
    have hlast := hpieces _ (List.getLast_mem (List.cons_ne_nil _ _))
    exact (endsInFeed_flatten (List.cons_ne_nil _ _) hlast.ne_nil).trans hlast.endsInFeed
  have hread := hunksFrom?_written h.lines ⟨h.oldStart, h.newStart, []⟩
    (hs.flatMap Hunk.writtenLines)
  have hfirst : Hunk.extend ⟨h.oldStart, h.newStart, []⟩ h.lines = h := rfl
  rw [hfirst, hunksFrom?_hunks] at hread
  have hheaders : (['-', '-', '-', ' '].isPrefixOf (headerLine "--- a/" name) &&
      ['+', '+', '+', ' '].isPrefixOf (headerLine "+++ b/" name)) = true := by
    simp [headerLine]
  rw [readPatch?, hends, feedLines_flatten hpieces,
    withoutRemarks_eq_self head?_of_mem_diffPieces]
  simp only [diffPieces, List.flatMap_cons, Hunk.writtenLines, List.cons_append, hheaders, if_true,
    heading?_heading, Option.bind_some]
  exact hread

theorem forall_mem_linesOf {P : List Char → Prop} {text : String} :
    (∀ line ∈ linesOf text, P line.toList) ↔ ∀ line ∈ Text.splitLines text.toList, P line := by
  simp [linesOf]

theorem join_linesOf (text : String) : String.join (linesOf text) = text := by
  apply String.toList_injective
  have hchars : ((linesOf text).map String.toList).flatten = text.toList := by
    rw [linesOf, List.map_map]
    simp [Function.comp_def, Text.flatten_splitLines]
  rw [String.toList_join, List.flatMap_def, hchars]

/-- **A diff is a patch that makes the second text of the first**, if no line ends but at a line
    feed, and all do. -/
theorem patched?_unified (hname : '\n' ∉ name.toList)
    (hold : ∀ line ∈ linesOf old, IsLine line.toList)
    (hnew : ∀ line ∈ linesOf new, IsLine line.toList) (hne : old ≠ new) :
    patched? old (unified name old new) = some new := by
  have hsource : (feedLines old.toList).map String.ofList = linesOf old := by
    have hsame := feedLines_flatten (forall_mem_linesOf.mp hold)
    rw [Text.flatten_splitLines] at hsame
    rw [hsame, linesOf]
  have hscript := applyHunks_hunks (script (linesOf old) (linesOf new))
  rw [(flatMap_script _ _).1, (flatMap_script _ _).2] at hscript
  have hends : (linesOf new).dropLast.all (endsInFeed ·.toList) = true :=
    List.all_eq_true.mpr fun line hline => (hnew line (List.dropLast_subset _ hline)).endsInFeed
  rw [patched?, readPatch?_unified hname hold hnew hne, Option.bind_some, hsource, hscript,
    Option.bind_some, if_pos hends, join_linesOf]

end Juxta.Diff
