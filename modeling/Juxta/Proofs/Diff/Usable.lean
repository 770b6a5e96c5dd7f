/-
  Juxta/Proofs/Diff/Usable.lean
  =============================
  **Which diffs can be used** — the diff from a program to its canonical text is a patch that makes
  the one of the other if every line of the program ends in a line feed.  It is none in two cases:

    * the last line has no line feed, and nothing in the diff says so: what is written behind this
      line becomes a part of it (`patched?_ne_of_not_endsInFeed`);
    * a string has a line boundary that is no line feed, at which the diff is cut and a patch is
      not.

  The layout writes no boundary but line feeds, so that it is the program alone that decides
  (`Program.diff_patches`).
-/
import Juxta.Proofs.Diff.Reading
import Juxta.Proofs.Layout.Returns

namespace Juxta

namespace Diff

variable {name old new : String}

/-! ### A last line without a line feed -/

/-- No line of a text has a line feed but at its end. -/
theorem not_mem_dropLast_of_mem_splitLines (text : List Char) :
    ∀ line ∈ Text.splitLines text, line ≠ [] ∧ '\n' ∉ line.dropLast := by
  fun_induction Text.splitLines text with
  | case1 => exact List.forall_mem_nil _
  | case2 text ih => exact List.forall_mem_cons.mpr ⟨by decide, ih⟩
  | case3 c text _ _ ih => exact List.forall_mem_cons.mpr ⟨by simp, ih⟩
  | case4 c text _ hc ih =>
    have hfeed : '\n' ≠ c := by
      rintro rfl
      exact hc (by decide)
    cases hlines : Text.splitLines text with
    | nil => exact List.forall_mem_singleton.mpr (by simp)
    | cons line lines =>
      rw [hlines] at ih
      obtain ⟨⟨hne, hline⟩, hmore⟩ := List.forall_mem_cons.mp ih
      refine List.forall_mem_cons.mpr ⟨⟨List.cons_ne_nil _ _, ?_⟩, hmore⟩
      rw [List.dropLast_cons_of_ne_nil hne]
      exact List.not_mem_cons_of_ne_of_not_mem hfeed hline

/-- Line feeds end all lines of a text if they end its last line and the others. -/
theorem isLine_of_mem_linesOf {text : String} (hsome : text.toList ≠ [])
    (hlines : ∀ line ∈ (linesOf text).dropLast, endsInFeed line.toList = true)
    (htext : endsInFeed text.toList = true) : ∀ line ∈ linesOf text, IsLine line.toList := by
  have hplain := not_mem_dropLast_of_mem_splitLines text.toList
  have hsplit : Text.splitLines text.toList ≠ [] := by
    intro hnil
    exact hsome (by rw [← Text.flatten_splitLines text.toList, hnil, List.flatten_nil])
  have hlast : endsInFeed ((Text.splitLines text.toList).getLast hsplit) = true := by
    obtain ⟨hne, -⟩ := hplain _ (List.getLast_mem hsplit)
    rwa [← Text.flatten_splitLines text.toList, endsInFeed_flatten hsplit hne] at htext
  have hall : ∀ line ∈ Text.splitLines text.toList, endsInFeed line = true := by
    rw [← List.dropLast_concat_getLast hsplit, List.forall_mem_append, List.forall_mem_singleton]
    refine ⟨fun line hline => ?_, hlast⟩
    have hline' : String.ofList line ∈ (linesOf text).dropLast := by
      rw [linesOf, ← List.map_dropLast]
      exact List.mem_map_of_mem hline
    simpa using hlines _ hline'
  refine forall_mem_linesOf.mpr fun line hline => ?_
  exact isLine_of_endsInFeed (hplain line hline).2 (hall line hline)

/-- No line of a diff is a remark, whatever its texts are. -/
theorem withoutRemarks_unified (hname : '\n' ∉ name.toList) :
    withoutRemarks (feedLines (unified name old new).toList) =
      feedLines (unified name old new).toList := by
  by_cases hhunks : hunks (script (linesOf old) (linesOf new)) = []
  · rw [unified, hhunks]
    rfl
  have hpiece {line : List Char} (h : IsLine line) : line ≠ [] ∧ '\n' ∉ line.dropLast := by
    obtain ⟨body, rfl, hbody⟩ := h
    simp [hbody]
  have hline (text : String) : ∀ line ∈ linesOf text,
      line.toList ≠ [] ∧ '\n' ∉ line.toList.dropLast :=
    forall_mem_linesOf.mpr (not_mem_dropLast_of_mem_splitLines text.toList)
  have hlines := forall_mem_hunks (hline old) (hline new)
  rw [toList_unified hhunks]
  generalize hunks (script (linesOf old) (linesOf new)) = hs at hlines
  have hpieces : ∀ piece ∈ diffPieces name hs, piece ≠ [] ∧ '\n' ∉ piece.dropLast := by
    refine forall_mem_diffPieces (hpiece (isLine_headerLine (by decide) hname))
      (hpiece (isLine_headerLine (by decide) hname)) (fun h => hpiece h.isLine_heading)
      fun h hh line hline => ⟨List.cons_ne_nil _ _, ?_⟩
    obtain ⟨hne, hfeed⟩ := hlines h hh line hline
    rw [written, List.dropLast_cons_of_ne_nil hne]
    exact List.not_mem_cons_of_ne_of_not_mem (by cases line.1 <;> decide) hfeed
  refine withoutRemarks_eq_self fun line hline hhead => ?_
  obtain ⟨piece, hmem, hsame⟩ := exists_head?_of_mem_feedLines hpieces line hline
  exact head?_of_mem_diffPieces piece hmem (hsame.symm.trans hhead)

theorem ne_nil_of_mem_feedLines {text line : List Char} (h : line ∈ feedLines text) :
    line ≠ [] := by
  induction text with
  | nil => cases h
  | cons c text ih =>
    rw [feedLines] at h
    split at h
    · rcases List.mem_cons.mp h with rfl | h
      · exact List.cons_ne_nil _ _
      · exact ih h
    · cases hlines : feedLines text with
      | nil =>
        rw [hlines] at h
        rw [List.mem_singleton.mp h]
        exact List.cons_ne_nil _ _
      | cons first lines =>
        rw [hlines] at h ih
        rcases List.mem_cons.mp h with rfl | h
        · exact List.cons_ne_nil _ _
        · exact ih (List.mem_cons_of_mem _ h)

/-- A text without a line feed at its end has a line without one. -/
theorem exists_unended {text : List Char} (hsome : text ≠ []) (htext : endsInFeed text = false) :
    ∃ last ∈ feedLines text, endsInFeed last = false := by
  have hlines : feedLines text ≠ [] := by
    intro hnil
    exact hsome (by rw [← flatten_feedLines text, hnil, List.flatten_nil])
  have hlast := List.getLast_mem hlines
  refine ⟨_, hlast, ?_⟩
  rwa [← endsInFeed_flatten hlines (ne_nil_of_mem_feedLines hlast), flatten_feedLines]

theorem lines_of_heading? {line : List Char} {h : Hunk} {old new : Nat}
    (hread : heading? line = some (h, old, new)) : h.lines = [] := by
  unfold heading? at hread
  split at hread
  · split at hread
    · split at hread
      · obtain ⟨range, -, hread⟩ := Option.bind_eq_some_iff.mp hread
        obtain ⟨range', -, hread⟩ := Option.map_eq_some_iff.mp hread
        cases hread
        rfl
      · cases hread
    · cases hread
  · cases hread

theorem endsInFeed_of_marked? {line : List Char} {marked : Mark × String}
    (hread : marked? line = some marked) (hline : IsLine line) :
    endsInFeed marked.2.toList = true := by
  obtain ⟨body, rfl, -⟩ := hline
  cases body with
  | nil => cases hread
  | cons c body =>
    obtain ⟨m, -, rfl⟩ := Option.map_eq_some_iff.mp hread
    rw [String.toList_ofList]
    exact endsInFeed_append body (List.cons_ne_nil _ _)

/-- **Every line of a hunk that is read has its line feed**, if no remark takes one from it. -/
theorem endsInFeed_of_hunksFrom? {lines : List (List Char)} {h : Hunk} {old new : Nat}
    {hs : List Hunk} (hlines : ∀ line ∈ lines, IsLine line)
    (hread : hunksFrom? h old new lines = some hs)
    (hfirst : ∀ line ∈ h.lines, endsInFeed line.2.toList = true) :
    ∀ hunk ∈ hs, ∀ line ∈ hunk.lines, endsInFeed line.2.toList = true := by
  induction lines generalizing h old new hs with
  | nil =>
    rw [hunksFrom?] at hread
    split at hread
    · cases hread
      exact List.forall_mem_singleton.mpr hfirst
    · cases hread
  | cons line lines ih =>
    obtain ⟨hline, hrest⟩ := List.forall_mem_cons.mp hlines
    rw [hunksFrom?] at hread
    split at hread
    · obtain ⟨⟨next, old', new'⟩, hheading, hread⟩ := Option.bind_eq_some_iff.mp hread
      obtain ⟨hs', hmore, rfl⟩ := Option.map_eq_some_iff.mp hread
      refine List.forall_mem_cons.mpr ⟨hfirst, ih hrest hmore ?_⟩
      rw [lines_of_heading? hheading]
      exact List.forall_mem_nil _
    · obtain ⟨marked, hmarked, hread⟩ := Option.bind_eq_some_iff.mp hread
      split at hread
      · refine ih hrest hread (List.forall_mem_append.mpr ⟨hfirst, ?_⟩)
        exact List.forall_mem_singleton.mpr (endsInFeed_of_marked? hmarked hline)
      · cases hread

theorem endsInFeed_of_readPatch? {patch : List Char} {hs : List Hunk}
    (hplain : withoutRemarks (feedLines patch) = feedLines patch)
    (hread : readPatch? patch = some hs) :
    ∀ hunk ∈ hs, ∀ line ∈ hunk.lines, endsInFeed line.2.toList = true := by
  unfold readPatch? at hread
  split at hread
  next hends =>
    have hlines := isLine_of_mem_feedLines hends
    rw [hplain] at hread
    split at hread
    next first lines heq =>
      rw [heq] at hlines
      have hrest : ∀ line ∈ lines, IsLine line := fun line hline =>
        hlines line (by simp [hline])
      split at hread
      · obtain ⟨⟨h, old, new⟩, hheading, hhunks⟩ := Option.bind_eq_some_iff.mp hread
        refine endsInFeed_of_hunksFrom? hrest hhunks ?_
        rw [lines_of_heading? hheading]
        nofun
      · cases hread
    next => cases hread
  next => cases hread

/-- What no hunk takes out is still there when the hunks have been applied. -/
theorem mem_of_applyHunks {line : String} {source result : List String} {hs : List Hunk}
    {passed made : Nat} (hline : line ∈ source) (hkeeps : ∀ h ∈ hs, line ∉ h.olds)
    (happly : applyHunks passed made source hs = some result) : line ∈ result := by
  induction hs generalizing passed made source result with
  | nil =>
    cases happly
    exact hline
  | cons h hs ih =>
    obtain ⟨hkeep, hkeeps⟩ := List.forall_mem_cons.mp hkeeps
    rw [applyHunks] at happly
    split at happly
    next hfits =>
      obtain ⟨made, hmore, rfl⟩ := Option.map_eq_some_iff.mp happly
      obtain ⟨rest, hrest⟩ := List.isPrefixOf_iff_prefix.mp hfits.2.2.2
      rw [← List.take_append_drop (h.oldStart - passed) source, List.mem_append, ← hrest,
        List.mem_append] at hline
      rcases hline with hskipped | hold | hlater
      · exact List.mem_append_left _ (List.mem_append_left _ hskipped)
      · exact absurd hold hkeep
      · rw [← hrest, ← h.length_olds, List.drop_left] at hmore
        exact List.mem_append_right _ (ih hlater hkeeps hmore)
    next => cases happly

/-- **No diff makes a text with a line feed at its end of one without it.**  The last line of the
    first text is in no hunk that is read, so that it stays. -/
theorem patched?_ne_of_not_endsInFeed {text : String} (hname : '\n' ∉ name.toList)
    (hsome : text.toList ≠ []) (htext : endsInFeed text.toList = false)
    (hnew : endsInFeed new.toList = true) : patched? text (unified name old new) ≠ some new := by
  intro hpatched
  obtain ⟨hs, hread, hpatched⟩ := Option.bind_eq_some_iff.mp hpatched
  obtain ⟨result, happly, hpatched⟩ := Option.bind_eq_some_iff.mp hpatched
  split at hpatched
  next hends =>
    cases hpatched
    obtain ⟨last, hlast, hunended⟩ := exists_unended hsome htext
    have hkeeps : ∀ h ∈ hs, String.ofList last ∉ h.olds := by
      intro h hh hmem
      obtain ⟨line, hline, heq⟩ := List.mem_map.mp hmem
      have hended := endsInFeed_of_readPatch? (withoutRemarks_unified hname) hread h hh line
        (List.mem_filter.mp hline).1
      rw [heq, String.toList_ofList, hunended] at hended
      cases hended
    have hmem : String.ofList last ∈ result :=
      mem_of_applyHunks (List.mem_map_of_mem hlast) hkeeps happly
    -- No line can stand behind it, so that the text ends in it.
    have hresult : result ≠ [] := List.ne_nil_of_mem hmem
    rw [← List.dropLast_concat_getLast hresult, List.mem_append, List.mem_singleton] at hmem
    rcases hmem with hmem | heq
    · have hended := List.all_eq_true.mp hends _ hmem
      rw [String.toList_ofList, hunended] at hended
      cases hended
    · have hne := ne_nil_of_mem_feedLines hlast
      rw [← List.dropLast_concat_getLast hresult, ← heq, String.toList_join, List.flatMap_append,
        List.flatMap_singleton, String.toList_ofList, endsInFeed_append _ hne, hunended] at hnew
      cases hnew
  next => cases hpatched

/-! ### Boundaries -/

/-- Every line boundary in the text is a line feed, or a carriage return in front of one. -/
def OnlyFeeds (text : List Char) : Prop :=
  ∀ before c after, text = before ++ c :: after → Text.isLineBoundary c = true →
    c = '\n' ∨ c = '\r' ∧ after.head? = some '\n'

theorem onlyFeeds_cons {c : Char} {text : List Char} :
    OnlyFeeds (c :: text) ↔
      (Text.isLineBoundary c = true → c = '\n' ∨ c = '\r' ∧ text.head? = some '\n') ∧
        OnlyFeeds text := by
  constructor
  · intro h
    refine ⟨h [] c text rfl, fun before d after heq => h (c :: before) d after ?_⟩
    rw [heq, List.cons_append]
  · rintro ⟨hc, htext⟩ before d after heq hd
    rcases List.cons_eq_append_iff.mp heq with ⟨rfl, hcons⟩ | ⟨before', rfl, hrest⟩
    · cases hcons
      exact hc hd
    · exact htext before' d after hrest hd

theorem onlyFeeds_of_not_any {text : List Char} (h : text.any Text.isLineBoundary = false) :
    OnlyFeeds text := by
  rintro before c after rfl hc
  exact absurd hc (List.any_eq_false.mp h c (by simp))

theorem OnlyFeeds.append {text text' : List Char} (h : OnlyFeeds text) (h' : OnlyFeeds text') :
    OnlyFeeds (text ++ text') := by
  induction text with
  | nil => exact h'
  | cons c text ih =>
    obtain ⟨hc, htext⟩ := onlyFeeds_cons.mp h
    refine onlyFeeds_cons.mpr ⟨fun hboundary => ?_, ih htext⟩
    refine (hc hboundary).imp_right fun ⟨hreturn, hhead⟩ => ⟨hreturn, ?_⟩
    cases text with
    | nil => cases hhead
    | cons d text => exact hhead

/-- What stands in a text in front of another character than a line feed has no other boundaries
    than the text. -/
theorem OnlyFeeds.of_infix {front text back : List Char} {c : Char} (hc : c ≠ '\n')
    (h : OnlyFeeds (front ++ (text ++ c :: back))) : OnlyFeeds text := by
  rintro before d after rfl hd
  have hplace := h (front ++ before) d (after ++ c :: back) (by simp) hd
  refine hplace.imp_right fun ⟨hreturn, hhead⟩ => ⟨hreturn, ?_⟩
  cases after with
  | nil => exact absurd (Option.some.inj hhead) hc
  | cons e after => exact hhead

/-- The lines of a text are cut at its line feeds if it has no other boundaries. -/
theorem splitLines_eq_feedLines {text : List Char} (h : OnlyFeeds text) :
    Text.splitLines text = feedLines text := by
  fun_induction Text.splitLines text with
  | case1 => rfl
  | case2 text ih =>
    have htext := (onlyFeeds_cons.mp (onlyFeeds_cons.mp h).2).2
    rw [ih htext]
    rfl
  | case3 c text hpair hc ih =>
    obtain ⟨hboundary, htext⟩ := onlyFeeds_cons.mp h
    rcases hboundary hc with rfl | ⟨rfl, hhead⟩
    · rw [ih htext]
      rfl
    · obtain ⟨rest, rfl⟩ := List.head?_eq_some_iff.mp hhead
      exact absurd rfl (hpair rest rfl)
  | case4 c text hpair hc ih =>
    have hfeed : c ≠ '\n' := by
      rintro rfl
      exact hc (by decide)
    rw [ih (onlyFeeds_cons.mp h).2, feedLines, if_neg hfeed]

/-- Lines that all end in their line feed have no other boundaries. -/
theorem onlyFeeds_of_isLine {text : List Char} (h : ∀ line ∈ Text.splitLines text, IsLine line) :
    OnlyFeeds text := by
  fun_induction Text.splitLines text with
  | case1 => exact onlyFeeds_of_not_any rfl
  | case2 text ih =>
    have htext := ih (List.forall_mem_cons.mp h).2
    exact onlyFeeds_cons.mpr ⟨fun _ => .inr ⟨rfl, rfl⟩,
      onlyFeeds_cons.mpr ⟨fun _ => .inl rfl, htext⟩⟩
  | case3 c text hpair hc ih =>
    obtain ⟨hline, hlines⟩ := List.forall_mem_cons.mp h
    have hfeed : c = '\n' := by simpa [endsInFeed] using hline.endsInFeed
    exact onlyFeeds_cons.mpr ⟨fun _ => .inl hfeed, ih hlines⟩
  | case4 c text hpair hc ih =>
    refine onlyFeeds_cons.mpr ⟨fun hboundary => absurd hboundary hc, ih ?_⟩
    cases hlines : Text.splitLines text with
    | nil => exact List.forall_mem_nil _
    | cons line lines =>
      rw [hlines] at h
      obtain ⟨⟨body, heq, hbody⟩, hmore⟩ := List.forall_mem_cons.mp h
      refine List.forall_mem_cons.mpr ⟨?_, hmore⟩
      rcases List.cons_eq_append_iff.mp heq with ⟨rfl, hcons⟩ | ⟨body', rfl, hrest⟩
      · cases hcons
        exact absurd rfl hc
      · exact ⟨body', hrest, List.not_mem_of_not_mem_cons hbody⟩

end Diff

/-! ### Canonical texts -/

theorem isForeign_of_isLineBoundary {c : Char} (h : Text.isLineBoundary c = true) :
    IsForeign c := by
  simp only [Text.isLineBoundary, Bool.or_eq_true, decide_eq_true_eq] at h
  rcases h with ((((((((rfl | rfl) | rfl) | rfl) | rfl) | rfl) | rfl) | rfl) | rfl) | rfl <;>
    decide +kernel

namespace Layout

open Diff (OnlyFeeds)

theorem keeps_onlyFeeds : Keeps OnlyFeeds where
  append := .append
  blank h := Diff.onlyFeeds_cons.mpr ⟨nofun, h⟩
  feed h h' := h.append (Diff.onlyFeeds_cons.mpr ⟨fun _ => .inl rfl, h'⟩)
  mark p := Diff.onlyFeeds_of_not_any (by cases p <;> rfl)
  keyword k := Diff.onlyFeeds_of_not_any (by cases k <;> rfl)

theorem onlyFeeds_quoted {s : List Char} (h : OnlyFeeds s) : OnlyFeeds (quoted s) := by
  have hmark (mark : QuoteMark) : OnlyFeeds [mark.char] :=
    Diff.onlyFeeds_of_not_any (by cases mark <;> rfl)
  unfold quoted
  dsimp only
  split
  · exact (hmark .single).append (h.append (hmark .single))
  · exact (hmark .double).append (h.append (hmark .double))

theorem onlyFeeds_programText (c : Layout) {e : Expr} (h : e.Everywhere (Expr.Supplies OnlyFeeds)) :
    OnlyFeeds (c.programText e) := by
  have htext := keeps_onlyFeeds.text c e 0 h
  unfold programText
  dsimp only
  split
  · exact keeps_onlyFeeds.feed htext (Diff.onlyFeeds_of_not_any rfl)
  · exact htext

theorem endsInFeed_programText {c : Layout} (htrailing : c.trailingNewline = true) (e : Expr) :
    Diff.endsInFeed (c.programText e) = true := by
  unfold programText
  dsimp only
  rw [htrailing, Bool.true_and]
  split
  · exact Diff.endsInFeed_append _ (List.cons_ne_nil _ _)
  next h => simpa [Diff.endsInFeed] using h

end Layout

namespace Program

variable {c : Layout} {limits : Limits} {text out : String}

/-- **Formatting brings no line boundary in** but line feeds. -/
theorem onlyFeeds_of_format (h : format c text none limits = .ok out)
    (htext : Diff.OnlyFeeds text.toList) : Diff.OnlyFeeds out.toList := by
  obtain ⟨e, hparse, -, hexpressible, rfl⟩ := exists_tree_of_format h
  rw [String.toList_ofList]
  have hforeign {t : List Char} (ht : ∀ a, IsForeign a → a ∉ t) : Diff.OnlyFeeds t :=
    Diff.onlyFeeds_of_not_any <| List.any_eq_false.mpr fun a ha hboundary =>
      ht a (isForeign_of_isLineBoundary hboundary) ha
  refine Layout.onlyFeeds_programText c fun n hn => ⟨fun name hname => ?_, fun v hv => ?_⟩
  · have hread := (Scan.ofText_eq_symbol_iff name).mp ((hexpressible n hn).names name hname)
    exact hforeign fun a ha => ha.not_mem_name hread
  · have hwritable := (hexpressible n hn).unblemished.literal v hv
    cases v with
    | text s =>
      obtain ⟨mark, before, after, hplace⟩ := infix_of_literal hparse hn hv
      have hmark : mark.char ≠ '\n' := by cases mark <;> decide
      have hbehind : before ++ mark.char :: (s.toList ++ [mark.char]) ++ after =
          (before ++ [mark.char]) ++ (s.toList ++ mark.char :: after) := by simp
      rw [← hplace, hbehind] at htext
      exact Layout.onlyFeeds_quoted (htext.of_infix hmark)
    | integer | decimal | truth =>
      exact hforeign fun a ha => ha.not_mem_literalText hwritable nofun

theorem endsInFeed_of_format (h : format c text none limits = .ok out)
    (htrailing : c.trailingNewline = true) : Diff.endsInFeed out.toList = true := by
  obtain ⟨e, -, -, -, rfl⟩ := exists_tree_of_format h
  rw [String.toList_ofList]
  exact Layout.endsInFeed_programText htrailing e

/-- The empty text is no program. -/
theorem ne_empty_of_format (h : format c text none limits = .ok out) : text ≠ "" := by
  rintro rfl
  obtain ⟨e, hparse, -⟩ := exists_tree_of_format h
  generalize limits.reading = depth at hparse
  cases depth <;> cases hparse

/-- **The diff of a program can be used only if its last line has its line feed.**  It is then a
    patch that makes the canonical text of the program, if line feeds end all other lines too. -/
theorem diff_patches {name : String} (h : format c text none limits = .ok out)
    (htrailing : c.trailingNewline = true) (hname : '\n' ∉ name.toList) (hne : text ≠ out) :
    ∃ patch, diff c name text limits = .ok patch ∧
      (Diff.patched? text patch = some out → Diff.endsInFeed text.toList = true) ∧
      ((∀ line ∈ (Diff.linesOf text).dropLast, Diff.endsInFeed line.toList = true) →
        (Diff.patched? text patch = some out ↔ Diff.endsInFeed text.toList = true)) := by
  have hout := endsInFeed_of_format h htrailing
  have hsame : (text == out) = false := beq_false_of_ne hne
  have hsome : text.toList ≠ [] := fun hnil =>
    ne_empty_of_format h (String.toList_eq_nil_iff.mp hnil)
  have honly (hpatched : Diff.patched? text (Diff.unified name text out) = some out) :
      Diff.endsInFeed text.toList = true := by
    by_contra hfeed
    exact Diff.patched?_ne_of_not_endsInFeed hname hsome (Bool.eq_false_iff.mpr hfeed) hout hpatched
  refine ⟨Diff.unified name text out, ?_, honly, fun hlines => ⟨honly, fun hfeed => ?_⟩⟩
  · rw [diff_of_format h, hsame]
    rfl
  · have hold := Diff.isLine_of_mem_linesOf hsome hlines hfeed
    have hfeeds : Diff.OnlyFeeds text.toList :=
      Diff.onlyFeeds_of_isLine (Diff.forall_mem_linesOf.mp hold)
    have hnew : ∀ line ∈ Diff.linesOf out, Diff.IsLine line.toList := by
      refine Diff.forall_mem_linesOf.mpr ?_
      rw [Diff.splitLines_eq_feedLines (onlyFeeds_of_format h hfeeds)]
      exact Diff.isLine_of_mem_feedLines hout
    exact Diff.patched?_unified hname hold hnew hne

/-- A text of one string in which a form feed stands. -/
theorem format_formFeed : format {} " \"\x0c\"\n" = .ok "\"\x0c\"\n" := by
  have hparse : parseTo Grammar.depthLimit " \"\x0c\"\n" none =
      .ok (.literal (.text "\x0c") (some ⟨1, 2, 1, 3, none⟩)) := rfl
  have hwritable : (Literal.text "\x0c").Writable := by decide
  rw [format_of_parseTo {} hparse (by decide), Layout.written, Expr.blemish?,
    Literal.problem?_eq_none_iff.mpr hwritable]
  decide +kernel

/-- A program whose last line has no line feed, the same one with it, and one with a form feed in a
    string.  The first diff can be used with a remark in it. -/
theorem not_diff_patches_unended :
    diff {} "<input>" "f  x" = .ok "--- a/<input>\n+++ b/<input>\n@@ -1 +1 @@\n-f  x+f x\n" ∧
      Diff.patched? "f  x" "--- a/<input>\n+++ b/<input>\n@@ -1 +1 @@\n-f  x+f x\n" ≠
        some "f x\n" ∧
      Diff.patched? "f  x" ("--- a/<input>\n+++ b/<input>\n@@ -1 +1 @@\n-f  x\n" ++
        "\\ No newline at end of file\n+f x\n") = some "f x\n" ∧
      (∃ patch, diff {} "<input>" "f  x\n" = .ok patch ∧
        Diff.patched? "f  x\n" patch = some "f x\n") ∧
      ∃ patch, diff {} "<input>" " \"\x0c\"\n" = .ok patch ∧
        Diff.patched? " \"\x0c\"\n" patch = none := by
  have hformat : format {} "f  x" none {} = .ok "f x\n" := by decide +kernel
  have hformat' : format {} "f  x\n" none {} = .ok "f x\n" := by decide +kernel
  have hunified : Diff.unified "<input>" "f  x" "f x\n" =
      "--- a/<input>\n+++ b/<input>\n@@ -1 +1 @@\n-f  x+f x\n" := by decide +kernel
  have hdiff := diff_of_format hformat "<input>"
  have hdiff' := diff_of_format format_formFeed "<input>"
  have hname : '\n' ∉ "<input>".toList := by decide
  rw [hunified] at hdiff
  obtain ⟨patch, hpatch, hfeed, -⟩ := diff_patches hformat rfl hname (by decide)
  obtain ⟨patch', hpatch', -, hall⟩ := diff_patches hformat' rfl hname (by decide)
  obtain rfl := Except.ok.inj (hpatch.symm.trans hdiff)
  exact ⟨hdiff, fun hpatched => absurd (hfeed hpatched) (by decide), by decide +kernel,
    ⟨patch', hpatch', (hall (by decide +kernel)).mpr (by decide)⟩, _, hdiff', by decide +kernel⟩

end Program

end Juxta
