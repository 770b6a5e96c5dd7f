/-
  Juxta/Proofs/Diff/Hunks.lean
  ============================
  **Hunks turn the one list of lines into the other** — applied one after another, the hunks of a
  script make the second list of the first (`applyHunks_hunks`).  While the script is gone through,
  the hunk that is open says at which line it begins on either side and holds the lines since then
  (`Hunk.IsOpen`); what stands between two hunks is shared.

    * `applyHunks_cons`: what the first hunk does;
    * `applyHunks_hunksFrom`: what the open hunk and those after it do;
    * `forall_mem_hunks`: no line is in a hunk that is in neither list.
-/
import Juxta.Diff.Patch
import Juxta.Proofs.Diff.Script

namespace Juxta.Diff

/-! ### The lines of a hunk -/

namespace Hunk

variable {h : Hunk}

theorem length_olds (h : Hunk) : h.olds.length = h.oldCount := by
  rw [olds, List.length_map, oldCount, List.countP_eq_length_filter]

theorem length_news (h : Hunk) : h.news.length = h.newCount := by
  rw [news, List.length_map, newCount, List.countP_eq_length_filter]

theorem olds_map (m : Mark) (lines : List String) :
    ((lines.map (m, ·)).filter (·.1 != .new)).map (·.2) = if m = .new then [] else lines := by
  induction lines with
  | nil => cases m <;> rfl
  | cons line lines ih =>
    cases m with
    | shared | old => exact congrArg (line :: ·) ih
    | new => exact ih

theorem news_map (m : Mark) (lines : List String) :
    ((lines.map (m, ·)).filter (·.1 != .old)).map (·.2) = if m = .old then [] else lines := by
  induction lines with
  | nil => cases m <;> rfl
  | cons line lines ih =>
    cases m with
    | shared | new => exact congrArg (line :: ·) ih
    | old => exact ih

theorem olds_changed (h : Hunk) (removed added : List String) :
    (h.extend (removed.map (.old, ·) ++ added.map (.new, ·))).olds = h.olds ++ removed := by
  simp [extend, olds, olds_map]

theorem news_changed (h : Hunk) (removed added : List String) :
    (h.extend (removed.map (.old, ·) ++ added.map (.new, ·))).news = h.news ++ added := by
  simp [extend, news, news_map]

theorem olds_shared (h : Hunk) (lines : List String) :
    (h.extend (sharedLines lines)).olds = h.olds ++ lines := by
  simp [extend, olds, sharedLines, olds_map]

theorem news_shared (h : Hunk) (lines : List String) :
    (h.extend (sharedLines lines)).news = h.news ++ lines := by
  simp [extend, news, sharedLines, news_map]

theorem olds_opening (old new : Nat) (lines : List String) :
    (opening old new lines).olds = lines.drop (lines.length - context) :=
  olds_map .shared _

theorem news_opening (old new : Nat) (lines : List String) :
    (opening old new lines).news = lines.drop (lines.length - context) :=
  news_map .shared _

end Hunk

/-! ### The open hunk -/

/-- A hunk to which further lines may be added, when `old` and `new` lines have passed.  The lines
    `before` stand in front of it, after `passed` and `made` lines on either side. -/
structure Hunk.IsOpen (h : Hunk) (before : List String) (passed made old new : Nat) : Prop where
  oldStart : passed + before.length = h.oldStart
  newStart : made + before.length = h.newStart
  oldStop : h.oldStart + h.oldCount = old
  newStop : h.newStart + h.newCount = new

namespace Hunk.IsOpen

variable {h : Hunk} {before : List String} {passed made old new : Nat}

/-- The hunk stays open when lines are added to it. -/
theorem extend (hopen : h.IsOpen before passed made old new) {more : List (Mark × String)}
    {removed added : List String} (holds : (h.extend more).olds = h.olds ++ removed)
    (hnews : (h.extend more).news = h.news ++ added) :
    (h.extend more).IsOpen before passed made (old + removed.length) (new + added.length) where
  oldStart := hopen.oldStart
  newStart := hopen.newStart
  oldStop := by
    rw [← Hunk.length_olds, holds, List.length_append, Hunk.length_olds, ← hopen.oldStop]
    exact (Nat.add_assoc ..).symm
  newStop := by
    rw [← Hunk.length_news, hnews, List.length_append, Hunk.length_news, ← hopen.newStop]
    exact (Nat.add_assoc ..).symm

/-- A hunk is opened with the last lines of a shared run; in front of it stand those of them that
    no hunk shows. -/
theorem opening (old new : Nat) {lines : List String} {shown : Nat}
    (hshown : shown ≤ lines.length - context) :
    let h := Hunk.opening (old + lines.length) (new + lines.length) lines
    ∃ unshown, lines.drop shown = unshown ++ h.olds ∧ h.news = h.olds ∧
      h.IsOpen unshown (old + shown) (new + shown) (old + lines.length) (new + lines.length) := by
  intro h
  have holds : h.olds = lines.drop (lines.length - context) := Hunk.olds_opening ..
  have hnews : h.news = lines.drop (lines.length - context) := Hunk.news_opening ..
  have hplace : lines.length - context = shown + (lines.length - context - shown) := by omega
  have hsplit : lines.drop shown =
      (lines.drop shown).take (lines.length - context - shown) ++ h.olds := by
    rw [holds, hplace, ← List.drop_drop, ← hplace, List.take_append_drop]
  have hlength := congrArg List.length hsplit
  rw [List.length_append, List.length_drop, Hunk.length_olds] at hlength
  have hcount : h.newCount = h.oldCount := by
    rw [← h.length_olds, ← h.length_news, holds, hnews]
  have hstart : h.oldStart = old + lines.length - h.oldCount := by
    rw [← h.length_olds, holds]
    rfl
  have hstart' : h.newStart = new + lines.length - h.oldCount := by
    rw [← h.length_olds, holds]
    rfl
  refine ⟨_, hsplit, hnews.trans holds.symm, ?_, ?_, ?_, ?_⟩ <;> omega

end Hunk.IsOpen

/-! ### Applying the hunks of a script -/

/-- **A hunk takes its old lines out and puts its new lines there.** -/
theorem applyHunks_cons {passed made old new : Nat} {h : Hunk} {before : List String}
    (hopen : h.IsOpen before passed made old new) (rest : List String) (hs : List Hunk) :
    applyHunks passed made (before ++ (h.olds ++ rest)) (h :: hs) =
      (applyHunks old new rest hs).map (before ++ h.news ++ ·) := by
  obtain ⟨hpassed, hmade, hold, hnew⟩ := hopen
  have hskipped : h.oldStart - passed = before.length := by omega
  have hfits : passed ≤ h.oldStart ∧
      before.length ≤ (before ++ (h.olds ++ rest)).length ∧ made + before.length = h.newStart ∧
        h.olds.isPrefixOf ((before ++ (h.olds ++ rest)).drop before.length) = true := by
    refine ⟨by omega, by simp, hmade, ?_⟩
    rw [List.drop_left, List.isPrefixOf_iff_prefix]
    exact List.prefix_append ..
  have hrest : (h.olds ++ rest).drop h.oldCount = rest := by
    rw [← h.length_olds, List.drop_left]
  rw [applyHunks, hskipped, if_pos hfits, List.drop_left, List.take_left, hrest, hold, hnew]

/-- A hunk is closed behind the first of the shared lines that follow it. -/
theorem applyHunks_closed {h : Hunk} {old new passed made : Nat} {before : List String}
    (hopen : h.IsOpen before passed made old new) (lines rest : List String) (hs : List Hunk) :
    applyHunks passed made (before ++ (h.olds ++ (lines ++ rest)))
        (h.extend (Hunk.sharedLines (lines.take context)) :: hs) =
      (applyHunks (old + (lines.take context).length) (new + (lines.take context).length)
        (lines.drop context ++ rest) hs).map (before ++ (h.news ++ lines.take context) ++ ·) := by
  have holds := h.olds_shared (lines.take context)
  have hnews := h.news_shared (lines.take context)
  have hsplit : h.olds ++ (lines ++ rest) =
      (h.extend (Hunk.sharedLines (lines.take context))).olds ++ (lines.drop context ++ rest) := by
    rw [holds, List.append_assoc, ← List.append_assoc (lines.take context),
      List.take_append_drop]
  rw [hsplit, applyHunks_cons (hopen.extend holds hnews), hnews]

/-- **The open hunk and those after it** turn the lines from its first one on into new lines. -/
theorem applyHunks_hunksFrom {script : List Segment} {h : Hunk} {old new passed made : Nat}
    {before : List String} (hopen : h.IsOpen before passed made old new) :
    applyHunks passed made (before ++ (h.olds ++ script.flatMap Segment.old))
        (hunksFrom old new (some h) script) =
      some (before ++ (h.news ++ script.flatMap Segment.new)) := by
  induction script generalizing h old new passed made before with
  | nil =>
    rw [hunksFrom, Option.toList_some, applyHunks_cons hopen]
    simp [applyHunks]
  | cons s script ih =>
    rw [List.flatMap_cons, List.flatMap_cons]
    cases s with
    | changed removed added =>
      have holds := h.olds_changed removed added
      have hnews := h.news_changed removed added
      rw [hunksFrom, Option.getD_some, Segment.old, Segment.new, ← List.append_assoc h.olds,
        ← List.append_assoc h.news, ← holds, ← hnews]
      exact ih (hopen.extend holds hnews)
    | shared lines =>
      rw [Segment.old, Segment.new]
      cases script with
      | nil =>
        rw [hunksFrom, applyHunks_closed hopen]
        simp [applyHunks]
      | cons s script =>
        rw [hunksFrom]
        · split
          next =>
            have holds := h.olds_shared lines
            have hnews := h.news_shared lines
            rw [← List.append_assoc h.olds, ← List.append_assoc h.news, ← holds, ← hnews]
            exact ih (hopen.extend holds hnews)
          next hlong =>
            have hshown : context ≤ lines.length - context := by omega
            obtain ⟨unshown, hunshown, hsame, hnext⟩ := Hunk.IsOpen.opening old new hshown
            have htake : (lines.take context).length = context := by
              rw [List.length_take]
              omega
            rw [applyHunks_closed hopen, htake, hunshown, List.append_assoc, ih hnext, hsame,
              Option.map_some, ← List.append_assoc unshown, ← hunshown, List.append_assoc,
              List.append_assoc, ← List.append_assoc (lines.take context), List.take_append_drop]
        · exact List.cons_ne_nil _ _

/-- **The hunks of a script turn its old lines into its new lines.** -/
theorem applyHunks_hunks (script : List Segment) :
    applyHunks 0 0 (script.flatMap Segment.old) (hunks script) =
      some (script.flatMap Segment.new) := by
  cases script with
  | nil => rfl
  | cons s rest =>
    cases s with
    | changed removed added =>
      have hopen : Hunk.IsOpen ⟨0, 0, []⟩ [] 0 0 0 0 := ⟨rfl, rfl, rfl, rfl⟩
      exact @applyHunks_hunksFrom (.changed removed added :: rest) _ 0 0 0 0 _ hopen
    | shared lines =>
      cases rest with
      | nil => rfl
      | cons s rest =>
        obtain ⟨unshown, hunshown, hsame, hopen⟩ :=
          @Hunk.IsOpen.opening 0 0 lines 0 (Nat.zero_le _)
        have hrest := @applyHunks_hunksFrom (s :: rest) _ _ _ _ _ _ hopen
        rw [hsame, ← List.append_assoc, ← List.append_assoc, ← hunshown] at hrest
        rw [hunks, hunksFrom]
        · exact hrest
        · exact List.cons_ne_nil _ _

/-! ### Where the lines of hunks come from -/

theorem forall_mem_hunksFrom {P : String → Prop} {script : List Segment}
    (h : ∀ s ∈ script, (∀ line ∈ s.old, P line) ∧ ∀ line ∈ s.new, P line) {old new : Nat}
    {current : Option Hunk} (hcurrent : ∀ hunk ∈ current, ∀ line ∈ hunk.lines, P line.2) :
    ∀ hunk ∈ hunksFrom old new current script, ∀ line ∈ hunk.lines, P line.2 := by
  have hextend {hunk : Hunk} {more : List (Mark × String)}
      (hhunk : ∀ line ∈ hunk.lines, P line.2) (hmore : ∀ line ∈ more, P line.2) :
      ∀ line ∈ (hunk.extend more).lines, P line.2 := List.forall_mem_append.mpr ⟨hhunk, hmore⟩
  have hmarked {m : Mark} {lines : List String} (hlines : ∀ line ∈ lines, P line) :
      ∀ line ∈ lines.map (m, ·), P line.2 := List.forall_mem_map.mpr hlines
  induction script generalizing old new current with
  | nil =>
    rw [hunksFrom]
    exact fun hunk hhunk => hcurrent hunk (Option.mem_toList.mp hhunk)
  | cons s script ih =>
    obtain ⟨⟨hs, hs'⟩, hscript⟩ := List.forall_mem_cons.mp h
    cases s with
    | changed removed added =>
      rw [hunksFrom]
      refine ih hscript ?_
      rintro _ ⟨⟩
      refine hextend ?_ (List.forall_mem_append.mpr ⟨hmarked hs, hmarked hs'⟩)
      cases current with
      | none => exact List.forall_mem_nil _
      | some hunk => exact hcurrent hunk rfl
    | shared lines =>
      have hopening (old new : Nat) : ∀ line ∈ (Hunk.opening old new lines).lines, P line.2 :=
        hmarked fun line hline => hs line (List.mem_of_mem_drop hline)
      have htake (n : Nat) : ∀ line ∈ Hunk.sharedLines (lines.take n), P line.2 :=
        hmarked fun line hline => hs line (List.mem_of_mem_take hline)
      have hnext (old new : Nat) (hunk : Hunk) (hhunk : ∀ line ∈ hunk.lines, P line.2) :
          ∀ hunk' ∈ hunksFrom old new (some hunk) script, ∀ line ∈ hunk'.lines, P line.2 :=
        ih hscript (by rintro _ ⟨⟩; exact hhunk)
      cases current with
      | none =>
        cases script with
        | nil => exact List.forall_mem_nil _
        | cons s script =>
          rw [hunksFrom]
          · exact hnext _ _ _ (hopening _ _)
          · exact List.cons_ne_nil _ _
      | some hunk =>
        have hhunk := hcurrent hunk rfl
        cases script with
        | nil =>
          rw [hunksFrom]
          exact List.forall_mem_singleton.mpr (hextend hhunk (htake context))
        | cons s script =>
          rw [hunksFrom]
          · split
            · exact hnext _ _ _ (hextend hhunk (hmarked hs))
            · exact List.forall_mem_cons.mpr
                ⟨hextend hhunk (htake context), hnext _ _ _ (hopening _ _)⟩
          · exact List.cons_ne_nil _ _

/-- **A line of a hunk is one of either list.** -/
theorem forall_mem_hunks {P : String → Prop} {old new : List String} (hold : ∀ line ∈ old, P line)
    (hnew : ∀ line ∈ new, P line) :
    ∀ hunk ∈ hunks (script old new), ∀ line ∈ hunk.lines, P line.2 := by
  obtain ⟨holds, hnews⟩ := flatMap_script old new
  refine forall_mem_hunksFrom (fun s hs => ⟨fun line hline => hold line ?_,
    fun line hline => hnew line ?_⟩) nofun
  · exact holds ▸ List.mem_flatMap.mpr ⟨s, hs, hline⟩
  · exact hnews ▸ List.mem_flatMap.mpr ⟨s, hs, hline⟩

end Juxta.Diff
