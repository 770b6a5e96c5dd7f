/-
  Juxta/Proofs/Diff/Script.lean
  =============================
  **Scripts lead from one list to the other** — the old lines of a script are the first list and
  its new lines the second (`flatMap_old_script`, `flatMap_new_script`), so that a diff in which
  nothing is shown is one of equal texts (`eq_of_unified_eq_empty`).

  A run that is claimed to be shared is shared (`Shares`): while the lists are gone through, the
  lengths that are kept are those of shared ends of the lines so far (`SharedEnds`), and a run
  stays shared when it is prolonged.
-/
import Juxta.Diff.Unified
import Mathlib.Tactic.SplitIfs

namespace Juxta.Diff

variable {old new : List String}

/-! ### Shared runs -/

/-- The lists end in the same `size` lines. -/
def EndsAlike (old new : List String) (size : Nat) : Prop :=
  ∃ run, run.length = size ∧ run <:+ old ∧ run <:+ new

theorem endsAlike_zero (old new : List String) : EndsAlike old new 0 :=
  ⟨[], rfl, List.nil_suffix, List.nil_suffix⟩

theorem EndsAlike.append_line {size : Nat} (h : EndsAlike old new size) (line : String) :
    EndsAlike (old ++ [line]) (new ++ [line]) (size + 1) := by
  obtain ⟨run, rfl, ⟨a, rfl⟩, b, rfl⟩ := h
  exact ⟨run ++ [line], by simp, ⟨a, by simp⟩, ⟨b, by simp⟩⟩

/-- The lines of the run stand in both lists where it says. -/
def Shares (old new : List String) (r : Run) : Prop :=
  ∃ lines, lines.length = r.size ∧
    (∃ before after, old = before ++ (lines ++ after) ∧ before.length = r.old) ∧
    ∃ before after, new = before ++ (lines ++ after) ∧ before.length = r.new

theorem shares_zero (old new : List String) : Shares old new ⟨0, 0, 0⟩ :=
  ⟨[], rfl, ⟨[], old, rfl, rfl⟩, [], new, rfl, rfl⟩

theorem EndsAlike.shares {size : Nat} (h : EndsAlike old new size) (old' new' : List String) :
    Shares (old ++ old') (new ++ new') ⟨old.length - size, new.length - size, size⟩ := by
  obtain ⟨run, rfl, ⟨a, rfl⟩, b, rfl⟩ := h
  exact ⟨run, rfl, ⟨a, old', by simp, by simp⟩, b, new', by simp, by simp⟩

/-! ### The longest run -/

/-- The lengths belong to the lines of the second list that are still to come, behind those that
    have passed; lengths that are not kept are zero. -/
inductive SharedEnds (old : List String) : (passed coming : List String) → List Nat → Prop where
  | zeros (passed coming : List String) : SharedEnds old passed coming []
  | cons {passed coming : List String} {line : String} {size : Nat} {sizes : List Nat} :
      EndsAlike old (passed ++ [line]) size → SharedEnds old (passed ++ [line]) coming sizes →
      SharedEnds old passed (line :: coming) (size :: sizes)

theorem sharedEnds_nextLengths {line : String} {passed coming : List String} {diagonal : Nat}
    {lengths : List Nat} (hdiagonal : EndsAlike old passed diagonal)
    (h : SharedEnds old passed coming lengths) :
    SharedEnds (old ++ [line]) passed coming (nextLengths line diagonal coming lengths) := by
  induction coming generalizing passed diagonal lengths with
  | nil => exact .zeros _ _
  | cons other coming ih =>
    rw [nextLengths]
    have hnext : EndsAlike (old ++ [line]) (passed ++ [other])
        (if line == other then diagonal + 1 else 0) := by
      split
      · rename_i heq
        obtain rfl : line = other := by simpa using heq
        exact hdiagonal.append_line line
      · exact endsAlike_zero _ _
    cases h with
    | zeros => exact .cons hnext (ih (endsAlike_zero _ _) (.zeros _ _))
    | cons hsize hsizes => exact .cons hnext (ih hsize hsizes)

theorem shares_betterRun {passed coming old' : List String} {i : Nat} {sizes : List Nat} {best : Run}
    (hi : old.length = i + 1) (h : SharedEnds old passed coming sizes)
    (hbest : Shares (old ++ old') (passed ++ coming) best) :
    Shares (old ++ old') (passed ++ coming) (betterRun i passed.length sizes best) := by
  induction h generalizing best with
  | zeros => exact hbest
  | @cons passed coming line size sizes hsize _ ih =>
    have hpassed : passed ++ line :: coming = (passed ++ [line]) ++ coming := by simp
    rw [betterRun]
    rw [hpassed] at hbest ⊢
    have hrun : Shares (old ++ old') (passed ++ [line] ++ coming)
        (if best.size < size then ⟨i + 1 - size, passed.length + 1 - size, size⟩ else best) := by
      split
      · have hshares := hsize.shares old' coming
        rwa [hi, List.length_append, List.length_singleton] at hshares
      · exact hbest
    have hlater := ih hrun
    rwa [List.length_append, List.length_singleton] at hlater

theorem shares_longestFrom {ignored lines : List String} {i : Nat} {lengths : List Nat} {best : Run}
    (hi : old.length = i) (h : SharedEnds old [] new lengths)
    (hbest : Shares (old ++ lines) new best) :
    Shares (old ++ lines) new (longestFrom ignored new i lines lengths best) := by
  induction lines generalizing old i lengths best with
  | nil => exact hbest
  | cons line lines ih =>
    have hold : old ++ line :: lines = (old ++ [line]) ++ lines := by simp
    have hlength : (old ++ [line]).length = i + 1 := by simp [hi]
    have hnext : SharedEnds (old ++ [line]) [] new
        (if ignored.contains line then [] else nextLengths line 0 new lengths) := by
      split
      · exact .zeros _ _
      · exact sharedEnds_nextLengths (endsAlike_zero _ _) h
    rw [longestFrom]
    rw [hold] at hbest ⊢
    exact ih hlength hnext (shares_betterRun hlength hnext hbest)

theorem exists_sharedFront (xs ys : List String) : ∃ run, run.length = sharedFront xs ys ∧
    (∃ after, xs = run ++ after) ∧ ∃ after, ys = run ++ after := by
  induction xs generalizing ys with
  | nil => exact ⟨[], by simp [sharedFront], ⟨[], rfl⟩, ys, rfl⟩
  | cons x xs ih =>
    cases ys with
    | nil => exact ⟨[], by simp [sharedFront], ⟨x :: xs, rfl⟩, [], rfl⟩
    | cons y ys =>
      by_cases heq : x = y
      · subst heq
        obtain ⟨run, hlength, ⟨a, ha⟩, b, hb⟩ := ih ys
        exact ⟨x :: run, by simp [sharedFront, hlength], ⟨a, by simp [ha]⟩, b, by simp [hb]⟩
      · exact ⟨[], by simp [sharedFront, heq], ⟨x :: xs, rfl⟩, y :: ys, rfl⟩

/-- A run that is shared stays so when it is prolonged by lines that the lists share. -/
theorem Shares.prolong {r : Run} (h : Shares old new r) {before after : Nat}
    (hbefore : before = sharedFront (old.take r.old).reverse (new.take r.new).reverse)
    (hafter : after = sharedFront (old.drop (r.old + r.size)) (new.drop (r.new + r.size))) :
    Shares old new ⟨r.old - before, r.new - before, before + r.size + after⟩ := by
  obtain ⟨lines, hlines, ⟨a, b, rfl, ha⟩, a', b', rfl, ha'⟩ := h
  rw [← ha, ← ha', List.take_left, List.take_left] at hbefore
  rw [← ha, ← ha', ← hlines, ← List.drop_drop, ← List.drop_drop, List.drop_left, List.drop_left,
    List.drop_left, List.drop_left] at hafter
  obtain ⟨run, hrun, ⟨c, hc⟩, c', hc'⟩ := exists_sharedFront a.reverse a'.reverse
  obtain ⟨run', hrun', ⟨d, rfl⟩, d', rfl⟩ := exists_sharedFront b b'
  rw [List.reverse_eq_iff, List.reverse_append] at hc hc'
  subst hc hc'
  rw [← hbefore] at hrun
  rw [← hafter] at hrun'
  refine ⟨run.reverse ++ (lines ++ run'), ?_, ⟨c.reverse, d, by simp, ?_⟩, c'.reverse, d', by simp,
    ?_⟩
  · simp [hrun, hlines, hrun', Nat.add_assoc]
  · rw [← ha, List.length_append, List.length_reverse, List.length_reverse, ← hrun,
      Nat.add_sub_cancel]
  · rw [← ha', List.length_append, List.length_reverse, List.length_reverse, ← hrun,
      Nat.add_sub_cancel]

/-- **The longest run is shared.** -/
theorem shares_longestRun (ignored old new : List String) :
    Shares old new (longestRun ignored old new) := by
  have hcore : Shares old new (longestFrom ignored new 0 old [] ⟨0, 0, 0⟩) :=
    @shares_longestFrom [] _ _ _ _ _ _ rfl (.zeros _ _) (shares_zero old new)
  exact hcore.prolong rfl rfl

/-- The parts of the second list around a shared run, which is taken from the first. -/
theorem Shares.append_new {r : Run} (h : Shares old new r) :
    new.take r.new ++ ((old.drop r.old).take r.size ++ new.drop (r.new + r.size)) = new := by
  obtain ⟨lines, hlines, ⟨a, b, rfl, ha⟩, a', b', rfl, ha'⟩ := h
  rw [← ha, ← ha', ← hlines, ← List.drop_drop, List.take_left, List.drop_left, List.drop_left,
    List.take_left, List.drop_left]

/-! ### Scripts -/

theorem flatMap_old_consShared (lines : List String) (script : List Segment) :
    (consShared lines script).flatMap Segment.old = lines ++ script.flatMap Segment.old := by
  cases script with
  | nil => rfl
  | cons s script => cases s <;> simp [consShared, Segment.old]

theorem flatMap_new_consShared (lines : List String) (script : List Segment) :
    (consShared lines script).flatMap Segment.new = lines ++ script.flatMap Segment.new := by
  cases script with
  | nil => rfl
  | cons s script => cases s <;> simp [consShared, Segment.new]

/-- A script in front of another one leads from the one list to the other. -/
theorem flatMap_scriptOnto (ignored : List String) (fuel : Nat) (old new : List String)
    (tail : List Segment) :
    (scriptOnto ignored fuel old new tail).flatMap Segment.old =
        old ++ tail.flatMap Segment.old ∧
      (scriptOnto ignored fuel old new tail).flatMap Segment.new =
        new ++ tail.flatMap Segment.new := by
  induction fuel generalizing old new tail with
  | zero => exact ⟨rfl, rfl⟩
  | succ fuel ih =>
    have hshares := shares_longestRun ignored old new
    rw [scriptOnto]
    dsimp only
    split_ifs with hempty hsize
    · simp only [Bool.and_eq_true, List.isEmpty_iff] at hempty
      rw [hempty.1, hempty.2]
      exact ⟨rfl, rfl⟩
    · exact ⟨rfl, rfl⟩
    · constructor
      · rw [(ih _ _ _).1, flatMap_old_consShared, (ih _ _ _).1, ← List.append_assoc _ _ (tail.flatMap _),
          ← List.append_assoc _ _ (tail.flatMap _), ← List.drop_drop, List.take_append_drop,
          List.take_append_drop]
      · rw [(ih _ _ _).2, flatMap_new_consShared, (ih _ _ _).2, ← List.append_assoc _ _ (tail.flatMap _),
          ← List.append_assoc _ _ (tail.flatMap _), hshares.append_new]

/-- **A script leads from the first list to the second.** -/
theorem flatMap_script (old new : List String) :
    (script old new).flatMap Segment.old = old ∧ (script old new).flatMap Segment.new = new := by
  have h := flatMap_scriptOnto (commonLines new) (old.length + 1) old new []
  rwa [List.flatMap_nil, List.flatMap_nil, List.append_nil, List.append_nil] at h

/-! ### Nothing to show -/

theorem hunksFrom_some_ne_nil (old new : Nat) (h : Hunk) (script : List Segment) :
    hunksFrom old new (some h) script ≠ [] := by
  induction script generalizing old new h with
  | nil => exact List.cons_ne_nil _ _
  | cons s script ih =>
    cases s with
    | changed removed added => exact ih _ _ _
    | shared lines =>
      cases script with
      | nil => exact List.cons_ne_nil _ _
      | cons s script =>
        rw [hunksFrom]
        · split_ifs
          · exact ih _ _ _
          · exact List.cons_ne_nil _ _
        · exact List.cons_ne_nil _ _

/-- Where no hunk is shown, all lines are shared. -/
theorem flatMap_eq_of_hunks_eq_nil {script : List Segment} (h : hunks script = []) :
    script.flatMap Segment.old = script.flatMap Segment.new := by
  cases script with
  | nil => rfl
  | cons s script =>
    cases s with
    | changed removed added => exact absurd h (hunksFrom_some_ne_nil _ _ _ _)
    | shared lines =>
      cases script with
      | nil => rfl
      | cons s script => exact absurd h (hunksFrom_some_ne_nil _ _ _ _)

theorem linesOf_injective {a b : String} (h : linesOf a = linesOf b) : a = b := by
  have hlines : Text.splitLines a.toList = Text.splitLines b.toList :=
    (List.map_inj_right fun _ _ => String.ofList_injective).mp h
  apply String.toList_injective
  rw [← Text.flatten_splitLines a.toList, hlines, Text.flatten_splitLines]

/-- **A diff that shows nothing is one of equal texts.** -/
theorem eq_of_unified_eq_empty {name old new : String} (h : unified name old new = "") :
    old = new := by
  unfold unified at h
  split at h
  · rename_i hhunks
    have hsame := flatMap_eq_of_hunks_eq_nil hhunks
    rw [(flatMap_script _ _).1, (flatMap_script _ _).2] at hsame
    exact linesOf_injective hsame
  · simp at h

end Juxta.Diff
