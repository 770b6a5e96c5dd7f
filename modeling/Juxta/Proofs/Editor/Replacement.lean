/-
  Juxta/Proofs/Editor/Replacement.lean
  ====================================
  **Edits applied** — an edit names the text that it replaces by two positions, and whoever
  applies it finds these in the document.  Lines end at line feeds here, and columns count UTF-16
  code units.

    * `Position.behind` is the position behind a text that begins the document; no two such
      texts have the same one (`Position.behind_injective`);
    * `TextEdit.Replaces` says what a document becomes by an edit; there is never more than one
      result (`Replaces.unique`);
    * `TextEdit.formatting_replaces`: the edit that formats a document makes it the canonical
      text, whatever the document ends in.
-/
import Juxta.Editor.TextEdit
import Juxta.Proofs.Token.Position

namespace Juxta

namespace Text

theorem length_splitNewlines (text : List Char) :
    (splitNewlines text).length = text.count '\n' + 1 := by
  induction text with
  | nil => rfl
  | cons c text ih =>
    obtain ⟨later, hlater⟩ := splitNewlines_eq_cons text
    by_cases hc : c = '\n'
    · rw [splitNewlines, if_pos hc, List.length_cons, ih, hc, List.count_cons_self]
    · rw [hlater, List.length_cons] at ih
      rw [splitNewlines, if_neg hc, hlater, List.length_cons, ih, List.count_cons_of_ne hc]

theorem getLast?_splitNewlines (text : List Char) :
    (splitNewlines text).getLast? = some (text.rtakeWhile (· != '\n')) := by
  have hline := getElem?_splitNewlines (Nat.le_refl text.length)
  rw [List.take_length, List.drop_length, lineHead, List.take_length] at hline
  rw [List.getLast?_eq_getElem?, length_splitNewlines, Nat.add_sub_cancel, hline]
  exact congrArg some (List.append_nil _)

/-- What comes behind without a line feed stays on the last line. -/
theorem rtakeWhile_append_of_not_mem {more : List Char} (h : '\n' ∉ more) (text : List Char) :
    (text ++ more).rtakeWhile (· != '\n') = text.rtakeWhile (· != '\n') ++ more := by
  have hmore : ∀ c ∈ more.reverse, (c != '\n') = true := by
    intro c hc
    exact forall_ne_lineFeed h c (List.mem_reverse.mp hc)
  rw [List.rtakeWhile, List.reverse_append, List.takeWhile_append_of_pos hmore,
    List.reverse_append, List.reverse_reverse]
  rfl

theorem eq_nil_of_width16 {text : List Char} (h : width16 text = 0) : text = [] := by
  cases text with
  | nil => rfl
  | cons c text =>
    have hpos := units16_pos c
    rw [width16_cons] at h
    omega

end Text

namespace Editor

/-! ### Positions in a document -/

namespace Position

/-- The position behind a text that begins a document: as many lines down as the text has line
    feeds, and as many code units to the right as follow the last of them. -/
def behind (text : List Char) : Position :=
  ⟨text.count '\n', Text.width16 (text.rtakeWhile (· != '\n'))⟩

theorem behind_nil : behind [] = ⟨0, 0⟩ := rfl

theorem ending_eq_behind (text : List Char) : ending text = behind text := by
  rw [ending, behind, Text.length_splitNewlines, List.getLastD_eq_getLast?,
    Text.getLast?_splitNewlines]
  rfl

theorem eq_nil_of_behind_append {text more : List Char}
    (h : behind (text ++ more) = behind text) : more = [] := by
  have hlines := congrArg Position.line h
  have hcolumns := congrArg Position.character h
  have hfeed : '\n' ∉ more := by
    change (text ++ more).count '\n' = text.count '\n' at hlines
    rw [List.count_append, Nat.add_eq_left] at hlines
    exact List.count_eq_zero.mp hlines
  change Text.width16 ((text ++ more).rtakeWhile _) = Text.width16 (text.rtakeWhile _) at hcolumns
  rw [Text.rtakeWhile_append_of_not_mem hfeed, Text.width16_append, Nat.add_eq_left] at hcolumns
  exact Text.eq_nil_of_width16 hcolumns

/-- A position is that of one place in a document. -/
theorem behind_injective {text before before' : List Char} (hbefore : before <+: text)
    (hbefore' : before' <+: text) (h : behind before = behind before') : before = before' := by
  rcases List.prefix_or_prefix_of_prefix hbefore hbefore' with hprefix | hprefix
  · obtain ⟨more, rfl⟩ := hprefix
    rw [eq_nil_of_behind_append h.symm, List.append_nil]
  · obtain ⟨more, rfl⟩ := hprefix
    rw [eq_nil_of_behind_append h, List.append_nil]

end Position

/-! ### What an edit makes of a document -/

namespace TextEdit

/-- The second text is the first with the new text of the edit in place of what stands between
    its two positions. -/
def Replaces (edit : TextEdit) (old new : String) : Prop :=
  ∃ before middle after, old.toList = before ++ middle ++ after ∧
    Position.behind before = edit.range.start ∧
    Position.behind (before ++ middle) = edit.range.stop ∧
    new.toList = before ++ edit.newText.toList ++ after

theorem Replaces.unique {edit : TextEdit} {old new new' : String} (h : edit.Replaces old new)
    (h' : edit.Replaces old new') : new = new' := by
  obtain ⟨before, middle, after, hold, hstart, hstop, hnew⟩ := h
  obtain ⟨before', middle', after', hold', hstart', hstop', hnew'⟩ := h'
  have hprefix : before ++ middle <+: old.toList := by
    rw [hold]
    exact List.prefix_append _ _
  have hprefix' : before' ++ middle' <+: old.toList := by
    rw [hold']
    exact List.prefix_append _ _
  have hbefore : before = before' := by
    apply Position.behind_injective ((List.prefix_append _ _).trans hprefix)
      ((List.prefix_append _ _).trans hprefix')
    rw [hstart, hstart']
  have hmiddle : before ++ middle = before' ++ middle' := by
    apply Position.behind_injective hprefix hprefix'
    rw [hstop, hstop']
  have hafter : after = after' := by
    rw [hold, hmiddle] at hold'
    exact List.append_cancel_left hold'
  apply String.toList_injective
  rw [hnew, hnew', hbefore, hafter]

/-- Replacing all of a document leaves nothing of it. -/
theorem replaces_replaceAll (old new result : String) :
    (replaceAll old new).Replaces old result ↔ result = new := by
  have hall : (replaceAll old new).Replaces old new := by
    refine ⟨[], old.toList, [], ?_, Position.behind_nil, ?_, ?_⟩
    · rw [List.nil_append, List.append_nil]
    · exact (Position.ending_eq_behind old.toList).symm
    · rw [List.nil_append, List.append_nil]
      rfl
  constructor
  · intro h
    exact h.unique hall
  · rintro rfl
    exact hall

/-- There is no answer only because a number is too long. -/
theorem formatting_eq_error {layout : Layout} {text : String} {limits : Limits}
    {e : TooManyDigits} : formatting layout text limits = .error e ↔
      Program.format layout text none limits = .error (.tooManyDigits e) := by
  unfold formatting
  split <;> rename_i h
  · simp [h]
  · simp [h]
  · rename_i hother
    rw [h]
    constructor
    · rintro ⟨⟩
    · intro heq
      cases heq
      exact absurd rfl (hother e)

/-- **The edit that formats a document makes it the canonical text.**  If there is no edit, the
    document is canonical already, or there is an error to be shown; and no answer at all means
    that a number in the document is too long. -/
theorem formatting_replaces (layout : Layout) (text : String) (limits : Limits) :
    (∀ edits, formatting layout text limits = .ok edits →
      (∃ edit out, edits = [edit] ∧ Program.format layout text none limits = .ok out ∧
        text ≠ out ∧ ∀ result, edit.Replaces text result ↔ result = out) ∨
      edits = [] ∧ (Program.format layout text none limits = .ok text ∨
        ∃ failure r, Program.format layout text none limits = .error failure ∧
          failure.report? = some r)) ∧
    ∀ e, formatting layout text limits = .error e ↔
      Program.format layout text none limits = .error (.tooManyDigits e) := by
  refine ⟨fun edits hedits => ?_, fun e => formatting_eq_error⟩
  unfold formatting at hedits
  cases hformat : Program.format layout text none limits with
  | ok out =>
    rw [hformat] at hedits
    cases hedits
    by_cases hsame : text = out
    · right
      rw [hsame, beq_self_eq_true]
      exact ⟨rfl, Or.inl rfl⟩
    · left
      rw [if_neg (by rwa [beq_iff_eq])]
      exact ⟨_, out, rfl, rfl, hsame, replaces_replaceAll text out⟩
  | error failure =>
    rw [hformat] at hedits
    cases failure with
    | tooManyDigits e => cases hedits
    | lexical error | syntactic error | format error =>
      cases hedits
      exact Or.inr ⟨rfl, Or.inr ⟨_, _, rfl, rfl⟩⟩

/-- A document that ends in the middle of a line, with a letter of two code units at its end; and one
    that is no program. -/
theorem formatting_replaces_astral :
    (∃ edit, formatting {} "f\r\n  𝒳" = .ok [edit] ∧ edit.range.stop = ⟨1, 4⟩ ∧
      ∀ result, edit.Replaces "f\r\n  𝒳" result ↔ result = "f 𝒳\n") ∧
    formatting {} "f )" = .ok [] ∧ ∃ failure r,
      Program.format {} "f )" none {} = .error failure ∧ failure.report? = some r := by
  constructor
  · have hedits : formatting {} "f\r\n  𝒳" =
        .ok [⟨⟨⟨0, 0⟩, ⟨1, 4⟩⟩, "f 𝒳\n"⟩] := by decide +kernel
    have hformat : Program.format {} "f\r\n  𝒳" none {} = .ok "f 𝒳\n" := by
      decide +kernel
    rcases (formatting_replaces {} "f\r\n  𝒳" {}).1 _ hedits with
      ⟨edit, out, hedit, hout, -, hreplaces⟩ | ⟨hnone, -⟩
    · cases hedit
      rw [hformat] at hout
      cases hout
      exact ⟨_, hedits, rfl, hreplaces⟩
    · cases hnone
  · have hedits : formatting {} "f )" = .ok [] := by decide +kernel
    refine ⟨hedits, ?_⟩
    rcases (formatting_replaces {} "f )" {}).1 _ hedits with ⟨edit, out, hedit, -⟩ | ⟨-, hformat⟩
    · cases hedit
    · rcases hformat with hsame | hfailure
      · exact absurd hsame (by decide +kernel)
      · exact hfailure

end TextEdit

end Editor

end Juxta
