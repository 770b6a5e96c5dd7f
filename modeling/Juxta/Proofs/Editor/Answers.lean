/-
  Juxta/Proofs/Editor/Answers.lean
  ================================
  **What is answered about a text** — a tree or an error at a location, diagnostics, edits.  One
  thing has no place among these: a whole number with too many digits.  It is no fault of the
  text, and whoever reads the text fails with it.

    * `Program.MeetsLongInteger`: such a number is met, because some program begins with the
      tokens in front of it;
    * `Editor.answers_iff_not_meetsLongInteger`: then there is no answer, and otherwise always.
-/
import Juxta.Editor.Diagnostic
import Juxta.Proofs.Editor.Replacement
import Juxta.Proofs.Grammar.Fault

namespace Juxta

/-! ### Errors that are reported -/

/-- The failure is reported at a location. -/
def Failure.IsLocated (failure : Failure) : Prop :=
  ∃ r l, failure.report? = some r ∧ r.location = some l

theorem Failure.isLocated_ofParseError (e : ParseError) :
    (ofParseError e).IsLocated ↔ ∀ digits, e ≠ .scan (.tooManyDigits digits) := by
  cases e with
  | syntactic e => exact ⟨fun _ => nofun, fun _ => ⟨e.report, e.found.location, rfl, rfl⟩⟩
  | scan fault =>
    cases fault with
    | lexical e => exact ⟨fun _ => nofun, fun _ => ⟨e.report, e.location, rfl, rfl⟩⟩
    | tooManyDigits digits =>
      constructor
      · rintro ⟨r, l, hr, -⟩
        cases hr
      · intro h
        exact absurd rfl (h digits)

namespace Program

variable {depth : Nat} {text : String} {filename : Option String}

/-- The reader comes to a whole number with too many digits: some program begins with the tokens in
    front of it, and they are not nested too deeply. -/
def MeetsLongInteger (depth : Nat) (text : String) (filename : Option String) : Prop :=
  ∃ ts digits, (Cursor.start text.toList filename).Scans ts (some (.tooManyDigits digits)) ∧
    Grammar.CanBegin ts ∧ ¬ NestsTooDeeply depth text filename

theorem meetsLongInteger_iff : MeetsLongInteger depth text filename ↔
    ∃ digits, parseTo depth text filename = .error (.scan (.tooManyDigits digits)) := by
  constructor
  · rintro ⟨ts, digits, hmeets⟩
    exact ⟨digits, parseTo_eq_scan_iff.mpr ⟨ts, hmeets⟩⟩
  · rintro ⟨digits, h⟩
    obtain ⟨ts, hmeets⟩ := parseTo_eq_scan_iff.mp h
    exact ⟨ts, digits, hmeets⟩

/-- A text has to have such a number in it. -/
theorem MeetsLongInteger.hasLongInteger (h : MeetsLongInteger depth text filename) :
    Text.HasLongInteger text.toList := by
  obtain ⟨ts, digits, hscans, -⟩ := h
  exact hscans.hasLongInteger

theorem hasLongInteger_of_parseTo {digits : TooManyDigits}
    (h : parseTo depth text filename = .error (.scan (.tooManyDigits digits))) :
    Text.HasLongInteger text.toList :=
  (meetsLongInteger_iff.mpr ⟨digits, h⟩).hasLongInteger

/-- A text that begins with a fault is not read any further. -/
theorem parseTo_of_fault {fault : ScanError}
    (h : (Cursor.start text.toList filename).Scans [] (some fault)) :
    parseTo depth text filename = .error (.scan fault) := by
  cases h with
  | @fault _ k _ hnext =>
    have hpeek : TokenSource.peek (TokenSource.ofText text filename) = .error fault ⟨k, none⟩ := by
      simp only [TokenSource.peek, TokenSource.ofText, hnext]
    have hlook : Grammar.peek (TokenSource.ofText text filename) =
        .error (.scan fault) ⟨k, none⟩ := by
      change EStateM.adaptExcept _ TokenSource.peek (TokenSource.ofText text filename) = _
      simp only [EStateM.adaptExcept, hpeek]
    exact parseTo_eq_error.mpr ⟨_, Grammar.bind_of_error (Grammar.bind_of_error hlook)⟩

/-- Writing never fails for a number. -/
theorem format_eq_tooManyDigits {layout : Layout} {limits : Limits} {digits : TooManyDigits} :
    format layout text filename limits = .error (.tooManyDigits digits) ↔
      parseTo limits.reading text filename = .error (.scan (.tooManyDigits digits)) := by
  unfold format
  cases parseTo limits.reading text filename with
  | ok e =>
    change (layout.render e limits.writing).mapError Failure.format = _ ↔ _
    cases layout.render e limits.writing <;> simp [Except.mapError]
  | error e =>
    change Except.error (Failure.ofParseError e) = _ ↔ _
    cases e with
    | syntactic error => simp [Failure.ofParseError]
    | scan fault => cases fault <;> simp [Failure.ofParseError]

end Program

/-- A text that is nothing but a number with too many digits is at fault at once. -/
theorem Cursor.scans_of_isDigits {digits : List Char} {filename : Option String}
    (h : Text.IsDigits digits) (hlimit : Scan.digitLimit < digits.length) :
    (Cursor.start digits filename).Scans [] (some (.tooManyDigits ⟨digits.length⟩)) := by
  have hstops : Text.Stops Text.isBlank digits := by
    obtain ⟨c, rest, rfl⟩ := List.exists_cons_of_ne_nil h.1
    exact Text.stops_cons.mpr
      (Text.isBlank_eq_false Text.isDigit_of_isBlank (h.2 c List.mem_cons_self))
  have hrest : (Cursor.start digits filename).skipBlanks.rest = digits := by
    rw [rest_skipBlanks]
    exact Text.dropWhile_of_stops hstops
  have hscan : Scan.ofText digits = .tooManyDigits (String.ofList digits) := by
    rw [← List.append_nil digits, Scan.ofText_append_of_isDigits h,
      Scan.ofNumber_append_of_isDigits h (Text.stops_nil _) nofun, Scan.ofInteger,
      if_neg (Nat.not_le.mpr hlimit), List.append_nil]
  have hnext : Scanner.next (Cursor.start digits filename) =
      .error (.tooManyDigits ⟨digits.length⟩)
        ((Cursor.start digits filename).skipBlanks.forward digits.length) := by
    simp only [Scanner.next, hrest, hscan, Scan.passed, String.length_ofList]
  exact .fault hnext

/-! ### Answers -/

namespace Editor

theorem Diagnostic.ofDocument_eq_error {uri text : String} {digits : TooManyDigits} :
    ofDocument uri text = .error digits ↔
      Program.parse text (some uri) = .error (.scan (.tooManyDigits digits)) := by
  unfold ofDocument
  split <;> rename_i h <;> simp [h]

/-- A document that is read has no diagnostics, and any other has one. -/
theorem Diagnostic.ofDocument_eq_ok {uri text : String} {ds : List Diagnostic}
    (h : ofDocument uri text = .ok ds) :
    (ds = [] ∧ ∃ e, Program.parse text (some uri) = .ok e) ∨
      ∃ d e, ds = [d] ∧ Program.parse text (some uri) = .error e := by
  unfold ofDocument at h
  cases hparse : Program.parse text (some uri) with
  | ok e =>
    rw [hparse] at h
    cases h
    exact Or.inl ⟨rfl, e, rfl⟩
  | error e =>
    rw [hparse] at h
    refine Or.inr ?_
    cases e with
    | syntactic error =>
      cases h
      exact ⟨_, _, rfl, rfl⟩
    | scan fault =>
      cases fault with
      | lexical error =>
        cases h
        exact ⟨_, _, rfl, rfl⟩
      | tooManyDigits digits => cases h

theorem exists_ok_iff {ε α : Type} (x : Except ε α) : (∃ a, x = .ok a) ↔ ∀ e, x ≠ .error e := by
  cases x <;> simp

/-- **A text is answered unless it has a number with too many digits that is met.**  It has a tree
    or an error at a location; its diagnostics are none if it has a tree, and one if it has not;
    and there are edits that format it. -/
theorem answers_iff_not_meetsLongInteger (text : String) :
    (∀ depth filename, ((∃ e, Program.parseTo depth text filename = .ok e) ∨
        ∃ e, Program.parseTo depth text filename = .error e ∧
          (Failure.ofParseError e).IsLocated) ↔
      ¬ Program.MeetsLongInteger depth text filename) ∧
    (∀ uri, ((∃ ds, Diagnostic.ofDocument uri text = .ok ds) ↔
        ¬ Program.MeetsLongInteger Grammar.depthLimit text (some uri)) ∧
      ∀ ds, Diagnostic.ofDocument uri text = .ok ds →
        (ds = [] ∧ ∃ e, Program.parse text (some uri) = .ok e) ∨
          ∃ d e, ds = [d] ∧ Program.parse text (some uri) = .error e) ∧
    ∀ layout limits, (∃ edits, TextEdit.formatting layout text limits = .ok edits) ↔
      ¬ Program.MeetsLongInteger limits.reading text none := by
  refine ⟨fun depth filename => ?_, fun uri => ⟨?_, fun ds => Diagnostic.ofDocument_eq_ok⟩,
    fun layout limits => ?_⟩
  · rw [Program.meetsLongInteger_iff]
    cases hread : Program.parseTo depth text filename with
    | ok e => simp
    | error e => simp [Failure.isLocated_ofParseError]
  · rw [exists_ok_iff, Program.meetsLongInteger_iff, not_exists]
    exact forall_congr' fun digits => not_congr Diagnostic.ofDocument_eq_error
  · rw [exists_ok_iff, Program.meetsLongInteger_iff, not_exists]
    refine forall_congr' fun digits => not_congr ?_
    exact TextEdit.formatting_eq_error.trans Program.format_eq_tooManyDigits

/-- A document that is nothing but a number. -/
def ones (n : Nat) : String := String.ofList (List.replicate (n + 1) '1')

theorem meetsLongInteger_ones {n : Nat} (hn : Scan.digitLimit ≤ n) (depth : Nat)
    (filename : Option String) : Program.MeetsLongInteger depth (ones n) filename := by
  have hdigits : Text.IsDigits (ones n).toList := by
    rw [ones, String.toList_ofList]
    refine ⟨List.replicate_succ_ne_nil, fun c hc => ?_⟩
    rw [List.eq_of_mem_replicate hc]
    rfl
  have hlimit : Scan.digitLimit < (ones n).toList.length := by
    rw [ones, String.toList_ofList, List.length_replicate]
    omega
  exact Program.meetsLongInteger_iff.mpr
    ⟨_, Program.parseTo_of_fault (Cursor.scans_of_isDigits hdigits hlimit)⟩

/-- A number of 4301 digits has neither a tree nor diagnostics nor edits; a closing parenthesis that
    was not opened has one diagnostic. -/
theorem not_answers_ones :
    (∃ digits, Program.parse (ones 4300) = .error (.scan (.tooManyDigits digits))) ∧
    (∀ ds, Diagnostic.ofDocument "untitled:number" (ones 4300) ≠ .ok ds) ∧
    (∀ edits, TextEdit.formatting {} (ones 4300) ≠ .ok edits) ∧
    ∃ d, Diagnostic.ofDocument "untitled:f" "f )" = .ok [d] := by
  have hmeets : ∀ depth filename, Program.MeetsLongInteger depth (ones 4300) filename :=
    meetsLongInteger_ones (Nat.le_refl Scan.digitLimit)
  obtain ⟨-, hdiagnostics, hedits⟩ := answers_iff_not_meetsLongInteger (ones 4300)
  refine ⟨Program.meetsLongInteger_iff.mp (hmeets _ _), fun ds hds => ?_, fun edits h => ?_, ?_⟩
  · exact (hdiagnostics _).1.mp ⟨ds, hds⟩ (hmeets _ _)
  · exact (hedits _ _).mp ⟨edits, h⟩ (hmeets _ _)
  · have hread : (Program.parse "f )" (some "untitled:f")).isOk = false := by decide +kernel
    have hanswer : ∃ ds, Diagnostic.ofDocument "untitled:f" "f )" = .ok ds := by
      refine ((answers_iff_not_meetsLongInteger "f )").2.1 _).1.mpr fun hmeets => ?_
      exact Text.not_hasLongInteger (by decide) hmeets.hasLongInteger
    obtain ⟨ds, hds⟩ := hanswer
    rcases ((answers_iff_not_meetsLongInteger "f )").2.1 _).2 ds hds with
      ⟨-, e, he⟩ | ⟨d, e, rfl, -⟩
    · rw [he] at hread
      cases hread
    · exact ⟨d, hds⟩

end Editor

end Juxta
