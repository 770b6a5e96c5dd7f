/-
  Juxta/Proofs/Editor/Marking.lean
  ================================
  **Diagnostics mark what an error is about** — three counts meet in a range: the offset of an
  error, its column in characters, and the columns of its line in UTF-16 code units.

    * `Range.Covers` says what part of a document a range marks.  A range is on one line: a part
      that goes on behind the line is marked to the end of the line at least, and nothing at all
      is marked as one code unit;
    * `Range.covers_ofLocation`: the range of a location covers what stands there;
    * `diagnostic_marks_offence`: the one diagnostic of a text that is no program covers what the
      error is about.
-/
import Juxta.Editor.Diagnostic
import Juxta.Proofs.Editor.Replacement
import Juxta.Proofs.Grammar.Offence
import Juxta.Proofs.Text.Units

namespace Juxta.Editor

/-! ### Ranges and what they cover -/

namespace Range

/-- The range begins behind `n` characters of the text and marks `part`, which stands there, as
    far as it is on that line. -/
structure Covers (range : Range) (text : List Char) (n : Nat) (part : List Char) : Prop where
  start : range.start = Position.behind (text.take n)
  sameLine : range.stop.line = range.start.line
  /-- Nothing is marked as one code unit. -/
  nothing : part = [] → range.stop.character = range.start.character + 1
  /-- A part of one line is marked exactly: its code units are those between the two columns, and
      those of no other text are. -/
  exactly : part ≠ [] → '\n' ∉ part →
    range.stop.character = range.start.character + Text.width16 part ∧
    ∃ line, (Text.splitNewlines text)[range.start.line]? = some line ∧ ∀ marked,
      Text.slice16 line range.start.character range.stop.character = Text.utf16 marked ↔
        marked = part
  /-- A part of several lines is marked to the end of the first one at least. -/
  wholeLine : '\n' ∈ part → ∃ line, (Text.splitNewlines text)[range.start.line]? = some line ∧
    Text.width16 line ≤ range.stop.character

variable {text part : List Char} {n : Nat}

/-- Columns of a place on its line, in code units. -/
theorem ofLocation_locationAt (hn : n ≤ text.length) (filename : Option String) (length : Int) :
    ofLocation (Text.locationAt text filename n length) (Text.splitNewlines text) =
      .onLine ((text.take n).count '\n') (Text.width16 (Text.lineHead text n))
        (Text.column16 (Text.lineHead text n ++ Text.firstLine (text.drop n))
          ((Text.lineHead text n).length + (max 1 length).toNat)) := by
  have hline : (1 + ((text.take n).count '\n' : Int) - 1).toNat = (text.take n).count '\n' := by
    omega
  have hcolumn : (1 + ((Text.lineHead text n).length : Int) - 1).toNat =
      (Text.lineHead text n).length := by
    omega
  rw [ofLocation, Text.locationAt]
  dsimp only
  rw [hline, hcolumn, List.getD_eq_getElem?_getD, Text.getElem?_splitNewlines hn, Option.getD_some,
    Text.column16_append]

/-- The first line of a text goes on as long as there is no line feed. -/
theorem prefix_firstLine {rest : List Char} (hpart : part <+: rest) (hfeed : '\n' ∉ part) :
    ∃ after, Text.firstLine rest = part ++ after := by
  obtain ⟨after, rfl⟩ := hpart
  exact ⟨_, List.takeWhile_append_of_pos (Text.forall_ne_lineFeed hfeed)⟩

/-- The first line of a text ends in front of every line feed. -/
theorem length_firstLine_lt {rest : List Char} (hpart : part <+: rest) (hfeed : '\n' ∈ part) :
    (Text.firstLine rest).length < part.length := by
  by_contra hle
  have hfirst : part <+: Text.firstLine rest :=
    List.prefix_of_prefix_length_le hpart (List.takeWhile_prefix _) (Nat.not_lt.mp hle)
  have hne := Text.of_mem_takeWhile (hfirst.subset hfeed)
  simp at hne

/-- **The range of a location covers what stands there.** -/
theorem covers_ofLocation (hn : n ≤ text.length) (filename : Option String) {length : Int}
    (hpart : part <+: text.drop n) (hend : part = [] → n = text.length)
    (hlength : max 1 length = max 1 (part.length : Int)) :
    (ofLocation (Text.locationAt text filename n length) (Text.splitNewlines text)).Covers
      text n part := by
  have hline := Text.getElem?_splitNewlines hn
  rw [ofLocation_locationAt hn, hlength]
  refine ⟨rfl, rfl, fun hnil => ?_, fun hne hfeed => ?_, fun hfeed => ⟨_, hline, ?_⟩⟩
  · -- The line is over, and its columns go on unit by unit.
    obtain rfl := hend hnil
    subst hnil
    rw [List.drop_length]
    change Text.column16 (_ ++ []) (_ + 1) = Text.width16 _ + 1
    rw [List.append_nil, Text.column16, List.take_of_length_le (Nat.le_succ _)]
    omega
  · obtain ⟨after, hafter⟩ := prefix_firstLine hpart hfeed
    have hpos : (max 1 (part.length : Int)).toNat = part.length := by
      have := List.length_pos_iff.mpr hne
      omega
    have hcolumn : Text.column16 (Text.lineHead text n ++ Text.firstLine (text.drop n))
        ((Text.lineHead text n).length + (max 1 (part.length : Int)).toNat) =
          Text.width16 (Text.lineHead text n) + Text.width16 part := by
      rw [hpos, hafter, ← List.append_assoc, ← List.length_append, Text.column16_append,
        Text.width16_append]
    refine ⟨hcolumn, _, hline, fun marked => ?_⟩
    change Text.slice16 _ (Text.width16 _) (Text.column16 _ _) = _ ↔ _
    rw [hcolumn, hafter, ← List.append_assoc, Text.slice16_append]
    exact ⟨fun h => (Text.utf16_injective h).symm, fun h => by rw [h]⟩
  · have hlt := length_firstLine_lt hpart hfeed
    change _ ≤ Text.column16 _ _
    rw [Text.column16, List.take_of_length_le]
    · exact Nat.le_add_right _ _
    · rw [List.length_append]
      omega

end Range

/-! ### Diagnostics -/

/-- Which part of the reader an error comes from. -/
def Phase.ofError : ParseError → Phase
  | .scan _ => .lexer
  | .syntactic _ => .parser

/-- The one diagnostic of a text with an error. -/
theorem Diagnostic.ofDocument_of_parse {uri text : String} {err : ParseError}
    (h : Program.parse text (some uri) = .error err) {r : Report}
    (hr : (Failure.ofParseError err).report? = some r) :
    ofDocument uri text = .ok [ofReport text r (.ofError err)] := by
  rw [ofDocument, h]
  cases err with
  | syntactic e => cases hr; rfl
  | scan fault =>
    cases fault with
    | lexical e => cases hr; rfl
    | tooManyDigits digits => cases hr

variable {depth : Nat} {text : String} {filename : Option String} {err : ParseError}

/-- **A diagnostic marks what the error is about.**  A text with an error has this one diagnostic.
    Its range begins behind as many characters as the location of the error counts, and covers
    what stands there: all of the token that was found, which is nothing at the end of the input,
    or the first character of a fault. -/
theorem diagnostic_marks_offence (h : Program.parseTo depth text filename = .error err)
    {r : Report} (hr : (Failure.ofParseError err).report? = some r) :
    (∀ uri, depth = Grammar.depthLimit → filename = some uri →
      Diagnostic.ofDocument uri text = .ok [Diagnostic.ofReport text r (.ofError err)]) ∧
    ∃ (l : Location) (n : Nat) (part : List Char),
      r.location = some l ∧ l.offset = n ∧ n ≤ text.toList.length ∧
      err.Concerns part ∧ part <+: text.toList.drop n ∧ (part = [] → n = text.toList.length) ∧
      (Diagnostic.ofReport text r (.ofError err)).range.Covers text.toList n part := by
  constructor
  · rintro uri rfl rfl
    exact Diagnostic.ofDocument_of_parse h hr
  · obtain ⟨n, length, part, hn, hlocation, hconcerns, hpart, hend, hlength⟩ :=
      Program.exists_offence h hr
    refine ⟨_, n, part, hlocation, rfl, hn, hconcerns, hpart, hend, ?_⟩
    rw [Diagnostic.ofReport, hlocation]
    exact Range.covers_ofLocation hn filename hpart hend hlength

/-- Behind a character with two code units, a bracket that closes nothing and a string that does
    not end. -/
theorem diagnostic_marks_offence_astral :
    (∃ d, Diagnostic.ofDocument "untitled:f" "f\n𝒳 )" = .ok [d] ∧ d.phase = .parser ∧
      d.range = .onLine 1 3 4 ∧ d.range.Covers "f\n𝒳 )".toList 4 [')']) ∧
    ∃ d, Diagnostic.ofDocument "untitled:f" "𝒳 'a\nb" = .ok [d] ∧ d.phase = .lexer ∧
      d.range = .onLine 0 3 4 ∧ d.range.Covers "𝒳 'a\nb".toList 2 ['\''] := by
  constructor
  · have h : Program.parse "f\n𝒳 )" (some "untitled:f") = .error (.syntactic ⟨.trailing,
        ⟨.punctuation .closeParen, ⟨2, 3, 4, 1, some "untitled:f"⟩⟩, some "𝒳 )"⟩) :=
      Program.eq_error_of_map (f := fun _ => ()) (by decide +kernel)
    obtain ⟨hdocument, l, n, part, hlocation, hn, -, hconcerns, -, -, hcovers⟩ :=
      diagnostic_marks_offence h rfl
    cases hlocation
    obtain rfl : n = 4 := Int.ofNat.inj hn.symm
    cases hconcerns
    exact ⟨_, hdocument _ rfl rfl, rfl, by decide +kernel, hcovers⟩
  · have h : Program.parse "𝒳 'a\nb" (some "untitled:f") = .error (.scan (.lexical
        ⟨.unterminatedString "'a\nb", ⟨1, 3, 2, 0, some "untitled:f"⟩, "𝒳 'a"⟩)) :=
      Program.eq_error_of_map (f := fun _ => ()) (by decide +kernel)
    obtain ⟨hdocument, l, n, part, hlocation, hn, -, hconcerns, -, -, hcovers⟩ :=
      diagnostic_marks_offence h rfl
    cases hlocation
    obtain rfl : n = 2 := Int.ofNat.inj hn.symm
    cases hconcerns with
    | head hbegins _ =>
      cases hbegins with
      | unterminatedString hmark =>
        rw [← Option.some.inj hmark] at hcovers
        exact ⟨_, hdocument _ rfl rfl, rfl, by decide +kernel, hcovers⟩

end Juxta.Editor
