/-
  Juxta/Proofs/Editor/LineEnds.lean
  =================================
  **Where lines end** — a line ends at a line feed, wherever a position is counted for an editor.
  The protocol of editors also ends it at a carriage return that no line feed follows.

    * `Position.walk` counts a position character by character, whatever ends a line;
      `Position.behind` is the position by line feeds alone (`walk_eq_behind`), and
      `Position.inProtocol` that of the protocol;
    * `Position.IsSentFor`: a position by line feeds lacks a line for each carriage return that
      stands alone, and is that of the protocol if there is none;
    * `positions_sent`: this holds of every position that is sent.
-/
import Mathlib.Data.List.Forall2
import Juxta.Editor.DocumentSymbol
import Juxta.Proofs.Editor.Marking
import Juxta.Proofs.Grammar.Outline

namespace Juxta.Editor

/-! ### Two rules for lines -/

namespace Position

/-- The position behind one more character, which may end the line. -/
def past (p : Position) (ends : Bool) (c : Char) : Position :=
  if ends then ⟨p.line + 1, 0⟩ else ⟨p.line, p.character + Text.units16 c⟩

/-- The position behind some characters of a text that comes behind a position, by a rule that
    tells from a character and what follows it whether a line ends. -/
def walk (ends : Char → List Char → Bool) (p : Position) : List Char → Nat → Position
  | [], _ => p
  | _ :: _, 0 => p
  | c :: text, n + 1 => walk ends (p.past (ends c text) c) text n

/-- Line feeds end lines. -/
def isFeed (c : Char) (_ : List Char) : Bool := c == '\n'

/-- The character is a carriage return without a line feed behind it. -/
def isLoneReturn (c : Char) (text : List Char) : Bool := c == '\r' && text.head? != some '\n'

/-- The protocol ends lines at line feeds, carriage returns, and both together. -/
def endsLine (c : Char) (text : List Char) : Bool := isFeed c text || isLoneReturn c text

/-- The position behind some characters of a text, as the protocol counts. -/
def inProtocol (text : List Char) (n : Nat) : Position := walk endsLine ⟨0, 0⟩ text n

/-- How many of the first characters of a text are carriage returns that stand alone. -/
def loneReturns : List Char → Nat → Nat
  | [], _ => 0
  | _ :: _, 0 => 0
  | c :: text, n + 1 => (isLoneReturn c text).toNat + loneReturns text n

theorem behind_append_singleton (before : List Char) (c : Char) :
    behind (before ++ [c]) = (behind before).past (c == '\n') c := by
  rw [behind, List.count_append, List.count_singleton, List.rtakeWhile_concat]
  by_cases hc : c = '\n'
  · rw [hc]
    rfl
  · simp [hc, past, behind, Text.width16_append]

/-- Walking by line feeds is counting them. -/
theorem walk_isFeed (before text : List Char) (n : Nat) :
    walk isFeed (behind before) text n = behind (before ++ text.take n) := by
  induction text generalizing before n with
  | nil => rw [walk, List.take_nil, List.append_nil]
  | cons c text ih =>
    cases n with
    | zero => rw [walk, List.take_zero, List.append_nil]
    | succ n =>
      rw [walk, isFeed, ← behind_append_singleton, ih, List.append_assoc, List.take_succ_cons]
      rfl

theorem walk_eq_behind (text : List Char) (n : Nat) :
    walk isFeed ⟨0, 0⟩ text n = behind (text.take n) := by
  rw [← behind_nil, walk_isFeed, List.nil_append]

theorem line_past (p : Position) (ends : Bool) (c : Char) :
    (p.past ends c).line = p.line + ends.toNat := by
  cases ends <;> rfl

/-- Nothing is a line feed and a carriage return at once. -/
theorem toNat_endsLine (c : Char) (text : List Char) :
    (endsLine c text).toNat = (isFeed c text).toNat + (isLoneReturn c text).toNat := by
  by_cases hc : c = '\n'
  · subst hc
    rfl
  · have hfeed : isFeed c text = false := by simpa [isFeed] using hc
    rw [endsLine, hfeed, Bool.false_or]
    exact (Nat.zero_add _).symm

/-- The lines that end by one rule only are counted one by one, wherever the two walks begin. -/
theorem line_walk (p q : Position) (text : List Char) (n : Nat) :
    (walk endsLine p text n).line + q.line =
      (walk isFeed q text n).line + p.line + loneReturns text n := by
  -- Behind a return that stands alone the walks are at different positions: both are left open.
  induction text generalizing p q n with
  | nil => exact Nat.add_comm _ _
  | cons c text ih =>
    cases n with
    | zero => exact Nat.add_comm _ _
    | succ n =>
      have hlater := ih (p.past (endsLine c text) c) (q.past (isFeed c text) c) n
      rw [line_past, line_past, toNat_endsLine] at hlater
      rw [walk, walk, loneReturns]
      omega

theorem walk_eq_of_loneReturns {text : List Char} {n : Nat} (h : loneReturns text n = 0)
    (p : Position) : walk endsLine p text n = walk isFeed p text n := by
  induction text generalizing p n with
  | nil => rfl
  | cons c text ih =>
    cases n with
    | zero => rfl
    | succ n =>
      rw [loneReturns, Nat.add_eq_zero_iff, Bool.toNat_eq_zero] at h
      obtain ⟨hlone, hlater⟩ := h
      rw [walk, walk, endsLine, hlone, Bool.or_false, ih hlater]

/-- What a position is worth that is sent for the place behind `n` characters of a text: it lacks
    a line for each carriage return that stands alone in front of the place. -/
structure IsSentFor (p : Position) (text : List Char) (n : Nat) : Prop where
  line : (inProtocol text n).line = p.line + loneReturns text n
  exact_iff : p = inProtocol text n ↔ loneReturns text n = 0

/-- **A position by line feeds is that of the protocol exactly if no carriage return in front of
    it stands alone.** -/
theorem isSentFor_behind (text : List Char) (n : Nat) :
    (behind (text.take n)).IsSentFor text n := by
  have hline : (inProtocol text n).line = (behind (text.take n)).line + loneReturns text n := by
    have hwalks := line_walk ⟨0, 0⟩ ⟨0, 0⟩ text n
    rw [walk_eq_behind] at hwalks
    exact hwalks
  refine ⟨hline, fun h => ?_, fun h => ?_⟩
  · rw [← h] at hline
    omega
  · rw [inProtocol, walk_eq_of_loneReturns h, walk_eq_behind]

end Position

/-! ### Ranges of an outline -/

namespace DocumentSymbol

mutual

/-- The ranges of a binding and of those in it, in pre-order. -/
def ranges : DocumentSymbol → List Range
  | .mk _ _ _ range children => range :: rangesAll children

def rangesAll : List DocumentSymbol → List Range
  | [] => []
  | s :: ss => ranges s ++ rangesAll ss

end

/-- The range at which a binding of a walk is shown. -/
def rangeOfLabel (lines : List (List Char)) (label : Binding.Label) : Range :=
  rangeOf lines (.mk label.name label.kind label.detail label.location [])

section Labels

variable {lines : List (List Char)} {label : Binding.Label}

theorem rangeOfLabel_of_location {l : Location} (h : label.location = some l) :
    rangeOfLabel lines label = .ofLocation l lines := by
  rw [rangeOfLabel, rangeOf]
  dsimp only [Binding.location]
  rw [h]

theorem rangeOfLabel_of_none (h : label.location = none) :
    rangeOfLabel lines label = .onLine 0 0 label.name.length := by
  rw [rangeOfLabel, rangeOf]
  dsimp only [Binding.location]
  rw [h]
  rfl

end Labels

mutual

theorem ranges_ofBinding (lines : List (List Char)) (above : List Binding.Label) :
    (b : Binding) →
      ranges (ofBinding lines b) = (b.walk above).map fun p => rangeOfLabel lines p.2
  | .mk name kind detail location children => by
    rw [ofBinding, ranges, rangesAll_ofBindings lines _ children, Binding.walk]
    rfl

theorem rangesAll_ofBindings (lines : List (List Char)) (above : List Binding.Label) :
    (bs : List Binding) → rangesAll (ofBindings lines bs) =
      (Binding.walkAll above bs).map fun p => rangeOfLabel lines p.2
  | [] => rfl
  | b :: bs => by
    rw [ofBindings, rangesAll, ranges_ofBinding lines above b,
      rangesAll_ofBindings lines above bs, Binding.walkAll, List.map_append]

end

end DocumentSymbol

/-! ### Positions that are sent -/

theorem Range.start_ofLocation_locationAt {text : List Char} {n : Nat} (hn : n ≤ text.length)
    (filename : Option String) (length : Int) :
    (ofLocation (Text.locationAt text filename n length) (Text.splitNewlines text)).start =
      .behind (text.take n) := by
  rw [ofLocation_locationAt hn]
  rfl

variable {text : String}

theorem TextEdit.isSentFor_of_formatting {layout : Layout} {limits : Limits}
    {edits : List TextEdit} (h : formatting layout text limits = .ok edits) {edit : TextEdit}
    (hedit : edit ∈ edits) : edit.range.start = .inProtocol text.toList 0 ∧
      edit.range.stop.IsSentFor text.toList text.toList.length := by
  have hnew : ∃ newText, edit = replaceAll text newText := by
    unfold formatting at h
    split at h
    · rename_i out _
      cases h
      split at hedit
      · cases hedit
      · exact ⟨out, List.mem_singleton.mp hedit⟩
    · cases h
    · cases h
      cases hedit
  obtain ⟨newText, rfl⟩ := hnew
  refine ⟨?_, ?_⟩
  · cases text.toList <;> rfl
  · have hstop := Position.isSentFor_behind text.toList text.toList.length
    rw [List.take_length, ← Position.ending_eq_behind] at hstop
    exact hstop

/-- The start of a diagnostic is sent for the offset of the error. -/
theorem Diagnostic.isSentFor_ofReport {err : ParseError} {depth : Nat}
    {filename : Option String} (h : Program.parseTo depth text filename = .error err) {r : Report}
    (hr : (Failure.ofParseError err).report? = some r) (phase : Phase) :
    ∃ (l : Location) (n : Nat), r.location = some l ∧ l.offset = n ∧ n ≤ text.toList.length ∧
      (ofReport text r phase).range.start.IsSentFor text.toList n := by
  obtain ⟨n, hn, length, hlocation, -, -⟩ := Program.exists_place h hr
  refine ⟨_, n, hlocation, rfl, hn, ?_⟩
  rw [ofReport, hlocation]
  dsimp only
  rw [Range.start_ofLocation_locationAt hn]
  exact Position.isSentFor_behind text.toList n

/-- The start of a binding is sent for the offset of the binding. -/
theorem DocumentSymbol.isSentFor_ofTree {tree : Expr} {depth : Nat} {filename : Option String}
    (h : Program.parseTo depth text filename = .ok tree) :
    List.Forall₂ (fun range location => ∃ (l : Location) (n : Nat),
        location = some l ∧ l.offset = n ∧ n ≤ text.toList.length ∧
        range.start.IsSentFor text.toList n)
      (rangesAll (ofTree text tree)) ((Binding.walkAll [] tree.bindings).map (·.2.location)) := by
  obtain ⟨marks, hmarks, htext, -⟩ := Expr.exists_marks_of_parseTo h
  have hlocations : ∀ p ∈ Binding.walkAll [] tree.bindings, ∃ m ∈ marks,
      p.2.location =
        some (Text.locationAt text.toList filename m.2 m.1.lexeme.length) := by
    intro p hp
    have hmem := List.mem_map_of_mem (f := (·.2.location)) hp
    rw [Expr.locations_eq_of_bindingSigns hmarks] at hmem
    obtain ⟨m, hm, hlocation⟩ := List.mem_map.mp hmem
    exact ⟨m, hm, hlocation.symm⟩
  rw [ofTree, rangesAll_ofBindings _ []]
  rw [List.forall₂_map_left_iff, List.forall₂_map_right_iff, List.forall₂_same]
  intro p hp
  obtain ⟨m, hm, hlocation⟩ := hlocations p hp
  have hn : m.2 ≤ text.toList.length := Keyword.le_length_of_take_drop (htext m hm)
  refine ⟨_, m.2, hlocation, rfl, hn, ?_⟩
  rw [rangeOfLabel_of_location hlocation, Range.start_ofLocation_locationAt hn]
  exact Position.isSentFor_behind text.toList m.2

/-- **Every position that is sent lacks the lines that end at carriage returns alone**, and is that
    of the protocol exactly if there are none in front of it.  This is so of the end of the
    document in the edit that formats it, of the place of an error in its diagnostic, and of the
    places of the bindings in an outline. -/
theorem positions_sent (text : String) :
    (∀ layout limits edits, TextEdit.formatting layout text limits = .ok edits →
      ∀ edit ∈ edits, edit.range.start = .inProtocol text.toList 0 ∧
        edit.range.stop.IsSentFor text.toList text.toList.length) ∧
    (∀ uri ds, Diagnostic.ofDocument uri text = .ok ds → ∀ d ∈ ds,
      ∃ (err : ParseError) (r : Report) (l : Location) (n : Nat),
        Program.parse text (some uri) = .error err ∧
        (Failure.ofParseError err).report? = some r ∧ r.location = some l ∧ l.offset = n ∧
        n ≤ text.toList.length ∧ d.range.start.IsSentFor text.toList n) ∧
    ∀ uri symbols, DocumentSymbol.ofDocument uri text = .ok (some symbols) →
      ∃ tree, Program.parse text (some uri) = .ok tree ∧
        List.Forall₂ (fun range location => ∃ (l : Location) (n : Nat),
            location = some l ∧ l.offset = n ∧ n ≤ text.toList.length ∧
            range.start.IsSentFor text.toList n)
          (DocumentSymbol.rangesAll symbols)
          ((Binding.walkAll [] tree.bindings).map (·.2.location)) := by
  refine ⟨fun _ _ _ h _ => TextEdit.isSentFor_of_formatting h, fun uri ds h d hd => ?_,
    fun uri symbols h => ?_⟩
  · cases hparse : Program.parse text (some uri) with
    | ok tree =>
      rw [Diagnostic.ofDocument, hparse] at h
      cases h
      cases hd
    | error err =>
      have hreport : ∃ r, (Failure.ofParseError err).report? = some r := by
        cases err with
        | syntactic e => exact ⟨_, rfl⟩
        | scan fault =>
          cases fault with
          | lexical e => exact ⟨_, rfl⟩
          | tooManyDigits digits =>
            rw [Diagnostic.ofDocument, hparse] at h
            cases h
      obtain ⟨r, hr⟩ := hreport
      rw [Diagnostic.ofDocument_of_parse hparse hr] at h
      cases h
      obtain rfl := List.mem_singleton.mp hd
      obtain ⟨l, n, hlocation, hoffset, hn, hsent⟩ :=
        Diagnostic.isSentFor_ofReport hparse hr (.ofError err)
      exact ⟨err, r, l, n, rfl, hr, hlocation, hoffset, hn, hsent⟩
  · unfold DocumentSymbol.ofDocument at h
    split at h
    · rename_i tree hparse
      cases h
      exact ⟨tree, hparse, DocumentSymbol.isSentFor_ofTree hparse⟩
    · cases h
    · cases h

/-- Behind a carriage return alone: the end of a document that is to be formatted, a bracket that
    closes nothing, and a binding. -/
theorem positions_sent_loneReturn :
    (∃ edit, TextEdit.formatting {} "f\rx" = .ok [edit] ∧ edit.range.stop = ⟨0, 3⟩ ∧
      edit.range.stop ≠ .inProtocol "f\rx".toList 3) ∧
    (∃ d, Diagnostic.ofDocument "untitled:f" "f\r)" = .ok [d] ∧ d.range.start = ⟨0, 2⟩ ∧
      d.range.start ≠ .inProtocol "f\r)".toList 2) ∧
    ∃ symbols range, DocumentSymbol.ofDocument "untitled:f" "\rlet x 1" = .ok (some symbols) ∧
      DocumentSymbol.rangesAll symbols = [range] ∧ range.start = ⟨0, 1⟩ ∧
      range.start ≠ .inProtocol "\rlet x 1".toList 1 := by
  refine ⟨?_, ?_, ?_⟩
  · have hedits : TextEdit.formatting {} "f\rx" = .ok [⟨⟨⟨0, 0⟩, ⟨0, 3⟩⟩, "f x\n"⟩] := by
      decide +kernel
    obtain ⟨-, hsent⟩ := (positions_sent "f\rx").1 {} {} _ hedits _ (List.mem_singleton.mpr rfl)
    refine ⟨_, hedits, rfl, fun h => ?_⟩
    exact absurd (hsent.exact_iff.mp h) (by decide)
  · have hparse : Program.parse "f\r)" (some "untitled:f") = .error (.syntactic ⟨.trailing,
        ⟨.punctuation .closeParen, ⟨1, 3, 2, 1, some "untitled:f"⟩⟩, some "f\r)"⟩) :=
      Program.eq_error_of_map (f := fun _ => ()) (by decide +kernel)
    have hdocument := Diagnostic.ofDocument_of_parse hparse rfl
    obtain ⟨err, r, l, n, herr, hr, hlocation, hoffset, -, hsent⟩ :=
      (positions_sent "f\r)").2.1 "untitled:f" _ hdocument _ (List.mem_singleton.mpr rfl)
    cases hparse.symm.trans herr
    cases hr
    cases hlocation
    obtain rfl : n = 2 := Int.ofNat.inj hoffset.symm
    refine ⟨_, hdocument, by decide +kernel, fun h => ?_⟩
    exact absurd (hsent.exact_iff.mp h) (by decide)
  · have hread : ((Program.parse "\rlet x 1" (some "untitled:f")).toOption.map fun tree =>
        (DocumentSymbol.rangesAll (DocumentSymbol.ofTree "\rlet x 1" tree),
          (Binding.walkAll [] tree.bindings).map (·.2.location))) =
        some ([.onLine 0 1 4], [some ⟨1, 2, 1, 3, some "untitled:f"⟩]) := by decide +kernel
    cases hparse : Program.parse "\rlet x 1" (some "untitled:f") with
    | error err =>
      rw [hparse] at hread
      cases hread
    | ok tree =>
      rw [hparse] at hread
      obtain ⟨hranges, hlocations⟩ := Prod.mk.inj (Option.some.inj hread)
      have hdocument : DocumentSymbol.ofDocument "untitled:f" "\rlet x 1" =
          .ok (some (DocumentSymbol.ofTree "\rlet x 1" tree)) := by
        rw [DocumentSymbol.ofDocument, hparse]
      obtain ⟨tree', htree', hsent⟩ :=
        (positions_sent "\rlet x 1").2.2 "untitled:f" _ hdocument
      cases hparse.symm.trans htree'
      rw [hranges, hlocations] at hsent
      obtain ⟨⟨l, n, hlocation, hoffset, -, hstart⟩, -⟩ := List.forall₂_cons.mp hsent
      cases hlocation
      obtain rfl : n = 1 := Int.ofNat.inj hoffset.symm
      refine ⟨_, _, hdocument, hranges, rfl, fun h => ?_⟩
      exact absurd (hstart.exact_iff.mp h) (by decide)

end Juxta.Editor
