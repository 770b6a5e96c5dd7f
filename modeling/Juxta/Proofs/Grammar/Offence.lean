/-
  Juxta/Proofs/Grammar/Offence.lean
  =================================
  **What an error points at** — an error has a place in the text, and what stands there is what
  the error complains of:

    * `Scan.fault_beginsWith`: a fault begins with the character that stands at the head of the
      text;
    * `ParseError.Concerns`: the characters that an error is about, which are the whole lexeme of
      a token and the first character of a fault;
    * `Program.exists_offence`: these stand in the text, behind as many characters as the location
      of the error says, and the length of the location is theirs.
-/
import Juxta.Proofs.Grammar.Excerpt
import Juxta.Proofs.Grammar.Fault

namespace Juxta

/-! ### The first character of a fault -/

/-- How a text at fault begins: a number with a digit, a string with its opening mark. -/
inductive Fault.BeginsWith : Fault → Char → Prop where
  | unexpectedCharacter {c : Char} : BeginsWith (.unexpectedCharacter c) c
  | malformedDecimal {c : Char} {word : String} :
      c.isDigit = true → word.toList.head? = some c → BeginsWith (.malformedDecimal word) c
  | unterminatedString {mark : QuoteMark} {word : String} :
      word.toList.head? = some mark.char → BeginsWith (.unterminatedString word) mark.char

namespace Scan

variable {c : Char} {rest : List Char} {fault : Fault}

theorem ofWord_ne_fault (word : String) : ofWord word ≠ .fault fault := by
  unfold ofWord
  split <;> nofun

theorem fault_beginsWith_of_ofNumber (hc : c.isDigit = true)
    (h : ofNumber (c :: rest) = .fault fault) : fault.BeginsWith c := by
  unfold ofNumber at h
  simp only at h
  split at h
  · split at h
    · cases h
      refine .malformedDecimal hc ?_
      simp [hc, String.toList_append]
    · cases h
  · unfold ofInteger at h
    split at h <;> cases h

theorem fault_beginsWith_of_ofOther (h : ofOther c rest = .fault fault) : fault.BeginsWith c := by
  unfold ofOther at h
  simp only at h
  split at h
  · cases h
  · split at h
    · rename_i mark hmark
      obtain rfl : mark.char = c := by simpa using List.find?_some hmark
      unfold ofString at h
      simp only at h
      split at h
      · cases h
        refine .unterminatedString ?_
        simp [String.toList_append, Char.toString_eq_singleton]
      · cases h
    · cases h
      exact .unexpectedCharacter

/-- **A fault begins with the character at the head of the text.** -/
theorem fault_beginsWith (h : ofText (c :: rest) = .fault fault) : fault.BeginsWith c := by
  simp only [ofText] at h
  split at h
  · cases h
  · split at h
    · exact absurd h (ofWord_ne_fault _)
    · split at h
      · cases h
      · split at h
        · rename_i hc
          exact fault_beginsWith_of_ofNumber hc h
        · exact fault_beginsWith_of_ofOther h

end Scan

section Faults

variable {text : List Char} {filename : Option String} {n : Nat} {e : LexicalError}

/-- A fault that is met behind `n` characters is that of the text behind the blanks there. -/
theorem Scanner.exists_fault_of_next {k' : Cursor}
    (h : Scanner.next (.behind text filename n) = .error (.lexical e) k') :
    ∃ start c, text[start]? = some c ∧ Text.isBlank c = false ∧ e.fault.BeginsWith c ∧
      e.location = Text.locationAt text filename start e.fault.span := by
  let start := n + ((text.drop n).takeWhile Text.isBlank).length
  have houtcome : (Scanner.call (.behind text filename n)).outcome = .error (.lexical e) := by
    rw [Scanner.call, h]
  have hdrop : text.drop start = (text.drop n).dropWhile Text.isBlank := by
    obtain ⟨blank, rest, hrest, htake, hdropWhile, -, -⟩ :=
      Text.exists_run Text.isBlank (text.drop n)
    rw [hdropWhile, ← List.drop_drop, htake, hrest, List.drop_left]
  have hstops : Text.Stops Text.isBlank (text.drop start) := by
    rw [hdrop]
    exact Text.stops_dropWhile _ _
  rw [Scanner.call_eq, Scanner.skipBlanks_behind, Cursor.rest_behind] at houtcome
  change (Scanner.Call.ofScan (.behind text filename start)
    (Scan.ofText (text.drop start))).outcome = _ at houtcome
  cases hrest : text.drop start with
  | nil =>
    rw [hrest] at houtcome
    cases houtcome
  | cons c rest =>
    have hc : text[start]? = some c := by
      rw [← List.head?_drop, hrest]
      rfl
    have hstart : start ≤ text.length := Nat.le_of_lt (List.getElem?_eq_some_iff.mp hc).1
    rw [hrest] at hstops
    cases hscan : Scan.ofText (c :: rest) with
    | token s =>
      rw [hrest, hscan] at houtcome
      cases houtcome
    | fault f =>
      rw [hrest, hscan] at houtcome
      cases houtcome
      exact ⟨start, c, hc, Text.stops_cons.mp hstops, Scan.fault_beginsWith hscan,
        Cursor.location_behind hstart _⟩
    | tooManyDigits digits =>
      rw [hrest, hscan] at houtcome
      cases houtcome

/-- A scan that ends in a fault has come to a character of the text that is no blank, and reports
    the fault that begins with it. -/
theorem Cursor.Scans.exists_fault {k : Cursor} {ts : List Token}
    (h : k.Scans ts (some (.lexical e))) (hn : n ≤ text.length)
    (hk : k = .behind text filename n) :
    ∃ start c, text[start]? = some c ∧ Text.isBlank c = false ∧ e.fault.BeginsWith c ∧
      e.location = Text.locationAt text filename start e.fault.span := by
  generalize hf : some (ScanError.lexical e) = f at h
  induction h generalizing n with
  | last => cases hf
  | fault hnext =>
    cases hf
    rw [hk] at hnext
    exact Scanner.exists_fault_of_next hnext
  | more hnext ht _ ih =>
    rw [hk] at hnext
    obtain ⟨-, stop, -, hstop, hafter, -⟩ := Scanner.exists_standsAt_of_next hn hnext
    exact ih hstop hafter hf

end Faults

/-! ### What an error is about -/

/-- The characters that an error is about. -/
inductive ParseError.Concerns : ParseError → List Char → Prop where
  /-- All of a token that was found; nothing at the end of the input. -/
  | found {e : SyntaxError} : Concerns (.syntactic e) e.found.lexeme.toList
  /-- The first character of a fault. -/
  | head {e : LexicalError} {c : Char} :
      e.fault.BeginsWith c → Text.isBlank c = false → Concerns (.scan (.lexical e)) [c]

namespace Program

variable {depth : Nat} {text : String} {filename : Option String} {err : ParseError}

/-- **What an error is about stands at its location.**  The location spans it, or spans nothing
    where a single character is meant; only the end of input is nothing at all. -/
theorem exists_offence (h : parseTo depth text filename = .error err) {r : Report}
    (hr : (Failure.ofParseError err).report? = some r) :
    ∃ n length part, n ≤ text.toList.length ∧
      r.location = some (Text.locationAt text.toList filename n length) ∧ err.Concerns part ∧
      part <+: text.toList.drop n ∧ (part = [] → n = text.toList.length) ∧
      max 1 length = max 1 (part.length : Int) := by
  cases err with
  | syntactic e =>
    obtain ⟨start, stop, hstop, hstands, -⟩ := exists_standsAt_found h
    cases hr
    generalize hfound : e.found = t at hstands
    have hconcerns : (ParseError.syntactic e).Concerns t.lexeme.toList := hfound ▸ .found
    cases hstands with
    | @token s _ hlexeme hprefix =>
      have hpos := hlexeme.length_pos
      refine ⟨start, _, s.lexeme.toList, ?_, congrArg (fun t : Token => some t.location) hfound,
        hconcerns, hprefix, fun hnil => ?_, ?_⟩
      · omega
      · rw [← String.length_toList, hnil] at hpos
        exact absurd hpos (Nat.lt_irrefl 0)
      · rw [String.length_toList]
    | endOfInput =>
      exact ⟨_, _, [], Nat.le_refl _, congrArg (fun t : Token => some t.location) hfound,
        hconcerns, List.nil_prefix, fun _ => rfl, rfl⟩
  | scan fault =>
    cases fault with
    | tooManyDigits digits => cases hr
    | lexical e =>
      cases hr
      obtain ⟨ts, hscans, -⟩ := parseTo_eq_scan_iff.mp h
      obtain ⟨start, c, hc, hblank, hbegins, hlocation⟩ :=
        hscans.exists_fault (Nat.zero_le _) rfl
      obtain ⟨hlt, -⟩ := List.getElem?_eq_some_iff.mp hc
      have hprefix : [c] <+: text.toList.drop start :=
        ⟨_, (List.drop_eq_getElem?_toList_append.trans (by rw [hc]; rfl)).symm⟩
      refine ⟨start, _, [c], Nat.le_of_lt hlt, congrArg some hlocation, .head hbegins hblank,
        hprefix, nofun, ?_⟩
      cases e.fault <;> rfl

end Program

end Juxta
