/-
  Juxta/Proofs/Token/Tiling.lean
  ==============================
  **Tokens and faults tile the text** — whoever asks for the next token again and again, also
  after a fault, goes through the text from its beginning to its end:

    * `Scan.text_prefix`: what the scanner reports stands at the head of what is to come;
    * `Scanner.call_behind`: one call passes blank space and comes to an outcome that stands in
      the text right behind it, at the location that is reported (`StandsAt`);
    * `Scanner.calls_tile`: so do any number of calls, each from the place where the one before
      it ended, and the calls that read a text to its end are no more than its characters and
      one.

  A character that begins no token is not passed, so that the calls stay there; at the end of the
  text they stay as well.
-/
import Juxta.Proofs.Token.Factorisation
import Juxta.Proofs.Token.Position

namespace Juxta

/-! ### What stands at the head of a text -/

namespace Scan

/-- The text that is read: a lexeme, a text at fault, or a number that is too long. -/
def text : Scan → String
  | .token s => s.lexeme
  | .fault f => f.text
  | .tooManyDigits digits => digits

@[simp] theorem text_ofWord (word : String) : (ofWord word).text = word := by
  unfold ofWord
  split
  · rename_i k hk
    exact Keyword.lexeme_of_ofWord? hk
  · rfl

@[simp] theorem text_ofInteger (digits : List Char) :
    (ofInteger digits).text = String.ofList digits := by
  unfold ofInteger
  split <;> rfl

theorem text_ofNumber_prefix (text : List Char) : (ofNumber text).text.toList <+: text := by
  obtain ⟨whole, rest, htext, htake, hdrop, -⟩ := Text.exists_run Char.isDigit text
  unfold ofNumber
  rw [htake, hdrop, htext]
  cases rest with
  | nil => simp
  | cons c after =>
    by_cases hc : c = '.'
    · subst hc
      simp only
      split
      · simp [Scan.text, Fault.text, String.toList_append]
      · simp [Scan.text, Shape.lexeme, String.toList_append, List.takeWhile_prefix]
    · simp [hc]

theorem text_ofString_prefix (mark : QuoteMark) (rest : List Char) :
    (ofString mark rest).text.toList <+: mark.char :: rest := by
  obtain ⟨body, after, hrest, htake, hdrop, -, hstop⟩ := Text.exists_run (· != mark.char) rest
  unfold ofString
  rw [htake, hdrop, hrest]
  cases after with
  | nil => simp [Scan.text, Fault.text, String.toList_append, Char.toString_eq_singleton]
  | cons c after =>
    obtain rfl : c = mark.char := by simpa using Text.stops_cons.mp hstop
    simp [Scan.text, Shape.lexeme, String.toList_append, Char.toString_eq_singleton]

theorem text_ofOther_prefix (c : Char) (rest : List Char) :
    (ofOther c rest).text.toList <+: c :: rest := by
  unfold ofOther
  simp only
  split
  · rename_i hpoint
    simp only [Bool.and_eq_true, decide_eq_true_eq] at hpoint
    simp [hpoint.1, Scan.text, Shape.lexeme, String.toList_append, List.takeWhile_prefix]
  · split
    · rename_i mark hmark
      obtain rfl : mark.char = c := by simpa using List.find?_some hmark
      exact text_ofString_prefix mark rest
    · simp [Scan.text, Fault.text, Char.toString_eq_singleton]

/-- **What is read stands at the head of the text**, whether it is a token or not. -/
theorem text_prefix (text : List Char) : (ofText text).text.toList <+: text := by
  cases text with
  | nil => exact List.prefix_rfl
  | cons c rest =>
    simp only [ofText]
    split
    · rename_i p hp
      obtain rfl : p.char = c := Punctuation.char_of_ofChar? hp
      simp [Scan.text, Shape.lexeme, Char.toString_eq_singleton]
    · split
      · rw [text_ofWord, String.toList_ofList]
        exact List.takeWhile_prefix _
      · split
        · rw [Scan.text, Shape.lexeme, String.toList_ofList]
          exact List.takeWhile_prefix _
        · split
          · exact text_ofNumber_prefix _
          · exact text_ofOther_prefix c rest

end Scan

/-! ### One call -/

namespace Scanner

/-- A call for the next token: what it comes to, and where the scanner stands after it. -/
structure Call where
  outcome : Except ScanError Token
  after : Cursor

/-- The call that is made at a cursor. -/
def call (k : Cursor) : Call :=
  match next k with
  | .ok t after => ⟨.ok t, after⟩
  | .error e after => ⟨.error e, after⟩

/-- The outcome stands in the text behind `start` characters, and behind `stop` characters
    nothing of it has been left out or is to come again.  Locations count lines and columns from
    the text. -/
inductive StandsAt (text : List Char) (filename : Option String) :
    Except ScanError Token → (start stop : Nat) → Prop where
  | token {s : Shape} {start : Nat} :
      s.IsLexeme → s.lexeme.toList <+: text.drop start →
      StandsAt text filename
        (.ok ⟨s, Text.locationAt text filename start s.lexeme.length⟩)
        start (start + s.lexeme.length)
  | endOfInput :
      StandsAt text filename (.ok ⟨.endOfInput, Text.locationAt text filename text.length 0⟩)
        text.length text.length
  /-- The character stays where it is. -/
  | unexpectedCharacter {c : Char} {start : Nat} :
      [c] <+: text.drop start →
      StandsAt text filename
        (.error (.lexical ⟨.unexpectedCharacter c, Text.locationAt text filename start 1,
          String.ofList (Text.currentLine text start)⟩))
        start start
  /-- The digits and the point are passed. -/
  | malformedDecimal {word : String} {start : Nat} :
      word.toList <+: text.drop start →
      StandsAt text filename
        (.error (.lexical ⟨.malformedDecimal word, Text.locationAt text filename start 0,
          String.ofList (Text.currentLine text start)⟩))
        start (start + word.length)
  /-- Everything up to the end of the text is passed. -/
  | unterminatedString {word : String} {start : Nat} :
      word.toList <+: text.drop start →
      StandsAt text filename
        (.error (.lexical ⟨.unterminatedString word, Text.locationAt text filename start 0,
          String.ofList (Text.currentLine text start)⟩))
        start (start + word.length)
  /-- A number that is too long is passed, and not reported at a location. -/
  | tooManyDigits {digits : String} {start : Nat} :
      digits.toList <+: text.drop start →
      StandsAt text filename (.error (.tooManyDigits ⟨digits.length⟩))
        start (start + digits.length)

variable {text : List Char} {filename : Option String} {n start : Nat}

/-- What a call comes to when the cursor has passed the blank space. -/
def Call.ofScan (k : Cursor) : Scan → Call
  | .token s => ⟨.ok ⟨s, k.location s.lexeme.length⟩, k.forward s.lexeme.length⟩
  | .fault f =>
    ⟨.error (.lexical ⟨f, k.location f.span, String.ofList k.lineText⟩), k.forward f.passed⟩
  | .tooManyDigits digits => ⟨.error (.tooManyDigits ⟨digits.length⟩), k.forward digits.length⟩

theorem call_eq (k : Cursor) : call k = .ofScan k.skipBlanks (Scan.ofText k.skipBlanks.rest) := by
  unfold call next
  cases hscan : Scan.ofText k.skipBlanks.rest <;> simp only [hscan] <;> rfl

/-- What is read stands in the text, and is counted from the text. -/
theorem standsAt_ofScan (filename : Option String) (hstart : start ≤ text.length) :
    ∃ stop, stop ≤ text.length ∧
      StandsAt text filename
        (Call.ofScan (.behind text filename start) (Scan.ofText (text.drop start))).outcome
        start stop ∧
      (Call.ofScan (.behind text filename start) (Scan.ofText (text.drop start))).after =
        .behind text filename stop := by
  have hprefix := Scan.text_prefix (text.drop start)
  have hlength := hprefix.length_le
  rw [List.length_drop, String.length_toList] at hlength
  cases hscan : Scan.ofText (text.drop start) with
  | token s =>
    rw [hscan] at hprefix hlength
    simp only [Call.ofScan, Cursor.location_behind hstart, Cursor.forward_behind]
    rcases Scan.eq_append_of_ofText hscan with ⟨rfl, hend⟩ | ⟨hlexeme, -⟩
    · obtain rfl : start = text.length := by
        have hge := List.drop_eq_nil_iff.mp hend
        omega
      exact ⟨_, Nat.le_refl _, .endOfInput, rfl⟩
    · exact ⟨_, by simp only [Scan.text] at hlength; omega, .token hlexeme hprefix, rfl⟩
  | fault f =>
    rw [hscan] at hprefix hlength
    simp only [Call.ofScan, Cursor.location_behind hstart, Cursor.lineText_behind hstart,
      Cursor.forward_behind]
    cases f with
    | unexpectedCharacter c =>
      refine ⟨_, hstart, .unexpectedCharacter ?_, rfl⟩
      simpa [Scan.text, Fault.text, Char.toString_eq_singleton] using hprefix
    | malformedDecimal word =>
      exact ⟨_, by simp only [Scan.text, Fault.text] at hlength; omega,
        .malformedDecimal hprefix, rfl⟩
    | unterminatedString word =>
      exact ⟨_, by simp only [Scan.text, Fault.text] at hlength; omega,
        .unterminatedString hprefix, rfl⟩
  | tooManyDigits digits =>
    rw [hscan] at hprefix hlength
    simp only [Call.ofScan, Cursor.forward_behind]
    exact ⟨_, by simp only [Scan.text] at hlength; omega, .tooManyDigits hprefix, rfl⟩

theorem skipBlanks_behind (text : List Char) (filename : Option String) (n : Nat) :
    (Cursor.behind text filename n).skipBlanks =
      Cursor.behind text filename (n + ((text.drop n).takeWhile Text.isBlank).length) := by
  rw [Cursor.skipBlanks, Cursor.rest_behind, Cursor.forward_behind]

/-- **One call** passes blank space and comes to an outcome that stands in the text. -/
theorem call_behind (filename : Option String) (hn : n ≤ text.length) :
    ∃ start stop, n ≤ start ∧ (∀ c ∈ (text.take start).drop n, Text.isBlank c = true) ∧
      stop ≤ text.length ∧
      StandsAt text filename (call (.behind text filename n)).outcome start stop ∧
      (call (.behind text filename n)).after = .behind text filename stop := by
  obtain ⟨blank, rest, hrest, htake, -, hblank, -⟩ := Text.exists_run Text.isBlank (text.drop n)
  have hlength := congrArg List.length hrest
  rw [List.length_drop, List.length_append] at hlength
  have hstart : n + blank.length ≤ text.length := by omega
  have hgap : (text.take (n + blank.length)).drop n = blank := by
    rw [List.drop_take, Nat.add_sub_cancel_left, hrest, List.take_left]
  rw [call_eq, skipBlanks_behind, htake, Cursor.rest_behind]
  obtain ⟨stop, hstop, hstands, hafter⟩ := standsAt_ofScan filename hstart
  refine ⟨n + blank.length, stop, Nat.le_add_right n _, ?_, hstop, hstands, hafter⟩
  rw [hgap]
  exact hblank

/-- A token comes from one call, which leaves the scanner behind it. -/
theorem exists_standsAt_of_next {t : Token} {k : Cursor} (hn : n ≤ text.length)
    (h : next (.behind text filename n) = .ok t k) :
    ∃ start stop, n ≤ start ∧ stop ≤ text.length ∧ k = .behind text filename stop ∧
      StandsAt text filename (.ok t) start stop := by
  obtain ⟨start, stop, hstart, -, hstop, hstands, hafter⟩ := call_behind filename hn
  rw [call, h] at hstands hafter
  exact ⟨start, stop, hstart, hstop, hafter, hstands⟩

/-- A call that passes nothing: it has come to the end of the text, or to a character that
    begins no token. -/
def Call.Stays (c : Call) : Prop :=
  (∃ t, c.outcome = .ok t ∧ t.isEnd = true) ∨
    ∃ e d, c.outcome = .error (.lexical e) ∧ e.fault = .unexpectedCharacter d

theorem skipBlanks_skipBlanks (k : Cursor) : k.skipBlanks.skipBlanks = k.skipBlanks := by
  have hstops : Text.Stops Text.isBlank k.skipBlanks.rest := by
    rw [Cursor.rest_skipBlanks]
    exact Text.stops_dropWhile _ _
  rw [Cursor.skipBlanks, Text.takeWhile_of_stops hstops]
  rfl

theorem lexeme_of_isEnd {s : Shape} (h : s.kind = .endOfInput) : s.lexeme.length = 0 := by
  cases s <;> cases h
  rfl

/-- A call that passes nothing leaves the scanner behind the blank space. -/
theorem Call.Stays.after_eq {k : Cursor} {scan : Scan} (h : (Call.ofScan k scan).Stays) :
    (Call.ofScan k scan).after = k := by
  rcases h with ⟨t, ht, hend⟩ | ⟨e, d, he, hd⟩
  · cases scan with
    | token s =>
      cases ht
      have hlength := lexeme_of_isEnd (s := s) (by simpa [Token.isEnd, Token.kind] using hend)
      rw [ofScan, hlength]
      rfl
    | fault f => cases ht
    | tooManyDigits digits => cases ht
  · cases scan with
    | token s => cases he
    | fault f =>
      cases he
      obtain rfl : f = .unexpectedCharacter d := hd
      rfl
    | tooManyDigits digits => cases he

/-- A call that passes nothing is answered in the same way again. -/
theorem call_after {k : Cursor} (h : (call k).Stays) : call (call k).after = call k := by
  have hafter : (call k).after = k.skipBlanks := by
    rw [call_eq] at h ⊢
    exact h.after_eq
  rw [hafter, call_eq, call_eq, skipBlanks_skipBlanks]

/-! ### Any number of calls -/

/-- So many calls, each from where the one before it ended. -/
def calls : Nat → Cursor → List Call
  | 0, _ => []
  | n + 1, k => call k :: calls n (call k).after

/-- From behind `n` characters on, the calls come to outcomes that stand in the text one after
    another, with nothing but blank space in front of each, and leave the scanner where their
    outcome stops. -/
inductive Tiles (text : List Char) (filename : Option String) : (n : Nat) → List Call → Prop where
  | nil {n : Nat} : Tiles text filename n []
  | cons {n start stop : Nat} {c : Call} {cs : List Call} :
      n ≤ start → (∀ d ∈ (text.take start).drop n, Text.isBlank d = true) →
      stop ≤ text.length → StandsAt text filename c.outcome start stop →
      c.after = .behind text filename stop → Tiles text filename stop cs →
      Tiles text filename n (c :: cs)

theorem tiles_calls (count : Nat) (hn : n ≤ text.length) :
    Tiles text filename n (calls count (.behind text filename n)) := by
  induction count generalizing n with
  | zero => exact .nil
  | succ count ih =>
    obtain ⟨start, stop, hstart, hblank, hstop, hstands, hafter⟩ := call_behind filename hn
    refine .cons hstart hblank hstop hstands hafter ?_
    rw [hafter]
    exact ih hstop

theorem exists_call_of_mem_calls {c : Call} {count : Nat} {k : Cursor} (h : c ∈ calls count k) :
    ∃ l, c = call l := by
  induction count generalizing k with
  | zero => cases h
  | succ count ih =>
    rcases List.mem_cons.mp h with rfl | h
    · exact ⟨k, rfl⟩
    · exact ih h

theorem calls_after {c : Call} {count : Nat} {k : Cursor} (h : c ∈ calls count k) (hc : c.Stays)
    (m : Nat) : calls m c.after = List.replicate m c := by
  obtain ⟨l, rfl⟩ := exists_call_of_mem_calls h
  induction m with
  | zero => rfl
  | succ m ih => rw [calls, call_after hc, ih, List.replicate_succ]

/-- No calls come to anything new once one of them has passed nothing. -/
theorem mem_calls_of_stays {count : Nat} {k : Cursor} {c d : Call}
    (hlast : (calls count k).getLast? = some c) (hc : c.Stays) {n : Nat} (hd : d ∈ calls n k) :
    d ∈ calls count k := by
  induction count generalizing k n with
  | zero => cases hlast
  | succ count ih =>
    cases n with
    | zero => cases hd
    | succ n =>
      rw [calls] at hlast hd ⊢
      rcases List.mem_cons.mp hd with rfl | hd
      · exact List.mem_cons_self
      · cases count with
        | zero =>
          obtain rfl : call k = c := by simpa [calls] using hlast
          have hfirst : call k ∈ calls 1 k := List.mem_cons_self
          rw [calls_after hfirst hc] at hd
          exact List.mem_cons.mpr (Or.inl (List.eq_of_mem_replicate hd))
        | succ count =>
          have hlater : (calls (count + 1) (call k).after).getLast? = some c := by
            rw [← hlast, calls]
            exact List.getLast?_cons_cons.symm
          exact List.mem_cons_of_mem _ (ih hlater hd)

/-- The scan of a text is made of calls, the last of which may fail. -/
theorem outcome_calls {k : Cursor} {ts : List Token} {f : Option ScanError} (h : k.Scans ts f) :
    (calls (ts.length + f.toList.length) k).map Call.outcome =
      ts.map .ok ++ f.toList.map .error := by
  induction h with
  | last hn _ => simp [calls, call, hn]
  | fault hn => simp [calls, call, hn]
  | @more k k' t ts f hn _ _ ih =>
    rw [List.length_cons, Nat.add_right_comm, calls, List.map_cons, call, hn, ih]
    rfl

/-- Only the last token of a scan is the end of input. -/
theorem exists_last {k : Cursor} {ts : List Token} (h : k.Scans ts none) :
    ∃ before last, ts = before ++ [last] ∧ last.isEnd = true ∧ ∀ t ∈ before, t.isEnd = false := by
  generalize hf : (none : Option ScanError) = f at h
  induction h with
  | last _ ht => exact ⟨[], _, rfl, ht, nofun⟩
  | fault => cases hf
  | @more k k' t ts _ _ ht _ ih =>
    obtain ⟨before, last, rfl, hlast, hbefore⟩ := ih hf
    exact ⟨t :: before, last, rfl, hlast, List.forall_mem_cons.mpr ⟨ht, hbefore⟩⟩

/-- **Tokens and faults tile the text.**  Any number of calls come to outcomes that stand in the
    text one after another, at their locations and with nothing but blank space between them; the
    end of input and a character that begins no token come again and again.  If no call fails,
    all tokens are read, and they are no more than the characters of the text and one: the end of
    input, which is the last of them and only the last. -/
theorem calls_tile (text : List Char) (filename : Option String) :
    (∀ n, Tiles text filename 0 (calls n (.start text filename))) ∧
    (∀ n, ∀ c ∈ calls n (.start text filename), c.Stays →
      ∀ m, calls m c.after = List.replicate m c) ∧
    ((∀ n, ∀ c ∈ calls n (.start text filename), ∃ t, c.outcome = .ok t) →
      ∃ ts last, (∃ k, all (.start text filename) = .ok (ts ++ [last]) k) ∧
        (∀ bound ≥ ts.length + 1, ∃ k,
          upTo bound (.start text filename) = .ok (ts ++ [last]) k) ∧
        (calls (ts.length + 1) (.start text filename)).map Call.outcome =
          (ts ++ [last]).map .ok ∧
        ts.length ≤ text.length ∧ last.isEnd = true ∧ ∀ t ∈ ts, t.isEnd = false) := by
  refine ⟨fun n => tiles_calls n (Nat.zero_le _), fun n c hc => calls_after hc, fun hok => ?_⟩
  obtain ⟨ts, f, hscans⟩ := Cursor.exists_scans (.start text filename)
  have houtcome := outcome_calls hscans
  cases f with
  | some e =>
    -- The call behind the tokens would have failed.
    have hfail : Except.error e ∈
        (calls (ts.length + 1) (.start text filename)).map Call.outcome := by
      change Except.error e ∈ (calls (ts.length + (some e).toList.length) _).map Call.outcome
      rw [houtcome]
      simp
    obtain ⟨c, hc, he⟩ := List.mem_map.mp hfail
    obtain ⟨t, ht⟩ := hok _ c hc
    rw [ht] at he
    cases he
  | none =>
    obtain ⟨before, last, rfl, hlast, hbefore⟩ := exists_last hscans
    have hlength : (before ++ [last]).length ≤ text.length + 1 := hscans.length_le
    rw [List.length_append, List.length_singleton] at hlength houtcome
    refine ⟨before, last, all_of_scans hscans, fun bound hbound => ?_, ?_, by omega, hlast,
      hbefore⟩
    · refine upTo_of_scans hscans ?_
      rw [List.length_append, List.length_singleton]
      exact hbound
    · rw [← List.append_nil ((before ++ [last]).map Except.ok)]
      exact houtcome

/-- A string over two lines behind another token; and a character that is met again behind a
    malformed decimal. -/
theorem calls_tile_linesAndFaults :
    (∃ ts last, (∃ k, all (.start "f 'a\nb'".toList none) = .ok (ts ++ [last]) k) ∧
      ts.length ≤ 7 ∧ last.isEnd = true ∧ ∀ t ∈ ts, t.isEnd = false) ∧
    ∃ c ∈ calls 2 (.start "1.#".toList none), c.Stays ∧
      ∀ m, calls m c.after = List.replicate m c := by
  constructor
  · have hthree : ∃ c, (calls 3 (.start "f 'a\nb'".toList none)).getLast? = some c ∧ c.Stays ∧
        ∀ d ∈ calls 3 (.start "f 'a\nb'".toList none), ∃ t, d.outcome = .ok t := by
      refine ⟨_, rfl, Or.inl ⟨_, rfl, rfl⟩, ?_⟩
      simp only [calls, List.forall_mem_cons, List.not_mem_nil, false_implies, implies_true]
      exact ⟨⟨_, rfl⟩, ⟨_, rfl⟩, ⟨_, rfl⟩, trivial⟩
    obtain ⟨c, hlast, hstays, hok⟩ := hthree
    obtain ⟨ts, last, hall, -, -, hlength, hend, hbefore⟩ :=
      (calls_tile "f 'a\nb'".toList none).2.2 fun n d hd =>
        hok d (mem_calls_of_stays hlast hstays hd)
    exact ⟨ts, last, hall, hlength, hend, hbefore⟩
  · have hstays : (call (call (.start "1.#".toList none)).after).Stays :=
      Or.inr ⟨_, _, rfl, rfl⟩
    have hmem : call (call (.start "1.#".toList none)).after ∈
        calls 2 (.start "1.#".toList none) := by simp [calls]
    exact ⟨_, hmem, hstays, (calls_tile "1.#".toList none).2.1 2 _ hmem hstays⟩

end Scanner

end Juxta
