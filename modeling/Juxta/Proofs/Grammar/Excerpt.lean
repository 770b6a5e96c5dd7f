/-
  Juxta/Proofs/Grammar/Excerpt.lean
  =================================
  **Reports show the right line** — a source keeps only the line in which its scanner stands,
  and the grammar may complain about a token that has been scanned already.

    * `TokenSource.StandsIn`: the scanner of a source stands right behind the token at hand; one
      step keeps this (`StandsIn.peek`, `StandsIn.next`), and so does a whole program
      (`TokenSource.placing`);
    * `Shape.lineFeed_mem_lexeme`: only a string goes on to another line, so that the scanner is
      still in the line of any other token;
    * `Program.report_shows_line` puts this together: what is reported stands in the text, and
      the line that is shown is that of the location, with the caret below its column.
-/
import Juxta.Proofs.Grammar.Text
import Juxta.Proofs.Token.Tiling

namespace Juxta

/-! ### Tokens and lines -/

namespace Shape

theorem lineFeed_not_mem {p : Char → Bool} (hp : p '\n' = false) {word : List Char}
    (h : ∀ c ∈ word, p c = true) : '\n' ∉ word := by
  intro hmem
  rw [h _ hmem] at hp
  cases hp

/-- Of all lexemes only strings have line feeds in them. -/
theorem lineFeed_mem_lexeme {s : Shape} (h : s.IsLexeme) :
    '\n' ∈ s.lexeme.toList ↔ ∃ mark body, s = .string mark body ∧ '\n' ∈ body.toList := by
  constructor
  · intro hmem
    cases s with
    | endOfInput => cases h
    | integer digits => exact absurd hmem (lineFeed_not_mem (p := Char.isDigit) (by decide) h.1.2)
    | decimal whole fraction =>
      rw [lexeme, String.toList_append, String.toList_append, List.mem_append,
        List.mem_append] at hmem
      rcases hmem with (hmem | hmem) | hmem
      · exact absurd hmem (lineFeed_not_mem (p := Char.isDigit) (by decide) h.1)
      · exact absurd hmem (by decide)
      · exact absurd hmem (lineFeed_not_mem (p := Char.isDigit) (by decide) h.2.2)
    | string mark body =>
      have hmark : '\n' ≠ mark.char := by cases mark <;> decide
      refine ⟨mark, body, rfl, ?_⟩
      simpa [lexeme, String.toList_append, Char.toString_eq_singleton, hmark] using hmem
    | symbol name =>
      rcases h with ⟨hword, -⟩ | hoperator
      · exact absurd hmem
          (lineFeed_not_mem (p := Text.isWordPart) (by decide) fun c hc => hword.isWordPart hc)
      · exact absurd hmem (lineFeed_not_mem (p := Text.isOperatorChar) (by decide) hoperator.2)
    | keyword k => exact absurd hmem (by cases k <;> decide)
    | punctuation p => exact absurd hmem (by cases p <;> decide)
  · rintro ⟨mark, body, rfl, hmem⟩
    simp [lexeme, String.toList_append, hmem]

end Shape

namespace Scanner

variable {text : List Char} {filename : Option String} {start stop : Nat}

theorem StandsAt.start_le {r : Except ScanError Token} (h : StandsAt text filename r start stop) :
    start ≤ stop := by
  cases h <;> omega

theorem StandsAt.location_eq {t : Token} (h : StandsAt text filename (.ok t) start stop) :
    ∃ length, t.location = Text.locationAt text filename start length := by
  cases h with
  | token => exact ⟨_, rfl⟩
  | endOfInput => exact ⟨_, rfl⟩

/-- The line feeds behind a token are those in front of it, unless it is a string over more than
    one line. -/
theorem StandsAt.count_eq_iff {t : Token} (h : StandsAt text filename (.ok t) start stop) :
    (text.take stop).count '\n' = (text.take start).count '\n' ↔
      ¬ ∃ mark body, t.shape = .string mark body ∧ '\n' ∈ body.toList := by
  cases h with
  | @token s _ hlexeme hprefix =>
    obtain ⟨after, hafter⟩ := hprefix
    have htake : text.take (start + s.lexeme.length) = text.take start ++ s.lexeme.toList := by
      rw [List.take_add, ← hafter, ← String.length_toList, List.take_left]
    rw [← Shape.lineFeed_mem_lexeme hlexeme, htake, List.count_append, Nat.add_eq_left,
      List.count_eq_zero]
  | endOfInput =>
    refine ⟨fun _ => ?_, fun _ => rfl⟩
    rintro ⟨mark, body, hshape, -⟩
    cases hshape

/-- The line of a token is at hand where the scanner stands behind it. -/
theorem StandsAt.lineText? {t : Token} (h : StandsAt text filename (.ok t) start stop)
    (hstop : stop ≤ text.length) :
    ((Cursor.behind text filename stop).lineText? t.location.line = none ↔
      ∃ mark body, t.shape = .string mark body ∧ '\n' ∈ body.toList) ∧
    ∀ line ∈ (Cursor.behind text filename stop).lineText? t.location.line,
      line = String.ofList (Text.currentLine text start) := by
  obtain ⟨length, hlocation⟩ := h.location_eq
  have hline : ((Cursor.behind text filename stop).line : Int) = t.location.line ↔
      (text.take stop).count '\n' = (text.take start).count '\n' := by
    rw [hlocation, Cursor.behind_eq hstop, Text.locationAt]
    dsimp only
    omega
  rw [Cursor.lineText?, Cursor.lineText_behind hstop]
  by_cases hcount : (text.take stop).count '\n' = (text.take start).count '\n'
  · rw [if_pos (hline.mpr hcount),
      Text.currentLine_eq_of_count hstop (Nat.le_trans h.start_le hstop) hcount]
    refine ⟨⟨fun hnone => ?_, fun hstring => ?_⟩, fun line hmem => (Option.some.inj hmem).symm⟩
    · cases hnone
    · exact absurd hstring (h.count_eq_iff.mp hcount)
  · rw [if_neg (mt hline.mp hcount)]
    refine ⟨⟨fun _ => not_not.mp (mt h.count_eq_iff.mpr hcount), fun _ => rfl⟩,
      fun line hmem => ?_⟩
    cases hmem

end Scanner

/-! ### Where a source stands -/

namespace TokenSource

variable {text : List Char} {filename : Option String} {s s' : TokenSource}

/-- The scanner stands in the text, and right behind the token at hand if there is one. -/
def StandsIn (text : List Char) (filename : Option String) (s : TokenSource) : Prop :=
  ∃ stop ≤ text.length, s.cursor = .behind text filename stop ∧
    ∀ t ∈ s.lookahead, ∃ start, Scanner.StandsAt text filename (.ok t) start stop

/-- The fault that is reported stands in the text. -/
def FaultIn (text : List Char) (filename : Option String) (e : ScanError) : Prop :=
  ∃ start stop, stop ≤ text.length ∧ Scanner.StandsAt text filename (.error e) start stop

/-- A fault in the text is reported at its place, with the line there. -/
theorem FaultIn.report {fault : ScanError} (h : FaultIn text filename fault) {r : Report}
    (hr : (Failure.ofParseError (.scan fault)).report? = some r) :
    ∃ n ≤ text.length, ∃ length, r.location = some (Text.locationAt text filename n length) ∧
      r.sourceLine = some (String.ofList (Text.currentLine text n)) := by
  obtain ⟨start, stop, hstop, hstands⟩ := h
  have hstart := Nat.le_trans hstands.start_le hstop
  cases hstands with
  | unexpectedCharacter => cases hr; exact ⟨start, hstart, _, rfl, rfl⟩
  | malformedDecimal => cases hr; exact ⟨start, hstart, _, rfl, rfl⟩
  | unterminatedString => cases hr; exact ⟨start, hstart, _, rfl, rfl⟩
  | tooManyDigits => cases hr

theorem standsIn_ofText (text : String) (filename : Option String) :
    (ofText text filename).StandsIn text.toList filename :=
  ⟨0, Nat.zero_le _, rfl, nofun⟩

theorem StandsIn.peek (h : s.StandsIn text filename) :
    match TokenSource.peek s with
    | .ok _ s' => s'.StandsIn text filename
    | .error e _ => FaultIn text filename e := by
  obtain ⟨stop, hstop, hcursor, hlook⟩ := h
  unfold TokenSource.peek
  cases hahead : s.lookahead with
  | some t => exact ⟨stop, hstop, hcursor, hlook⟩
  | none =>
    obtain ⟨start, stop', -, -, hstop', hstands, hafter⟩ := Scanner.call_behind filename hstop
    rw [← hcursor] at hstands hafter
    cases hnext : Scanner.next s.cursor with
    | ok t k =>
      rw [Scanner.call, hnext] at hstands hafter
      refine ⟨stop', hstop', hafter, fun u hu => ?_⟩
      obtain rfl : t = u := Option.some.inj hu
      exact ⟨start, hstands⟩
    | error e k =>
      rw [Scanner.call, hnext] at hstands
      exact ⟨start, stop', hstop', hstands⟩

theorem StandsIn.next (h : s.StandsIn text filename) :
    match TokenSource.next s with
    | .ok _ s' => s'.StandsIn text filename
    | .error e _ => FaultIn text filename e := by
  have hpeek := h.peek
  cases hs : TokenSource.peek s with
  | ok t s' =>
    rw [hs] at hpeek
    rw [next_of_peek hs]
    cases t.isEnd with
    | true => exact hpeek
    | false =>
      obtain ⟨stop, hstop, hcursor, -⟩ := hpeek
      exact ⟨stop, hstop, hcursor, nofun⟩
  | error e s' =>
    rw [hs] at hpeek
    rw [TokenSource.next, Grammar.bind_of_error hs]
    exact hpeek

/-- Sources that stand in a text, and the lists of their tokens.  It is excused that a source
    meets a fault that stands in the text. -/
def placing (text : List Char) (filename : Option String) (f : Option ScanError) :
    Pairing TokenSource where
  Holds s ts := s.Holds ts f ∧ s.StandsIn text filename
  Excuses e _ := ∃ fault, e = .scan fault ∧ FaultIn text filename fault
  excuses_suffix h _ := h
  pending_le h := h.1.pending_le
  peek := by
    intro s ts hs
    have hstands := hs.2.peek
    rcases hs.1.peek with ⟨e, s', -, hpeek⟩ | ⟨s', hpeek, hahead, hs'⟩
    · rw [hpeek] at hstands
      exact Or.inl ⟨e, s', hpeek, e, rfl, hstands⟩
    · rw [hpeek] at hstands
      exact Or.inr ⟨s', hpeek, peek_of_lookahead hahead, hs', hstands⟩
  next := by
    intro s ts hs
    have hstands := hs.2.next
    rcases hs.1.next with ⟨e, s', -, hnext⟩ | ⟨s', hnext, hs'⟩
    · rw [hnext] at hstands
      exact Or.inl ⟨e, s', hnext, e, rfl, hstands⟩
    · rw [hnext] at hstands
      exact Or.inr ⟨s', hnext, hs', hstands⟩

end TokenSource

/-! ### What is reported -/

namespace Report

/-- Under a line that is shown, the caret stands as far to the right as the column says. -/
theorem text_of_line {r : Report} {l : Location} {line : String} (hlocation : r.location = some l)
    (hline : r.sourceLine = some line) (hne : line ≠ "") {before : Nat}
    (hcolumn : l.column = 1 + before) :
    ∃ head, r.text = head ++ "\n" ++ String.ofList (List.replicate indent ' ') ++ line
      ++ "\n" ++ String.ofList (List.replicate indent ' ' ++ List.replicate before ' ') ++ "^" := by
  have hpadding : (indent + l.column - 1).toNat = indent + before := by omega
  have hshown : line.isEmpty = false := by
    rw [← Bool.not_eq_true, String.isEmpty_iff]
    exact hne
  refine ⟨"[" ++ l.text ++ "] " ++ r.message, ?_⟩
  rw [List.replicate_append_replicate, ← hpadding]
  simp only [text, hlocation, hline, Option.filter_some, hshown, excerpt, Bool.not_false, if_true,
    String.append_assoc]

end Report

namespace Program

variable {depth : Nat} {text : String} {filename : Option String} {err : ParseError}

/-- A text fails in step with the list of its tokens. -/
theorem exists_agree_of_parseTo (h : parseTo depth text filename = .error err) :
    ∃ f s, ∃ list : EStateM.Result ParseError (List Token) Expr,
      (TokenSource.placing text.toList filename f).Agree (.error err s) list := by
  obtain ⟨ts, f, hscans⟩ := Cursor.exists_scans (.start text.toList filename)
  have hholds : (TokenSource.placing text.toList filename f).Holds
      (TokenSource.ofText text filename) ts :=
    ⟨.waiting hscans, TokenSource.standsIn_ofText text filename⟩
  have hagree := (Grammar.agrees_program depth).agree hholds
  unfold parseTo at h
  cases hs : Grammar.program depth (TokenSource.ofText text filename) with
  | ok e s => rw [hs] at h; cases h
  | error e s =>
    rw [hs] at h hagree
    cases h
    exact ⟨f, s, _, hagree⟩

/-- A refused token stands in the text, and the scanner right behind it. -/
theorem exists_standsAt_found {e : SyntaxError}
    (h : parseTo depth text filename = .error (.syntactic e)) :
    ∃ start stop, stop ≤ text.toList.length ∧
      Scanner.StandsAt text.toList filename (.ok e.found) start stop ∧
      e.sourceLine = (Cursor.behind text.toList filename stop).lineText? e.found.location.line := by
  obtain ⟨f, s, list, hagree⟩ := exists_agree_of_parseTo h
  cases hagree with
  | @refused p t l m _ us _ hpeek hplace hline =>
    obtain ⟨-, stop, hstop, hcursor, hlook⟩ := hplace
    obtain ⟨start, hstands⟩ := hlook t (TokenSource.lookahead_of_peek hpeek)
    refine ⟨start, stop, hstop, hstands, ?_⟩
    rw [← hcursor]
    exact hline
  | excused he =>
    obtain ⟨fault, hfault, -⟩ := he
    cases hfault

/-- A fault that is met stands in the text. -/
theorem faultIn_of_parseTo {fault : ScanError}
    (h : parseTo depth text filename = .error (.scan fault)) :
    TokenSource.FaultIn text.toList filename fault := by
  obtain ⟨f, s, list, hagree⟩ := exists_agree_of_parseTo h
  cases hagree with
  | excused he =>
    obtain ⟨fault', hfault, hstands⟩ := he
    cases hfault
    exact hstands

/-- An error stands in the text: a token or a fault, with its line unless the scanner has gone on
    to another one in a string. -/
theorem exists_place (h : parseTo depth text filename = .error err) {r : Report}
    (hr : (Failure.ofParseError err).report? = some r) :
    ∃ n ≤ text.toList.length, ∃ length,
      r.location = some (Text.locationAt text.toList filename n length) ∧
      (r.sourceLine = none ↔ ∃ e mark body, err = .syntactic e ∧
        e.found.shape = .string mark body ∧ '\n' ∈ body.toList) ∧
      ∀ line ∈ r.sourceLine, line = String.ofList (Text.currentLine text.toList n) := by
  cases err with
  | syntactic e =>
    obtain ⟨start, stop, hstop, hstands, hline⟩ := exists_standsAt_found h
    have hkept := hstands.lineText? hstop
    rw [← hline] at hkept
    obtain ⟨length, hlocation⟩ := hstands.location_eq
    cases hr
    refine ⟨start, Nat.le_trans hstands.start_le hstop, length, congrArg some hlocation, ?_,
      hkept.2⟩
    rw [SyntaxError.report, hkept.1]
    constructor
    · rintro ⟨mark, body, hstring⟩
      exact ⟨_, mark, body, rfl, hstring⟩
    · rintro ⟨e, mark, body, he, hstring⟩
      cases he
      exact ⟨mark, body, hstring⟩
  | scan fault =>
    obtain ⟨n, hn, length, hlocation, hline⟩ := (faultIn_of_parseTo h).report hr
    refine ⟨n, hn, length, hlocation, ?_, fun line hmem => ?_⟩
    · rw [hline]
      refine ⟨nofun, ?_⟩
      rintro ⟨e, mark, body, hscan, -⟩
      cases hscan
    · exact Option.some.inj (hmem.symm.trans hline)

/-- **Every report shows the line of the error.**  Its location is the place of some characters
    in the text; the source line is the line with the number of the location, without carriage
    returns at its end; it is left out exactly when the token that was found is a string with a
    line feed in it; and a line that is not empty is shown at the end of the report, with a caret
    below the column of the location. -/
theorem report_shows_line (h : parseTo depth text filename = .error err) {r : Report}
    (hr : (Failure.ofParseError err).report? = some r) :
    ∃ n length l line before,
      n ≤ text.toList.length ∧ l = Text.locationAt text.toList filename n length ∧
      r.location = some l ∧ l.offset = n ∧ l.column = 1 + (before : Nat) ∧
      (Text.splitNewlines text.toList)[l.line.toNat - 1]? = some line ∧
      (r.sourceLine = none ↔ ∃ e mark body, err = .syntactic e ∧
        e.found.shape = .string mark body ∧ '\n' ∈ body.toList) ∧
      ∀ shown ∈ r.sourceLine, shown.toList = Text.dropTrailingReturns line ∧
        (shown ≠ "" → ∃ head, r.text =
          head ++ "\n" ++ String.ofList (List.replicate Report.indent ' ') ++ shown
            ++ "\n" ++ String.ofList (List.replicate Report.indent ' ' ++
              List.replicate before ' ') ++ "^") := by
  obtain ⟨n, hn, length, hlocation, hnone, hshown⟩ := exists_place h hr
  have hline := Text.getElem?_splitNewlines hn
  refine ⟨n, length, _, Text.lineHead text.toList n ++ Text.firstLine (text.toList.drop n),
    (Text.lineHead text.toList n).length, hn, rfl, hlocation, rfl, rfl, ?_, hnone,
    fun shown hmem => ⟨?_, fun hne => ?_⟩⟩
  · rw [← hline, Text.locationAt]
    congr 1
    dsimp only
    omega
  · rw [hshown shown hmem, String.toList_ofList, Text.currentLine_eq]
  · exact Report.text_of_line hlocation hmem hne rfl

theorem eq_error_of_map {ε α β : Type} {x : Except ε α} {f : α → β} {e : ε}
    (h : x.map f = .error e) : x = .error e := by
  cases x with
  | ok a => cases h
  | error e' => cases h; rfl

/-- A bracket that closes nothing, in the second line; and a string over two lines, which leaves
    no line to show. -/
theorem report_shows_line_twoLines :
    (∃ err r head, parseTo 9 "f\n g)\r\nh" = .error err ∧
      (Failure.ofParseError err).report? = some r ∧ r.sourceLine = some " g)" ∧
      r.text = head ++ "\n" ++ "    " ++ " g)" ++ "\n" ++ "      " ++ "^") ∧
    ∃ err r, parseTo 9 "let 'a\nb'" = .error err ∧
      (Failure.ofParseError err).report? = some r ∧ r.sourceLine = none := by
  constructor
  · have h : parseTo 9 "f\n g)\r\nh" = .error (.syntactic ⟨.trailing,
        ⟨.punctuation .closeParen, ⟨2, 3, 4, 1, none⟩⟩, some " g)"⟩) :=
      eq_error_of_map (f := fun _ => ()) (by decide +kernel)
    obtain ⟨n, length, l, line, before, -, -, hlocation, -, hcolumn, -, -, hshown⟩ :=
      report_shows_line h rfl
    obtain ⟨-, hcaret⟩ := hshown " g)" rfl
    obtain ⟨head, htext⟩ := hcaret (by decide)
    obtain rfl : before = 2 := by
      cases Option.some.inj hlocation
      change (3 : Int) = 1 + before at hcolumn
      omega
    exact ⟨_, _, head, h, rfl, rfl, htext⟩
  · have h : parseTo 9 "let 'a\nb'" = .error (.syntactic ⟨.nameAfter .binding,
        ⟨.string .single "a\nb", ⟨1, 5, 4, 5, none⟩⟩, none⟩) :=
      eq_error_of_map (f := fun _ => ()) (by decide +kernel)
    obtain ⟨_, _, _, _, _, -, -, -, -, -, -, hnone, -⟩ := report_shows_line h rfl
    exact ⟨_, _, h, rfl, hnone.mpr ⟨_, .single, "a\nb", rfl, rfl, by decide⟩⟩

end Program

end Juxta
