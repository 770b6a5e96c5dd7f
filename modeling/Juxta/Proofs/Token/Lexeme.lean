/-
  Juxta/Proofs/Token/Lexeme.lean
  ==============================
  **Lexemes and where they end** — the scanner takes the longest token that stands at the
  head of a text.  Two predicates say this without the scanner:

    * `Shape.IsLexeme`: the text of a token is one of its kind (a word, a run of operator
      characters, digits, …);
    * `Shape.EndsBefore`: what follows in the text does not go on with the token.

  `Scan.ofText_append` reads every such lexeme in front of such a text, and
  `Scan.eq_append_of_ofText` shows that nothing else is ever read.
-/
import Juxta.Token.Scan

namespace Juxta

/-! ### Classes of characters are apart -/

namespace Text

/-- No character of the class `p` stands at the head of the text. -/
def Stops (p : Char → Bool) (text : List Char) : Prop := ∀ c ∈ text.head?, p c = false

theorem stops_nil (p : Char → Bool) : Stops p [] := by
  intro c hc
  cases hc

theorem stops_cons {p : Char → Bool} {c : Char} {text : List Char} :
    Stops p (c :: text) ↔ p c = false := by
  simp [Stops]

theorem stops_dropWhile (p : Char → Bool) (text : List Char) : Stops p (text.dropWhile p) := by
  intro c hc
  have h := List.head?_dropWhile_not p text
  rw [Option.mem_def] at hc
  rw [hc] at h
  simpa using h

theorem takeWhile_of_stops {p : Char → Bool} {text : List Char} (h : Stops p text) :
    text.takeWhile p = [] := by
  cases text with
  | nil => rfl
  | cons c text => simp [stops_cons.mp h]

theorem dropWhile_of_stops {p : Char → Bool} {text : List Char} (h : Stops p text) :
    text.dropWhile p = text := by
  cases text with
  | nil => rfl
  | cons c text => simp [stops_cons.mp h]

/-- A run of a class that does not go on is the longest one. -/
theorem takeWhile_append {p : Char → Bool} {run text : List Char} (hrun : ∀ c ∈ run, p c = true)
    (h : Stops p text) : (run ++ text).takeWhile p = run := by
  rw [List.takeWhile_append_of_pos hrun, takeWhile_of_stops h, List.append_nil]

theorem dropWhile_append {p : Char → Bool} {run text : List Char} (hrun : ∀ c ∈ run, p c = true)
    (h : Stops p text) : (run ++ text).dropWhile p = text := by
  rw [List.dropWhile_append_of_pos hrun, dropWhile_of_stops h]

theorem of_mem_takeWhile {p : Char → Bool} {text : List Char} {c : Char}
    (h : c ∈ text.takeWhile p) : p c = true := by
  have hall : (text.takeWhile p).all p = true := List.all_takeWhile
  exact List.all_eq_true.mp hall c h

/-- A text is its longest run of a class and what follows it. -/
theorem exists_run (p : Char → Bool) (text : List Char) :
    ∃ run rest, text = run ++ rest ∧ text.takeWhile p = run ∧ text.dropWhile p = rest ∧
      (∀ c ∈ run, p c = true) ∧ Stops p rest :=
  ⟨_, _, (List.takeWhile_append_dropWhile).symm, rfl, rfl,
    fun _ hc => of_mem_takeWhile hc, stops_dropWhile p text⟩

/-- The first ranges of the tables of letters and numeric characters begin at `A` and `0`. -/
theorem isLetter_of_lt {c : Char} (h : c.toNat < 0x41) : isLetter c = false := by
  unfold isLetter letterRanges Ranges.has
  rw [Ranges.hasCode]
  simp [h]

theorem isWordStart_of_isDigit {c : Char} (h : c.isDigit = true) : isWordStart c = false := by
  have hc : 48 ≤ c.toNat ∧ c.toNat ≤ 57 := by simpa [Char.isDigit, UInt32.le_iff_toNat_le] using h
  have hne : c ≠ '_' := by
    rintro rfl
    simp at hc
  have hletter : isLetter c = false := isLetter_of_lt (by omega)
  simp [isWordStart, hne, hletter]

theorem isWordPart_of_isWordStart {c : Char} (h : isWordStart c = true) :
    isWordPart c = true := by
  simp [isWordPart, h]

theorem isOperatorChar_of_isDigit {c : Char} (h : c.isDigit = true) :
    isOperatorChar c = false := by
  cases hc : isOperatorChar c with
  | false => rfl
  | true =>
    have hmem : c ∈ operatorChars := by simpa [isOperatorChar] using hc
    have hall : operatorChars.all (fun d => !d.isDigit) = true := by decide
    have hdigit := List.all_eq_true.mp hall c hmem
    rw [h] at hdigit
    cases hdigit

theorem isWordStart_of_isOperatorChar {c : Char} (h : isOperatorChar c = true) :
    isWordStart c = false := by
  have hmem : c ∈ operatorChars := by simpa [isOperatorChar] using h
  have hall : operatorChars.all (fun d => !isWordStart d) = true := by decide
  simpa using List.all_eq_true.mp hall c hmem

end Text

namespace Punctuation

/-- A character that belongs to a class without marks is no mark. -/
theorem ofChar?_eq_none {p : Char → Bool} (hp : ∀ m : Punctuation, p m.char = false) {c : Char}
    (h : p c = true) : ofChar? c = none := by
  cases hc : ofChar? c with
  | none => rfl
  | some m =>
    rw [← char_of_ofChar? hc, hp m] at h
    cases h

theorem isWordPart_char (m : Punctuation) : Text.isWordPart m.char = false := by
  cases m <;> decide

theorem isOperatorChar_char (m : Punctuation) : Text.isOperatorChar m.char = false := by
  cases m <;> decide

theorem isDigit_char (m : Punctuation) : m.char.isDigit = false := by
  cases m <;> decide

end Punctuation

/-! ### The text of a token -/

namespace Text

/-- A letter or `_`, then letters, numeric characters and `_`. -/
def IsWord (word : List Char) : Prop :=
  ∃ c rest, word = c :: rest ∧ isWordStart c = true ∧ ∀ d ∈ rest, isWordPart d = true

/-- Operator characters, at least one. -/
def IsOperator (word : List Char) : Prop := word ≠ [] ∧ ∀ c ∈ word, isOperatorChar c = true

/-- Decimal digits, at least one. -/
def IsDigits (word : List Char) : Prop := word ≠ [] ∧ ∀ c ∈ word, c.isDigit = true

/-- A name is a word that is not reserved, or a run of operator characters. -/
def IsName (name : String) : Prop :=
  (IsWord name.toList ∧ Keyword.ofWord? name = none) ∨ IsOperator name.toList

theorem IsWord.isWordPart {word : List Char} (h : IsWord word) {c : Char} (hc : c ∈ word) :
    Text.isWordPart c = true := by
  obtain ⟨d, rest, rfl, hd, hrest⟩ := h
  rcases List.mem_cons.mp hc with rfl | hc
  · exact isWordPart_of_isWordStart hd
  · exact hrest c hc

theorem IsWord.not_isOperator {word : List Char} (h : IsWord word) : ¬ IsOperator word := by
  intro hop
  obtain ⟨c, rest, rfl, hc, -⟩ := h
  have hoperator : isOperatorChar c = true := hop.2 c List.mem_cons_self
  rw [isWordStart_of_isOperatorChar hoperator] at hc
  cases hc

end Text

theorem Keyword.isWord_lexeme (k : Keyword) : Text.IsWord k.lexeme.toList := by
  cases k
  · exact ⟨'l', ['e', 't'], rfl, by decide, List.all_eq_true.mp (by decide)⟩
  · exact ⟨'l', ['e', 't', 'r', 'e', 'c'], rfl, by decide, List.all_eq_true.mp (by decide)⟩
  · exact ⟨'f', ['n'], rfl, by decide, List.all_eq_true.mp (by decide)⟩

namespace Shape

/-- The text of the token is one of its kind.  The end of input has none. -/
def IsLexeme : Shape → Prop
  | .endOfInput => False
  | .integer digits => Text.IsDigits digits.toList ∧ digits.length ≤ Scan.digitLimit
  | .decimal whole fraction =>
    (∀ c ∈ whole.toList, c.isDigit = true) ∧ Text.IsDigits fraction.toList
  | .string mark body => mark.char ∉ body.toList
  | .symbol name => Text.IsName name
  | .keyword _ | .punctuation _ => True

/-- A text in front of which the token ends: nothing in it goes on with the token. -/
def EndsBefore (text : List Char) : Shape → Prop
  | .symbol name =>
    (Text.IsWord name.toList → Text.Stops Text.isWordPart text) ∧
      (Text.IsOperator name.toList → Text.Stops Text.isOperatorChar text)
  | .keyword _ => Text.Stops Text.isWordPart text
  | .integer _ => Text.Stops Char.isDigit text ∧ text.head? ≠ some '.'
  | .decimal _ _ => Text.Stops Char.isDigit text
  | _ => True

end Shape

/-! ### What the scanner reads -/

namespace Scan

/-- The rule that applies is decided by the class of the first character. -/
theorem ofText_of_isWordStart {c : Char} (h : Text.isWordStart c = true) (rest : List Char) :
    ofText (c :: rest) = ofWord (String.ofList ((c :: rest).takeWhile Text.isWordPart)) := by
  have hmark : Punctuation.ofChar? c = none :=
    Punctuation.ofChar?_eq_none (p := Text.isWordPart) Punctuation.isWordPart_char
      (Text.isWordPart_of_isWordStart h)
  simp only [ofText, hmark, h, ite_true]

theorem ofText_of_isOperatorChar {c : Char} (h : Text.isOperatorChar c = true)
    (rest : List Char) :
    ofText (c :: rest) =
      .token (.symbol (String.ofList ((c :: rest).takeWhile Text.isOperatorChar))) := by
  have hmark : Punctuation.ofChar? c = none :=
    Punctuation.ofChar?_eq_none Punctuation.isOperatorChar_char h
  simp [ofText, hmark, h, Text.isWordStart_of_isOperatorChar h]

theorem ofText_of_isDigit {c : Char} (h : c.isDigit = true) (rest : List Char) :
    ofText (c :: rest) = ofNumber (c :: rest) := by
  have hmark : Punctuation.ofChar? c = none :=
    Punctuation.ofChar?_eq_none Punctuation.isDigit_char h
  simp [ofText, hmark, h, Text.isWordStart_of_isDigit h, Text.isOperatorChar_of_isDigit h]

theorem ofText_point (rest : List Char) : ofText ('.' :: rest) = ofOther '.' rest := by
  have hmark : Punctuation.ofChar? '.' = none := by decide
  have hword : Text.isWordStart '.' = false := by decide
  have hop : Text.isOperatorChar '.' = false := by decide
  have hdigit : ('.' : Char).isDigit = false := by decide
  simp [ofText, hmark, hword, hop, hdigit]

theorem ofText_quote (mark : QuoteMark) (rest : List Char) :
    ofText (mark.char :: rest) = ofString mark rest := by
  have hmark : Punctuation.ofChar? mark.char = none := by cases mark <;> decide
  have hword : Text.isWordStart mark.char = false := by cases mark <;> decide
  have hop : Text.isOperatorChar mark.char = false := by cases mark <;> decide
  have hdigit : mark.char.isDigit = false := by cases mark <;> decide
  have hpoint : mark.char ≠ '.' := by cases mark <;> decide
  simp [ofText, hmark, hword, hop, hdigit, ofOther, hpoint]

/-- A word in front of a text that does not go on with it is read as a whole. -/
theorem ofText_append_of_isWord {word : String} (h : Text.IsWord word.toList) {rest : List Char}
    (hrest : Text.Stops Text.isWordPart rest) :
    ofText (word.toList ++ rest) = ofWord word := by
  have hrun : ∀ d ∈ word.toList, Text.isWordPart d = true := fun d hd => h.isWordPart hd
  obtain ⟨c, tail, hword, hc, -⟩ := h
  rw [hword, List.cons_append, ofText_of_isWordStart hc, ← List.cons_append, ← hword,
    Text.takeWhile_append hrun hrest, String.ofList_toList]

theorem ofText_append_of_isOperator {name : String} (h : Text.IsOperator name.toList)
    {rest : List Char} (hrest : Text.Stops Text.isOperatorChar rest) :
    ofText (name.toList ++ rest) = .token (.symbol name) := by
  obtain ⟨hne, hrun⟩ := h
  obtain ⟨c, tail, hname⟩ := List.exists_cons_of_ne_nil hne
  have hc : Text.isOperatorChar c = true := hrun c (by simp [hname])
  rw [hname, List.cons_append, ofText_of_isOperatorChar hc, ← List.cons_append, ← hname,
    Text.takeWhile_append hrun hrest, String.ofList_toList]

/-- Digits in front of a text are read by the rule for numbers. -/
theorem ofText_append_of_isDigits {digits : List Char} (h : Text.IsDigits digits)
    (rest : List Char) : ofText (digits ++ rest) = ofNumber (digits ++ rest) := by
  obtain ⟨hne, hrun⟩ := h
  obtain ⟨c, tail, rfl⟩ := List.exists_cons_of_ne_nil hne
  exact ofText_of_isDigit (hrun c List.mem_cons_self) _

theorem ofNumber_append_of_isDigits {digits rest : List Char} (h : Text.IsDigits digits)
    (hrest : Text.Stops Char.isDigit rest) (hpoint : rest.head? ≠ some '.') :
    ofNumber (digits ++ rest) = ofInteger digits := by
  unfold ofNumber
  rw [Text.takeWhile_append h.2 hrest, Text.dropWhile_append h.2 hrest]
  split
  · simp at hpoint
  · rfl

theorem ofNumber_append_point {whole fraction rest : List Char}
    (hwhole : ∀ c ∈ whole, c.isDigit = true) (h : Text.IsDigits fraction)
    (hrest : Text.Stops Char.isDigit rest) :
    ofNumber (whole ++ '.' :: (fraction ++ rest)) =
      .token (.decimal (String.ofList whole) (String.ofList fraction)) := by
  have hstop : Text.Stops Char.isDigit ('.' :: (fraction ++ rest)) :=
    Text.stops_cons.mpr (by decide)
  unfold ofNumber
  rw [Text.takeWhile_append hwhole hstop, Text.dropWhile_append hwhole hstop]
  simp only [Text.takeWhile_append h.2 hrest]
  simp [h.1]

theorem ofOther_point {fraction rest : List Char} (h : Text.IsDigits fraction)
    (hrest : Text.Stops Char.isDigit rest) :
    ofOther '.' (fraction ++ rest) = .token (.decimal "" (String.ofList fraction)) := by
  unfold ofOther
  simp [Text.takeWhile_append h.2 hrest, h.1]

theorem ofString_append {mark : QuoteMark} {body : List Char} (h : mark.char ∉ body)
    (rest : List Char) :
    ofString mark (body ++ mark.char :: rest) = .token (.string mark (String.ofList body)) := by
  have hrun : ∀ c ∈ body, (c != mark.char) = true := by
    intro c hc
    have hne : c ≠ mark.char := fun heq => h (heq ▸ hc)
    simpa using hne
  have hstop : Text.Stops (· != mark.char) (mark.char :: rest) := Text.stops_cons.mpr (by simp)
  unfold ofString
  rw [Text.takeWhile_append hrun hstop, Text.dropWhile_append hrun hstop]

/-- **A lexeme is read back.**  A token whose text is of its kind is what stands at the head
    of its text and anything in front of which it ends. -/
theorem ofText_append {s : Shape} (hs : s.IsLexeme) {rest : List Char} (hrest : s.EndsBefore rest) :
    ofText (s.lexeme.toList ++ rest) = .token s := by
  cases s with
  | endOfInput => exact absurd hs (by simp [Shape.IsLexeme])
  | integer digits =>
    obtain ⟨hdigits, hlimit⟩ := hs
    rw [Shape.lexeme, ofText_append_of_isDigits hdigits,
      ofNumber_append_of_isDigits hdigits hrest.1 hrest.2, ofInteger,
      if_pos (by rw [String.length_toList]; exact hlimit), String.ofList_toList]
  | decimal whole fraction =>
    obtain ⟨hwhole, hfraction⟩ := hs
    have htext : (Shape.decimal whole fraction).lexeme.toList ++ rest =
        whole.toList ++ '.' :: (fraction.toList ++ rest) := by
      simp [Shape.lexeme, String.toList_append]
    rw [htext]
    by_cases hempty : whole.toList = []
    · have hwhole' : whole = "" := by simpa using hempty
      rw [hempty, List.nil_append, ofText_point, ofOther_point hfraction hrest, hwhole',
        String.ofList_toList]
    · rw [ofText_append_of_isDigits ⟨hempty, hwhole⟩, ofNumber_append_point hwhole hfraction hrest,
        String.ofList_toList, String.ofList_toList]
  | string mark body =>
    have htext : (Shape.string mark body).lexeme.toList ++ rest =
        mark.char :: (body.toList ++ mark.char :: rest) := by
      simp [Shape.lexeme, String.toList_append, Char.toString_eq_singleton]
    rw [htext, ofText_quote, ofString_append hs, String.ofList_toList]
  | symbol name =>
    rcases hs with ⟨hword, hkeyword⟩ | hoperator
    · rw [Shape.lexeme, ofText_append_of_isWord hword (hrest.1 hword), ofWord, hkeyword]
    · exact ofText_append_of_isOperator hoperator (hrest.2 hoperator)
  | keyword k =>
    rw [Shape.lexeme, ofText_append_of_isWord k.isWord_lexeme hrest, ofWord,
      Keyword.ofWord?_lexeme]
  | punctuation p => simp [Shape.lexeme, Char.toString_eq_singleton, ofText]

/-- What has been read stands at the head of the text and ends there. -/
def Heads (text : List Char) (s : Shape) : Prop :=
  s.IsLexeme ∧ ∃ rest, text = s.lexeme.toList ++ rest ∧ s.EndsBefore rest

theorem heads_of_ofWord {c : Char} (hc : Text.isWordStart c = true) {rest : List Char}
    {s : Shape}
    (h : ofWord (String.ofList ((c :: rest).takeWhile Text.isWordPart)) = .token s) :
    Heads (c :: rest) s := by
  obtain ⟨run, after, htext, htake, -, hrun, hstop⟩ :=
    Text.exists_run Text.isWordPart (c :: rest)
  have hpart : Text.isWordPart c = true := Text.isWordPart_of_isWordStart hc
  have hword : Text.IsWord run := by
    rw [List.takeWhile_cons_of_pos hpart] at htake
    refine ⟨c, _, htake.symm, hc, fun d hd => ?_⟩
    exact hrun d (htake ▸ List.mem_cons_of_mem c hd)
  rw [htake] at h
  unfold ofWord at h
  split at h
  · rename_i k hk
    cases h
    have hlexeme : k.lexeme = String.ofList run := Keyword.lexeme_of_ofWord? hk
    exact ⟨trivial, after, by simp [Shape.lexeme, hlexeme, htext], hstop⟩
  · rename_i hk
    cases h
    refine ⟨Or.inl ⟨by simpa using hword, hk⟩, after, by simp [Shape.lexeme, htext], ?_, ?_⟩
    · intro _
      exact hstop
    · intro hoperator
      exact absurd (by simpa using hoperator) hword.not_isOperator

theorem heads_of_isOperatorChar {c : Char} (hc : Text.isOperatorChar c = true)
    (rest : List Char) :
    Heads (c :: rest) (.symbol (String.ofList ((c :: rest).takeWhile Text.isOperatorChar))) := by
  obtain ⟨run, after, htext, htake, -, hrun, hstop⟩ :=
    Text.exists_run Text.isOperatorChar (c :: rest)
  have hoperator : Text.IsOperator run := by
    refine ⟨?_, hrun⟩
    rw [← htake, List.takeWhile_cons_of_pos hc]
    exact List.cons_ne_nil _ _
  rw [htake]
  refine ⟨Or.inr (by simpa using hoperator), after, by simp [Shape.lexeme, htext], ?_, ?_⟩
  · intro hword
    exact absurd hoperator (Text.IsWord.not_isOperator (by simpa using hword))
  · intro _
    exact hstop

theorem heads_of_ofNumber {c : Char} (hc : c.isDigit = true) {rest : List Char} {s : Shape}
    (h : ofNumber (c :: rest) = .token s) : Heads (c :: rest) s := by
  obtain ⟨run, after, htext, htake, hdrop, hrun, hstop⟩ := Text.exists_run Char.isDigit (c :: rest)
  have hdigits : Text.IsDigits run := by
    refine ⟨?_, hrun⟩
    rw [← htake, List.takeWhile_cons_of_pos hc]
    exact List.cons_ne_nil _ _
  unfold ofNumber at h
  rw [htake, hdrop] at h
  split at h
  · rename_i after'
    obtain ⟨fraction, tail, hafter, htake', -, hfraction, hstop'⟩ :=
      Text.exists_run Char.isDigit after'
    simp only [htake'] at h
    split at h
    · cases h
    · rename_i hne
      cases h
      have hdigits' : Text.IsDigits fraction := ⟨by simpa using hne, hfraction⟩
      exact ⟨⟨by simpa using hrun, by simpa using hdigits'⟩, tail,
        by simp [Shape.lexeme, htext, hafter, String.toList_append], hstop'⟩
  · rename_i hpoint
    simp only [ofInteger] at h
    split at h
    · rename_i hlimit
      cases h
      refine ⟨⟨by simpa using hdigits, by simpa using hlimit⟩, after,
        by simp [Shape.lexeme, htext], hstop, ?_⟩
      intro hhead
      obtain ⟨tail, htail⟩ := List.head?_eq_some_iff.mp hhead
      exact hpoint tail htail
    · cases h

theorem heads_of_ofString {mark : QuoteMark} {rest : List Char} {s : Shape}
    (h : ofString mark rest = .token s) : Heads (mark.char :: rest) s := by
  obtain ⟨run, after, htext, htake, hdrop, hrun, hstop⟩ :=
    Text.exists_run (· != mark.char) rest
  unfold ofString at h
  rw [htake, hdrop] at h
  split at h
  · cases h
  · rename_i d tail
    cases h
    have hd : d = mark.char := by simpa using Text.stops_cons.mp hstop
    have hbody : mark.char ∉ run := by
      intro hmem
      have := hrun _ hmem
      simp at this
    refine ⟨by simpa [Shape.IsLexeme] using hbody, tail, ?_, trivial⟩
    simp [Shape.lexeme, htext, hd, String.toList_append, Char.toString_eq_singleton]

theorem heads_of_ofOther {c : Char} {rest : List Char} {s : Shape}
    (h : ofOther c rest = .token s) : Heads (c :: rest) s := by
  obtain ⟨fraction, tail, htext, htake, -, hfraction, hstop⟩ := Text.exists_run Char.isDigit rest
  unfold ofOther at h
  simp only [htake] at h
  split at h
  · rename_i hpoint
    cases h
    simp only [Bool.and_eq_true, decide_eq_true_eq, Bool.not_eq_true', List.isEmpty_eq_false_iff]
      at hpoint
    have hdigits : Text.IsDigits fraction := ⟨hpoint.2, hfraction⟩
    refine ⟨⟨by simp, by simpa using hdigits⟩, tail, ?_, hstop⟩
    simp [Shape.lexeme, htext, hpoint.1, String.toList_append]
  · split at h
    · rename_i mark hmark
      have hchar : mark.char = c := by
        simpa using List.find?_some hmark
      rw [← hchar]
      exact heads_of_ofString h
    · cases h

/-- **Nothing else is read.**  A token that stands at the head of a text is the end of an
    empty text, or a lexeme of its kind that ends where the rest of the text begins. -/
theorem eq_append_of_ofText {text : List Char} {s : Shape} (h : ofText text = .token s) :
    (s = .endOfInput ∧ text = []) ∨ Heads text s := by
  cases text with
  | nil =>
    cases h
    exact Or.inl ⟨rfl, rfl⟩
  | cons c rest =>
    refine Or.inr ?_
    simp only [ofText] at h
    split at h
    · rename_i p hp
      cases h
      have hchar : p.char = c := Punctuation.char_of_ofChar? hp
      exact ⟨trivial, rest, by simp [Shape.lexeme, hchar, Char.toString_eq_singleton], trivial⟩
    · split at h
      · rename_i hc
        exact heads_of_ofWord hc h
      · split at h
        · rename_i hc
          cases h
          exact heads_of_isOperatorChar hc rest
        · split at h
          · rename_i hc
            exact heads_of_ofNumber hc h
          · exact heads_of_ofOther h

/-- The names are the texts that are read, as a whole, as one symbol. -/
theorem ofText_eq_symbol_iff (name : String) :
    ofText name.toList = .token (.symbol name) ↔ Text.IsName name := by
  constructor
  · intro h
    rcases eq_append_of_ofText h with ⟨h, -⟩ | ⟨hname, -⟩
    · cases h
    · exact hname
  · intro h
    have hends : (Shape.symbol name).EndsBefore [] :=
      ⟨fun _ => Text.stops_nil _, fun _ => Text.stops_nil _⟩
    have hread := ofText_append (s := .symbol name) h hends
    simpa [Shape.lexeme] using hread

end Scan

end Juxta
