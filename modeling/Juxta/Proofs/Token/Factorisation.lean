/-
  Juxta/Proofs/Token/Factorisation.lean
  =====================================
  **Texts cut into lexemes** — what a text has to look like to be a sequence of tokens, said
  without the scanner.  A factorisation of a text is

      text  =  w₀ l₁ w₁ l₂ w₂ … lₙ wₙ

  with blank space `wᵢ` and lexemes `lᵢ`, in which a lexeme that no blank space follows could
  not have gone on.  The form of a lexeme gives its kind (`Text.HasForm`), and `Text.GoesOn`
  says which characters go on with it.

  The scanner finds the factorisation if there is one, there is never more than one, and
  where there is none the scanner reports a fault (`Scanner.all_iff_factorisation`).  Only a
  whole number with too many digits stops it otherwise; `Text.HasLongInteger` describes the
  texts in which one is met.
-/
import Juxta.Proofs.Token.Sequence

namespace Juxta

namespace Text

/-! ### Lexemes as texts -/

/-- Digits with one point among them or in front of them. -/
def IsDecimal (word : List Char) : Prop :=
  ∃ whole fraction, word = whole ++ '.' :: fraction ∧ (∀ c ∈ whole, c.isDigit = true) ∧
    IsDigits fraction

/-- A quote mark, text without that mark, and the same mark. -/
def IsQuoted (word : List Char) : Prop :=
  ∃ (mark : QuoteMark) (body : List Char), word = mark.char :: (body ++ [mark.char]) ∧
    mark.char ∉ body

/-- The form of the lexemes of each kind.  A word is a keyword only as a whole. -/
inductive HasForm : Kind → List Char → Prop where
  | punctuation (p : Punctuation) : HasForm (.punctuation p) [p.char]
  | keyword (k : Keyword) : HasForm (.keyword k) k.lexeme.toList
  | word {word : List Char} :
      IsWord word → (∀ k : Keyword, word ≠ k.lexeme.toList) → HasForm .symbol word
  | operator {word : List Char} : IsOperator word → HasForm .symbol word
  | integer {word : List Char} : IsDigits word → HasForm .integer word
  | decimal {word : List Char} : IsDecimal word → HasForm .decimal word
  | string {word : List Char} : IsQuoted word → HasForm .string word

/-- The lexeme could have gone on with the character. -/
def GoesOn (c : Char) (kind : Kind) (word : List Char) : Prop :=
  match kind with
  | .keyword _ => isWordPart c = true
  | .symbol => (IsWord word ∧ isWordPart c = true) ∨ (IsOperator word ∧ isOperatorChar c = true)
  | .integer => c.isDigit = true ∨ c = '.'
  | .decimal => c.isDigit = true
  | _ => False

/-! ### Factorisations -/

/-- A lexeme with the blank space after it. -/
structure Piece where
  kind : Kind
  lexeme : List Char
  blank : List Char

/-- The text is the pieces one after another, in front of `rest`. -/
inductive Pieces : List Char → List Piece → List Char → Prop where
  | done (rest : List Char) : Pieces rest [] rest
  | piece {p : Piece} {ps : List Piece} {text rest : List Char} :
      HasForm p.kind p.lexeme → (∀ c ∈ p.blank, isBlank c = true) →
      (p.blank = [] → ∀ c ∈ text.head?, ¬ GoesOn c p.kind p.lexeme) → Pieces text ps rest →
      Pieces (p.lexeme ++ (p.blank ++ text)) (p :: ps) rest

/-- A factorisation of a text into blank space and lexemes. -/
structure Factorisation (text : List Char) where
  lead : List Char
  pieces : List Piece
  tail : List Char
  text_eq : text = lead ++ tail
  isBlank_lead : ∀ c ∈ lead, isBlank c = true
  pieces_tail : Pieces tail pieces []

def Factorisation.lexemes {text : List Char} (f : Factorisation text) :
    List (Kind × List Char) :=
  f.pieces.map fun p => (p.kind, p.lexeme)

/-- Behind some pieces there stands a whole number with too many digits. -/
def LongIntegerBehind (text : List Char) : Prop :=
  ∃ ps digits rest, Pieces text ps (digits ++ rest) ∧ IsDigits digits ∧
    Scan.digitLimit < digits.length ∧ ∀ c ∈ rest.head?, ¬ GoesOn c .integer digits

/-- One of the lexemes with which the text begins is a whole number with too many digits. -/
def HasLongInteger (text : List Char) : Prop :=
  ∃ lead tail, text = lead ++ tail ∧ (∀ c ∈ lead, isBlank c = true) ∧ LongIntegerBehind tail

/-! ### Blank space between lexemes -/

/-- Blank space is apart from every class of characters that has no blank character. -/
theorem eq_false_of_isBlank {p : Char → Bool}
    (hp : p ' ' = false ∧ p '\t' = false ∧ p '\r' = false ∧ p '\n' = false) {c : Char}
    (h : isBlank c = true) : p c = false := by
  obtain ⟨hspace, htab, hreturn, hnewline⟩ := hp
  simp only [isBlank, Bool.or_eq_true, decide_eq_true_eq] at h
  rcases h with ((rfl | rfl) | rfl) | rfl
  · exact hspace
  · exact htab
  · exact hreturn
  · exact hnewline

theorem isWordPart_of_isBlank {c : Char} (h : isBlank c = true) : isWordPart c = false :=
  eq_false_of_isBlank (by decide) h

theorem isOperatorChar_of_isBlank {c : Char} (h : isBlank c = true) : isOperatorChar c = false :=
  eq_false_of_isBlank (by decide) h

theorem isDigit_of_isBlank {c : Char} (h : isBlank c = true) : c.isDigit = false :=
  eq_false_of_isBlank (p := Char.isDigit) (by decide) h

theorem isBlank_eq_false {p : Char → Bool} (hp : ∀ {d : Char}, isBlank d = true → p d = false)
    {c : Char} (h : p c = true) : isBlank c = false := by
  cases hc : isBlank c with
  | false => rfl
  | true =>
    rw [hp hc] at h
    cases h

/-- No lexeme is empty, and none begins with blank space. -/
theorem HasForm.exists_cons {k : Kind} {word : List Char} (h : HasForm k word) :
    ∃ c rest, word = c :: rest ∧ isBlank c = false := by
  have hword : ∀ {w : List Char}, IsWord w → ∃ c rest, w = c :: rest ∧ isBlank c = false := by
    rintro w ⟨c, rest, rfl, hc, -⟩
    exact ⟨c, rest, rfl, isBlank_eq_false isWordPart_of_isBlank (isWordPart_of_isWordStart hc)⟩
  cases h with
  | punctuation p =>
    refine ⟨p.char, [], rfl, ?_⟩
    cases p <;> decide
  | keyword k => exact hword k.isWord_lexeme
  | word h => exact hword h
  | operator h =>
    obtain ⟨c, rest, rfl⟩ := List.exists_cons_of_ne_nil h.1
    exact ⟨c, rest, rfl, isBlank_eq_false isOperatorChar_of_isBlank (h.2 c List.mem_cons_self)⟩
  | integer h =>
    obtain ⟨c, rest, rfl⟩ := List.exists_cons_of_ne_nil h.1
    exact ⟨c, rest, rfl, isBlank_eq_false isDigit_of_isBlank (h.2 c List.mem_cons_self)⟩
  | decimal h =>
    obtain ⟨whole, fraction, rfl, hwhole, -⟩ := h
    cases whole with
    | nil => exact ⟨'.', fraction, rfl, by decide⟩
    | cons c whole =>
      have hc : c.isDigit = true := hwhole c List.mem_cons_self
      exact ⟨c, whole ++ '.' :: fraction, rfl, isBlank_eq_false isDigit_of_isBlank hc⟩
  | string h =>
    obtain ⟨mark, body, rfl, -⟩ := h
    refine ⟨mark.char, body ++ [mark.char], rfl, ?_⟩
    cases mark <;> decide

theorem Pieces.length_le {text rest : List Char} {ps : List Piece} (h : Pieces text ps rest) :
    rest.length ≤ text.length := by
  induction h with
  | done => exact Nat.le_refl _
  | piece _ _ _ _ ih =>
    simp only [List.length_append]
    omega

/-- A text that is short enough has no number that is too long. -/
theorem not_hasLongInteger {text : List Char} (h : text.length ≤ Scan.digitLimit) :
    ¬ HasLongInteger text := by
  rintro ⟨lead, tail, rfl, -, ps, digits, rest, hps, -, hlimit, -⟩
  have hle := hps.length_le
  simp only [List.length_append] at h hle
  omega

theorem Pieces.stops {text : List Char} {ps : List Piece} (h : Pieces text ps []) :
    Stops isBlank text := by
  cases h with
  | done => exact stops_nil _
  | piece hform =>
    obtain ⟨c, rest, hword, hc⟩ := hform.exists_cons
    rw [hword]
    exact stops_cons.mpr hc

/-- The lexemes determine the blank space between them. -/
theorem Pieces.unique {ps qs : List Piece} {lead lead' text text' : List Char}
    (hp : Pieces text ps []) (hq : Pieces text' qs [])
    (hlead : ∀ c ∈ lead, isBlank c = true) (hlead' : ∀ c ∈ lead', isBlank c = true)
    (htext : lead ++ text = lead' ++ text')
    (hlexemes : ps.map (fun p => (p.kind, p.lexeme)) = qs.map (fun p => (p.kind, p.lexeme))) :
    lead = lead' ∧ text = text' ∧ ps = qs := by
  induction ps generalizing qs lead lead' text text' with
  | nil =>
    cases hp
    obtain rfl : qs = [] := by simpa using hlexemes.symm
    cases hq
    exact ⟨by simpa using htext, rfl, rfl⟩
  | cons p ps ih =>
    -- Both leads are the longest run of blank space at the head of the text.
    have hrun : lead = lead' := by
      rw [← takeWhile_append hlead hp.stops, htext, takeWhile_append hlead' hq.stops]
    subst hrun
    obtain rfl : text = text' := List.append_cancel_left htext
    cases qs with
    | nil => simp at hlexemes
    | cons q qs =>
      simp only [List.map_cons, List.cons.injEq, Prod.mk.injEq] at hlexemes
      obtain ⟨⟨hkind, hlexeme⟩, hlater⟩ := hlexemes
      generalize htarget : text = target at hq
      cases hp with
      | @piece _ _ rest _ _ hblank _ hrest =>
        cases hq with
        | @piece _ _ rest' _ _ hblank' _ hrest' =>
          rw [hlexeme] at htarget
          have hafter := List.append_cancel_left htarget
          obtain ⟨hsame, -, rfl⟩ := ih hrest hrest' hblank hblank' hafter hlater
          refine ⟨rfl, rfl, ?_⟩
          rw [List.cons.injEq]
          refine ⟨?_, rfl⟩
          cases p
          cases q
          simp_all

end Text

/-! ### Lexemes as tokens -/

namespace Shape

theorem IsLexeme.hasForm {s : Shape} (h : s.IsLexeme) : Text.HasForm s.kind s.lexeme.toList := by
  cases s with
  | endOfInput => exact absurd h (by simp [IsLexeme])
  | integer digits => exact .integer h.1
  | decimal whole fraction =>
    refine .decimal ⟨whole.toList, fraction.toList, ?_, h.1, h.2⟩
    simp [lexeme, String.toList_append]
  | string mark body =>
    refine .string ⟨mark, body.toList, ?_, h⟩
    simp [lexeme, String.toList_append, Char.toString_eq_singleton]
  | symbol name =>
    rcases h with ⟨hword, hkeyword⟩ | hoperator
    · refine .word hword fun k hk => ?_
      have hname : name = k.lexeme := String.toList_injective hk
      rw [hname, Keyword.ofWord?_lexeme] at hkeyword
      cases hkeyword
    · exact .operator hoperator
  | keyword k => exact .keyword k
  | punctuation p =>
    have hlexeme : (Shape.punctuation p).lexeme.toList = [p.char] := by
      simp [lexeme, Char.toString_eq_singleton]
    rw [hlexeme]
    exact .punctuation p

/-- A text of some form is the lexeme of a token, unless it has too many digits. -/
theorem exists_isLexeme {k : Kind} {word : List Char} (h : Text.HasForm k word)
    (hlimit : k = .integer → word.length ≤ Scan.digitLimit) :
    ∃ s : Shape, s.IsLexeme ∧ s.kind = k ∧ s.lexeme.toList = word := by
  cases h with
  | punctuation p =>
    exact ⟨.punctuation p, trivial, rfl, by simp [lexeme, Char.toString_eq_singleton]⟩
  | keyword k => exact ⟨.keyword k, trivial, rfl, rfl⟩
  | word hword hkeyword =>
    refine ⟨.symbol (String.ofList word), Or.inl ⟨by simpa using hword, ?_⟩, rfl, by simp [lexeme]⟩
    cases hfound : Keyword.ofWord? (String.ofList word) with
    | none => rfl
    | some k =>
      have hlexeme := Keyword.lexeme_of_ofWord? hfound
      exact absurd (by rw [hlexeme, String.toList_ofList]) (hkeyword k)
  | operator hoperator =>
    exact ⟨.symbol (String.ofList word), Or.inr (by simpa using hoperator), rfl, by simp [lexeme]⟩
  | integer hdigits =>
    refine ⟨.integer (String.ofList word), ⟨by simpa using hdigits, ?_⟩, rfl, by simp [lexeme]⟩
    simpa using hlimit rfl
  | decimal hdecimal =>
    obtain ⟨whole, fraction, rfl, hwhole, hfraction⟩ := hdecimal
    refine ⟨.decimal (String.ofList whole) (String.ofList fraction), ⟨?_, ?_⟩, rfl, ?_⟩
    · simpa using hwhole
    · simpa using hfraction
    · simp [lexeme, String.toList_append]
  | string hquoted =>
    obtain ⟨mark, body, rfl, hbody⟩ := hquoted
    refine ⟨.string mark (String.ofList body), ?_, rfl, ?_⟩
    · simpa [IsLexeme] using hbody
    · simp [lexeme, String.toList_append, Char.toString_eq_singleton]

/-- A token ends in front of a text whose first character does not go on with it. -/
theorem endsBefore_cons {s : Shape} (h : s.IsLexeme) {c : Char} {text : List Char} :
    s.EndsBefore (c :: text) ↔ ¬ Text.GoesOn c s.kind s.lexeme.toList := by
  cases s with
  | endOfInput => exact absurd h (by simp [IsLexeme])
  | integer digits => simp [EndsBefore, Text.GoesOn, kind, Text.stops_cons]
  | decimal whole fraction => simp [EndsBefore, Text.GoesOn, kind, Text.stops_cons]
  | symbol name => simp [EndsBefore, Text.GoesOn, kind, lexeme, Text.stops_cons]
  | keyword k => simp [EndsBefore, Text.GoesOn, kind, Text.stops_cons]
  | string mark body => simp [EndsBefore, Text.GoesOn, kind]
  | punctuation p => simp [EndsBefore, Text.GoesOn, kind]

theorem endsBefore_nil (s : Shape) : s.EndsBefore [] := by
  have hstops (p : Char → Bool) : Text.Stops p [] := Text.stops_nil p
  cases s with
  | symbol name => exact ⟨fun _ => hstops _, fun _ => hstops _⟩
  | keyword k => exact hstops _
  | integer digits => exact ⟨hstops _, by simp⟩
  | decimal whole fraction => exact hstops _
  | endOfInput | string | punctuation => trivial

/-- Blank space goes on with no lexeme. -/
theorem not_goesOn_of_isBlank {c : Char} (hc : Text.isBlank c = true) (k : Kind)
    (word : List Char) : ¬ Text.GoesOn c k word := by
  have hpoint : c ≠ '.' := by
    rintro rfl
    revert hc
    decide
  cases k <;>
    simp [Text.GoesOn, Text.isWordPart_of_isBlank hc, Text.isOperatorChar_of_isBlank hc,
      Text.isDigit_of_isBlank hc, hpoint]

/-- A lexeme with blank space after it ends there, and one without where the text says so. -/
theorem endsBefore_append {s : Shape} (h : s.IsLexeme) {blank text : List Char}
    (hblank : ∀ c ∈ blank, Text.isBlank c = true)
    (hstop : blank = [] → ∀ c ∈ text.head?, ¬ Text.GoesOn c s.kind s.lexeme.toList) :
    s.EndsBefore (blank ++ text) := by
  cases blank with
  | cons c blank => exact (endsBefore_cons h).mpr (not_goesOn_of_isBlank (hblank c (by simp)) _ _)
  | nil =>
    cases text with
    | nil => exact s.endsBefore_nil
    | cons c text => exact (endsBefore_cons h).mpr (hstop rfl c rfl)

end Shape

/-! ### From tokens to pieces -/

/-- A lexeme in front of a text that begins with blank space and pieces is one more piece. -/
theorem Text.Pieces.of_isLexeme {s : Shape} (hs : s.IsLexeme) {lead tail rest : List Char}
    {ps : List Text.Piece} (hlead : ∀ c ∈ lead, Text.isBlank c = true)
    (hends : s.EndsBefore (lead ++ tail)) (hps : Text.Pieces tail ps rest) :
    Text.Pieces (s.lexeme.toList ++ (lead ++ tail)) (⟨s.kind, s.lexeme.toList, lead⟩ :: ps)
      rest := by
  refine .piece (p := ⟨s.kind, s.lexeme.toList, lead⟩) hs.hasForm hlead ?_ hps
  rintro rfl c hc
  cases tail with
  | nil => cases hc
  | cons d tail =>
    obtain rfl : d = c := by simpa using hc
    exact (Shape.endsBefore_cons hs).mp hends

namespace Scanner

/-- What a step of the scanner passes over: blank space and a lexeme that ends there. -/
theorem exists_lead {k k' : Cursor} {t : Token} (h : next k = .ok t k') (ht : t.isEnd = false) :
    ∃ lead, k.rest = lead ++ (t.shape.lexeme.toList ++ k'.rest) ∧
      (∀ c ∈ lead, Text.isBlank c = true) ∧ t.shape.IsLexeme ∧ t.shape.EndsBefore k'.rest := by
  obtain ⟨lead, text, htext, -, hdrop, hlead, -⟩ := Text.exists_run Text.isBlank k.rest
  rcases next_eq_ok h with ⟨hend, -⟩ | ⟨⟨hlexeme, rest, hrest, hends⟩, hk'⟩
  · rw [Token.isEnd, Token.kind, hend] at ht
    cases ht
  · rw [hdrop] at hrest hk'
    have hafter : k'.rest = rest := by
      rw [hk', hrest, ← String.length_toList]
      exact List.drop_left
    refine ⟨lead, ?_, hlead, hlexeme, hafter ▸ hends⟩
    rw [htext, hrest, hafter]

/-- The last token is the end of input, which has no text, after blank space. -/
theorem isBlank_of_isEnd {k k' : Cursor} {t : Token} (h : next k = .ok t k')
    (ht : t.isEnd = true) : t.shape = .endOfInput ∧ ∀ c ∈ k.rest, Text.isBlank c = true := by
  rcases next_eq_ok h with ⟨hend, hrest⟩ | ⟨⟨hlexeme, -⟩, -⟩
  · refine ⟨hend, fun c hc => ?_⟩
    obtain ⟨lead, text, htext, -, hdrop, hlead, -⟩ := Text.exists_run Text.isBlank k.rest
    rw [hrest] at hdrop
    rw [htext, ← hdrop, List.append_nil] at hc
    exact hlead c hc
  · rw [Token.isEnd, Token.kind, beq_iff_eq] at ht
    have hform := hlexeme.hasForm
    rw [ht] at hform
    cases hform

end Scanner

/-- Where the scanner gives up on a whole number, that number has too many digits. -/
theorem Scan.exists_digits {text : List Char} {digits : String}
    (h : ofText text = .tooManyDigits digits) :
    ∃ run rest, text = run ++ rest ∧ Text.IsDigits run ∧ digitLimit < run.length ∧
      ∀ c ∈ rest.head?, ¬ Text.GoesOn c .integer run := by
  cases text with
  | nil => cases h
  | cons c rest =>
    have hword : ∀ w, ofWord w ≠ .tooManyDigits digits := by
      intro w hw
      unfold ofWord at hw
      split at hw <;> cases hw
    have hother : ∀ c rest, ofOther c rest ≠ .tooManyDigits digits := by
      intro c rest hc
      unfold ofOther ofString at hc
      simp only at hc
      repeat' split at hc
      all_goals cases hc
    simp only [ofText] at h
    split at h
    · cases h
    · split at h
      · exact absurd h (hword _)
      · split at h
        · cases h
        · split at h
          · rename_i hc
            obtain ⟨run, after, htext, htake, hdrop, hrun, hstop⟩ :=
              Text.exists_run Char.isDigit (c :: rest)
            have hne : run ≠ [] := by
              rw [← htake, List.takeWhile_cons_of_pos hc]
              exact List.cons_ne_nil _ _
            unfold ofNumber at h
            rw [htake, hdrop] at h
            split at h
            · simp only at h
              split at h <;> cases h
            · rename_i hpoint
              simp only [ofInteger] at h
              split at h
              · cases h
              · rename_i hlimit
                refine ⟨run, after, htext, ⟨hne, hrun⟩, by omega, ?_⟩
                rintro d hd (hdigit | rfl)
                · rw [hstop d hd] at hdigit
                  cases hdigit
                · obtain ⟨tail, rfl⟩ := List.head?_eq_some_iff.mp hd
                  exact hpoint tail rfl
          · exact absurd h (hother _ _)

namespace Cursor

theorem Scans.exists_factorisation {k : Cursor} {ts : List Token} (h : Scans k ts none) :
    ∃ f : Text.Factorisation k.rest,
      ts.map (fun t => (t.kind, t.lexeme.toList)) = f.lexemes ++ [(.endOfInput, [])] := by
  generalize hf : (none : Option ScanError) = f at h
  induction h with
  | @last k k' t hn ht =>
    obtain ⟨hshape, hblank⟩ := Scanner.isBlank_of_isEnd hn ht
    refine ⟨⟨k.rest, [], [], by simp, hblank, .done []⟩, ?_⟩
    simp [Text.Factorisation.lexemes, Token.kind, Token.lexeme, hshape, Shape.kind, Shape.lexeme]
  | fault => cases hf
  | @more k k' t ts _ hn ht _ ih =>
    obtain ⟨⟨lead, ps, tail, hrest, hblank, hps⟩, hmap⟩ := ih hf
    obtain ⟨first, htext, hfirst, hlexeme, hends⟩ := Scanner.exists_lead hn ht
    rw [hrest] at hends htext
    refine ⟨⟨first, _, _, htext, hfirst, .of_isLexeme hlexeme hblank hends hps⟩, ?_⟩
    simpa [Text.Factorisation.lexemes, Token.kind, Token.lexeme] using hmap

/-- A scan that breaks off at a whole number with too many digits has met one. -/
theorem Scans.hasLongInteger {k : Cursor} {ts : List Token} {e : TooManyDigits}
    (h : Scans k ts (some (.tooManyDigits e))) : Text.HasLongInteger k.rest := by
  generalize hf : some (ScanError.tooManyDigits e) = f at h
  induction h with
  | last => cases hf
  | @fault k k' e' hn =>
    obtain ⟨lead, text, htext, -, hdrop, hlead, -⟩ := Text.exists_run Text.isBlank k.rest
    cases hf
    simp only [Scanner.next] at hn
    cases hscan : Scan.ofText k.skipBlanks.rest with
    | token s =>
      rw [hscan] at hn
      cases hn
    | fault f =>
      rw [hscan] at hn
      cases hn
    | tooManyDigits digits =>
      rw [rest_skipBlanks, hdrop] at hscan
      obtain ⟨run, rest, rfl, hrun, hlimit, hstop⟩ := Scan.exists_digits hscan
      exact ⟨lead, _, htext, hlead, [], run, rest, .done _, hrun, hlimit, hstop⟩
  | @more k k' t ts _ hn ht _ ih =>
    obtain ⟨lead, tail, hrest, hblank, ps, digits, rest, hps, hlong⟩ := ih hf
    obtain ⟨first, htext, hfirst, hlexeme, hends⟩ := Scanner.exists_lead hn ht
    rw [hrest] at hends htext
    exact ⟨first, _, htext, hfirst, _, digits, rest, .of_isLexeme hlexeme hblank hends hps, hlong⟩

end Cursor

/-! ### From pieces to tokens -/

namespace Text

theorem Spells.append_blank {blank text : List Char} {ss : List Shape}
    (hblank : ∀ c ∈ blank, isBlank c = true) (h : Spells text ss) : Spells (blank ++ text) ss := by
  induction blank with
  | nil => exact h
  | cons c blank ih =>
    rw [List.forall_mem_cons] at hblank
    exact .blank hblank.1 (ih hblank.2)

/-- A number that is too long is met where it stands. -/
theorem length_le_of_not_longIntegerBehind {p : Piece} {text : List Char}
    (hform : HasForm p.kind p.lexeme) (hblank : ∀ c ∈ p.blank, isBlank c = true)
    (hstop : p.blank = [] → ∀ c ∈ text.head?, ¬ GoesOn c p.kind p.lexeme)
    (hlong : ¬ LongIntegerBehind (p.lexeme ++ (p.blank ++ text))) (hkind : p.kind = .integer) :
    p.lexeme.length ≤ Scan.digitLimit := by
  rcases Nat.lt_or_ge Scan.digitLimit p.lexeme.length with hlength | hlength
  · rw [hkind] at hform hstop
    have hdigits : IsDigits p.lexeme := by
      generalize p.lexeme = word at hform
      cases hform with
      | integer h => exact h
    refine absurd ⟨[], p.lexeme, _, .done _, hdigits, hlength, ?_⟩ hlong
    intro c hc
    cases hp : p.blank with
    | nil =>
      rw [hp] at hc
      exact hstop hp c hc
    | cons d blank =>
      obtain rfl : d = c := by simpa [hp] using hc
      exact Shape.not_goesOn_of_isBlank (hblank d (by simp [hp])) _ _
  · exact hlength

/-- Pieces without a number that is too long spell tokens. -/
theorem Pieces.exists_spells {text : List Char} {ps : List Piece} (h : Pieces text ps [])
    (hlong : ¬ LongIntegerBehind text) :
    ∃ ss, Spells text ss ∧
      ss.map (fun s => (s.kind, s.lexeme.toList)) = ps.map (fun p => (p.kind, p.lexeme)) := by
  generalize hrest : ([] : List Char) = rest at h
  induction h with
  | done =>
    subst hrest
    exact ⟨[], .nil, rfl⟩
  | @piece p ps text rest hform hblank hstop hps ih =>
    have hlimit := length_le_of_not_longIntegerBehind hform hblank hstop hlong
    obtain ⟨s, hs, hkind, hlexeme⟩ := Shape.exists_isLexeme hform hlimit
    have hlater : ¬ LongIntegerBehind text := by
      rintro ⟨qs, digits, after, hqs, hlater⟩
      exact hlong ⟨p :: qs, digits, after, .piece hform hblank hstop hqs, hlater⟩
    obtain ⟨ss, hss, hmap⟩ := ih hlater hrest
    rw [← hkind, ← hlexeme] at hstop
    refine ⟨s :: ss, ?_, by simp [hkind, hlexeme, hmap]⟩
    rw [← hlexeme]
    exact .lexeme hs (Shape.endsBefore_append hs hblank hstop) (hss.append_blank hblank)

theorem Factorisation.exists_scans {k : Cursor} (f : Factorisation k.rest)
    (hlong : ¬ HasLongInteger k.rest) :
    ∃ ts, k.Scans ts none ∧
      ts.map (fun t => (t.kind, t.lexeme.toList)) = f.lexemes ++ [(.endOfInput, [])] := by
  have hbehind : ¬ LongIntegerBehind f.tail := by
    intro h
    exact hlong ⟨f.lead, f.tail, f.text_eq, f.isBlank_lead, h⟩
  obtain ⟨ss, hss, hmap⟩ := f.pieces_tail.exists_spells hbehind
  obtain ⟨ts, hts, hshapes⟩ := (hss.append_blank f.isBlank_lead).exists_scans f.text_eq
  refine ⟨ts, hts, ?_⟩
  have htokens : ts.map (fun t => (t.kind, t.lexeme.toList)) =
      (ts.map Token.shape).map (fun s => (s.kind, s.lexeme.toList)) := by
    rw [List.map_map]
    rfl
  rw [htokens, hshapes, List.map_append, hmap]
  rfl

end Text

/-! ### All tokens of a text -/

namespace Cursor

/-- Tokens take a character each, the end of input apart. -/
theorem Scans.length_le {k : Cursor} {ts : List Token} {f : Option ScanError}
    (h : Scans k ts f) : ts.length ≤ k.rest.length + (if f.isNone then 1 else 0) := by
  induction h with
  | last => simp
  | fault => simp
  | more hn ht _ ih =>
    have hlt := Scanner.length_rest_lt hn ht
    rw [List.length_cons]
    omega

end Cursor

namespace Scanner

theorem upTo_succ (n : Nat) (k : Cursor) :
    upTo (n + 1) k =
      match next k with
      | .error e k' => .error e k'
      | .ok t k' =>
        if t.isEnd then .ok [t] k'
        else match upTo n k' with
          | .error e k'' => .error e k''
          | .ok ts k'' => .ok (t :: ts) k'' := by
  change EStateM.bind next _ k = _
  unfold EStateM.bind
  cases next k with
  | error e k' => rfl
  | ok t k' =>
    dsimp only
    cases t.isEnd with
    | true => rfl
    | false =>
      change EStateM.bind (upTo n) _ k' = _
      unfold EStateM.bind
      cases upTo n k' <;> rfl

theorem upTo_of_scans {k : Cursor} {ts : List Token} {f : Option ScanError} (h : k.Scans ts f)
    {n : Nat} (hn : ts.length + (if f.isNone then 0 else 1) ≤ n) :
    ∃ k', upTo n k = match f with
      | none => .ok ts k'
      | some e => .error e k' := by
  induction h generalizing n with
  | @last k k' t hnext ht =>
    obtain ⟨n, rfl⟩ := Nat.exists_eq_succ_of_ne_zero (n := n) (by rintro rfl; simp at hn)
    refine ⟨k', ?_⟩
    rw [upTo_succ, hnext]
    simp [ht]
  | @fault k k' e hnext =>
    obtain ⟨n, rfl⟩ := Nat.exists_eq_succ_of_ne_zero (n := n) (by rintro rfl; simp at hn)
    refine ⟨k', ?_⟩
    rw [upTo_succ, hnext]
  | @more k k' t ts f hnext ht _ ih =>
    obtain ⟨n, rfl⟩ := Nat.exists_eq_succ_of_ne_zero (n := n) (by rintro rfl; simp at hn)
    obtain ⟨k'', hlater⟩ := ih (n := n) (by rw [List.length_cons] at hn; omega)
    refine ⟨k'', ?_⟩
    rw [upTo_succ, hnext]
    dsimp only
    rw [hlater, ht]
    cases f <;> rfl

/-- Reading all tokens gives what the scan of the text gives. -/
theorem all_of_scans {k : Cursor} {ts : List Token} {f : Option ScanError} (h : k.Scans ts f) :
    ∃ k', all k = match f with
      | none => .ok ts k'
      | some e => .error e k' := by
  have hlength := h.length_le
  have hbound : ts.length + (if f.isNone then 0 else 1) ≤ k.rest.length + 1 := by
    cases f <;> simp at hlength ⊢ <;> omega
  exact upTo_of_scans h hbound

theorem scans_of_all {k k' : Cursor} {ts : List Token} (h : all k = .ok ts k') :
    k.Scans ts none := by
  obtain ⟨ts', f, hscans⟩ := k.exists_scans
  obtain ⟨l, hall⟩ := all_of_scans hscans
  rw [h] at hall
  cases f with
  | none =>
    cases hall
    exact hscans
  | some e => cases hall

/-- **The scanner finds the factorisation.**  It reads a text to its end exactly when the text
    has a factorisation into lexemes, and reads these; there is at most one; without one it
    reports a fault. -/
theorem all_iff_factorisation {text : List Char} {filename : Option String}
    (hlong : ¬ Text.HasLongInteger text) :
    (∀ lexemes : List (Kind × List Char),
      (∃ ts k, all (.start text filename) = .ok ts k ∧
        ts.map (fun t => (t.kind, t.lexeme.toList)) = lexemes ++ [(.endOfInput, [])]) ↔
      ∃ f : Text.Factorisation text, f.lexemes = lexemes) ∧
    (∀ f g : Text.Factorisation text, f = g) ∧
    (¬ Nonempty (Text.Factorisation text) →
      ∃ e k, all (.start text filename) = .error (.lexical e) k) := by
  have hread : ∀ f : Text.Factorisation text, ∃ ts k, all (.start text filename) = .ok ts k ∧
      ts.map (fun t => (t.kind, t.lexeme.toList)) = f.lexemes ++ [(.endOfInput, [])] := by
    intro f
    obtain ⟨ts, hts, hmap⟩ := Text.Factorisation.exists_scans (k := .start text filename) f hlong
    obtain ⟨k, hall⟩ := all_of_scans hts
    exact ⟨ts, k, hall, hmap⟩
  obtain ⟨ts, f, hscans⟩ := Cursor.exists_scans (.start text filename)
  obtain ⟨k, hall⟩ := all_of_scans hscans
  refine ⟨fun lexemes => ⟨?_, ?_⟩, ?_, ?_⟩
  · rintro ⟨ts', k', hok, hmap⟩
    rw [hall] at hok
    cases f with
    | some e => cases hok
    | none =>
      cases hok
      obtain ⟨g, hg⟩ := hscans.exists_factorisation
      rw [hmap] at hg
      exact ⟨g, (List.append_cancel_right hg).symm⟩
  · rintro ⟨g, rfl⟩
    exact hread g
  · intro g g'
    -- Both are what the scanner reads, and lexemes determine the blank space between them.
    obtain ⟨us, l, hus, hmap⟩ := hread g
    obtain ⟨us', l', hus', hmap'⟩ := hread g'
    rw [hus] at hus'
    cases hus'
    rw [hmap] at hmap'
    have hlexemes : g.lexemes = g'.lexemes := List.append_cancel_right hmap'
    obtain ⟨lead, ps, tail, htext, hlead, hps⟩ := g
    obtain ⟨lead', ps', tail', htext', hlead', hps'⟩ := g'
    obtain ⟨rfl, rfl, rfl⟩ :=
      Text.Pieces.unique hps hps' hlead hlead' (htext.symm.trans htext') hlexemes
    rfl
  · intro hnone
    cases f with
    | none =>
      obtain ⟨g, -⟩ := hscans.exists_factorisation
      exact absurd ⟨g⟩ hnone
    | some e =>
      cases e with
      | lexical e => exact ⟨e, k, hall⟩
      | tooManyDigits e => exact absurd hscans.hasLongInteger hlong

/-- A keyword, a word that begins like one, and two decimals and a string with no blank space
    between them. -/
theorem all_iff_factorisation_adjacent :
    ¬ Text.HasLongInteger "letrec letrec_1.5.5'a'".toList ∧
      ∃ f : Text.Factorisation "letrec letrec_1.5.5'a'".toList,
        f.lexemes =
          [(.keyword .recursiveBinding, "letrec".toList), (.symbol, "letrec_1".toList),
            (.decimal, ".5".toList), (.decimal, ".5".toList), (.string, "'a'".toList)] := by
  have hlong : ¬ Text.HasLongInteger "letrec letrec_1.5.5'a'".toList :=
    Text.not_hasLongInteger (by decide)
  refine ⟨hlong, ?_⟩
  have hread := @all_iff_factorisation _ none hlong
  exact (hread.1 _).mp ⟨_, _, rfl, by decide +kernel⟩

end Scanner

end Juxta
