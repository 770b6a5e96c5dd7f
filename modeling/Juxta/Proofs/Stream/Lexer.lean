/-
  Juxta/Proofs/Stream/Lexer.lean
  ==============================
  **Reading character by character** — the lexer goes over a stream one character at a time, and
  comes to the token or the fault that the scanner finds in the whole text
  (`Lexer.comes_next`).

  `Comes n x r m` says of a reader that behind `n` characters of the text it comes to the result
  `r` and stops behind `m` characters, however the text is cut into reads and however much of it
  has been read.
-/
import Juxta.Proofs.Stream.Refinement
import Juxta.Proofs.Token.Tiling
import Juxta.Token.Lexer

namespace Juxta

namespace Lexer

variable {α β : Type} {reads : List (List Char)} {filename : Option String} {n m l : Nat}

/-- Behind `n` characters the reader comes to the result and stops behind `m` characters. -/
def Comes (reads : List (List Char)) (filename : Option String) (n : Nat) (x : Lexer α)
    (r : Except ScanError α) (m : Nat) : Prop :=
  ∀ ⦃s : Stream⦄, s.Holds reads filename n → ∃ s', s'.Holds reads filename m ∧
    x s = match r with
      | .ok a => .ok a s'
      | .error e => .error e s'

/-! ### Single characters -/

theorem comes_pure (a : α) : Comes reads filename n (pure a) (.ok a) n := by
  intro s hs
  exact ⟨s, hs, rfl⟩

theorem comes_throw (e : ScanError) :
    Comes reads filename n (throw e : Lexer α) (.error e) n := by
  intro s hs
  exact ⟨s, hs, rfl⟩

theorem Comes.bind {x : Lexer α} {f : α → Lexer β} {a : α} {r : Except ScanError β}
    (hx : Comes reads filename n x (.ok a) m) (hf : Comes reads filename m (f a) r l) :
    Comes reads filename n (x >>= f) r l := by
  intro s hs
  obtain ⟨s', hs', hok⟩ := hx hs
  obtain ⟨s'', hs'', hlast⟩ := hf hs'
  refine ⟨s'', hs'', ?_⟩
  change EStateM.bind x f s = _
  rw [EStateM.bind, hok]
  exact hlast

theorem comes_peek (ahead : Nat) :
    Comes reads filename n (peek ahead) (.ok reads.flatten[n + ahead]?) n := by
  intro s hs
  obtain ⟨hanswer, hheld, -⟩ := hs.peek ahead
  refine ⟨_, hheld, ?_⟩
  rw [← hanswer]
  rfl

theorem comes_peek_zero : Comes reads filename n (peek 0) (.ok reads.flatten[n]?) n := comes_peek 0

theorem comes_advance {c : Char} (hc : reads.flatten[n]? = some c) :
    Comes reads filename n advance (.ok ()) (n + 1) := by
  intro s hs
  exact ⟨_, (hs.advance hc).2, rfl⟩

theorem comes_place :
    Comes reads filename n place (.ok (Text.locationAt reads.flatten filename n 0)) n := by
  intro s hs
  refine ⟨s, hs, ?_⟩
  rw [place, hs.location]

theorem comes_lineText :
    Comes reads filename n lineText (.ok (Text.currentLine reads.flatten n)) n := by
  intro s hs
  obtain ⟨hanswer, hheld⟩ := hs.lineText
  refine ⟨_, hheld, ?_⟩
  rw [← hanswer]
  rfl

/-! ### Characters of a class -/

theorem drop_eq_cons {text : List Char} {c : Char} (h : text[n]? = some c) :
    text.drop n = c :: text.drop (n + 1) := by
  obtain ⟨hn, rfl⟩ := List.getElem?_eq_some_iff.mp h
  exact List.drop_eq_getElem_cons hn

theorem comes_readUpTo (p : Char → Bool) {fuel : Nat} (hfuel : reads.flatten.length ≤ n + fuel) :
    Comes reads filename n (readUpTo p fuel) (.ok ((reads.flatten.drop n).takeWhile p))
      (n + ((reads.flatten.drop n).takeWhile p).length) := by
  induction fuel generalizing n with
  | zero =>
    rw [List.drop_eq_nil_of_le (by omega)]
    exact comes_pure []
  | succ fuel ih =>
    apply comes_peek_zero.bind
    cases hc : reads.flatten[n]? with
    | none =>
      rw [List.drop_eq_nil_of_le (List.getElem?_eq_none_iff.mp hc)]
      exact comes_pure []
    | some c =>
      rw [drop_eq_cons hc]
      by_cases hp : p c = true
      · rw [List.takeWhile_cons_of_pos hp, List.length_cons]
        dsimp only
        rw [if_pos hp]
        apply (comes_advance hc).bind
        have hlater := ih (n := n + 1) (by omega)
        rw [Nat.add_assoc, Nat.add_comm 1] at hlater
        exact hlater.bind (comes_pure _)
      · rw [List.takeWhile_cons_of_neg hp]
        dsimp only
        rw [if_neg hp]
        exact comes_pure []

/-- As many characters are to come as the text is long, less those that have been consumed. -/
theorem length_toCome {s : Stream} (hs : s.Holds reads filename n) :
    reads.flatten.length ≤ n + (s.unread.length + s.toCome.length) := by
  have hcome : s.toCome = s.pending.flatten := by
    rw [Stream.toCome, List.takeWhile_eq_self_iff.mpr]
    intro read hread
    simpa using hs.pending_ne_nil read hread
  have hlength := congrArg List.length hs.buffer
  have hindex := hs.index
  have hhead := Text.length_lineHead_le reads.flatten n
  rw [List.length_drop, Text.lineStart, List.length_append] at hlength
  rw [hcome, Stream.unread, List.length_drop]
  omega

theorem comes_readWhile (reads : List (List Char)) (filename : Option String) (n : Nat)
    (p : Char → Bool) :
    Comes reads filename n (readWhile p) (.ok ((reads.flatten.drop n).takeWhile p))
      (n + ((reads.flatten.drop n).takeWhile p).length) := by
  intro s hs
  exact comes_readUpTo p (length_toCome hs) hs

/-- What comes behind the characters of a class. -/
theorem drop_takeWhile (text : List Char) (n : Nat) (p : Char → Bool) :
    text.drop (n + ((text.drop n).takeWhile p).length) = (text.drop n).dropWhile p := by
  obtain ⟨run, rest, htext, htake, hdrop, -⟩ := Text.exists_run p (text.drop n)
  rw [htake, hdrop, ← List.drop_drop, htext, List.drop_left]

theorem getElem?_of_drop {text rest : List Char} (h : text.drop n = rest) (ahead : Nat) :
    text[n + ahead]? = rest[ahead]? := by
  rw [← h, List.getElem?_drop]

/-! ### Tokens and faults -/

/-- Behind `n` characters, where no blank space comes next, the reader comes to what stands there
    and stops behind it. -/
def Lexes (reads : List (List Char)) (filename : Option String) (n : Nat) (x : Lexer Token)
    (scan : Scan) : Prop :=
  Comes reads filename n x
    (Scanner.Call.ofScan (.behind reads.flatten filename n) scan).outcome (n + scan.passed)

variable {x : Lexer Token} {text : List Char}

theorem lexes_token {shape : Shape}
    (h : Comes reads filename n x (.ok (tokenAt (Text.locationAt reads.flatten filename n 0) shape))
      (n + shape.lexeme.length)) : Lexes reads filename n x (.token shape) := by
  intro s hs
  have hplace : (Cursor.behind reads.flatten filename n).location shape.lexeme.length = _ :=
    Cursor.location_behind hs.consumed _
  simp only [Scanner.Call.ofScan, hplace]
  exact h hs

theorem lexes_fault {fault : Fault}
    (h : Comes reads filename n x
      (.error (faultAt (Text.locationAt reads.flatten filename n 0) fault
        (Text.currentLine reads.flatten n))) (n + fault.passed)) :
    Lexes reads filename n x (.fault fault) := by
  intro s hs
  have hplace : (Cursor.behind reads.flatten filename n).location fault.span = _ :=
    Cursor.location_behind hs.consumed _
  have hline : (Cursor.behind reads.flatten filename n).lineText = _ :=
    Cursor.lineText_behind hs.consumed
  simp only [Scanner.Call.ofScan, hplace, hline]
  exact h hs

theorem lexes_word :
    Lexes reads filename n word
      (Scan.ofWord (String.ofList ((reads.flatten.drop n).takeWhile Text.isWordPart))) := by
  have hread := comes_readWhile reads filename n Text.isWordPart
  generalize (reads.flatten.drop n).takeWhile Text.isWordPart = w at hread
  have hlength := String.length_ofList (l := w)
  unfold Scan.ofWord
  cases hword : Keyword.ofWord? (String.ofList w) with
  | some k =>
    apply lexes_token
    rw [Shape.lexeme, Keyword.lexeme_of_ofWord? hword, hlength]
    apply comes_place.bind
    apply hread.bind
    simp only [hword]
    exact comes_pure _
  | none =>
    apply lexes_token
    rw [Shape.lexeme, hlength]
    apply comes_place.bind
    apply hread.bind
    simp only [hword]
    exact comes_pure _

theorem lexes_operator :
    Lexes reads filename n operator
      (.token (.symbol (String.ofList ((reads.flatten.drop n).takeWhile Text.isOperatorChar)))) := by
  have hread := comes_readWhile reads filename n Text.isOperatorChar
  apply lexes_token
  rw [Shape.lexeme, String.length_ofList]
  apply comes_place.bind
  apply hread.bind
  exact comes_pure _

/-- The line is the same behind characters that do not end it. -/
theorem currentLine_add {run rest : List Char} (h : text.drop n = run ++ rest)
    (hn : n ≤ text.length) (hrun : '\n' ∉ run) :
    Text.currentLine text (n + run.length) = Text.currentLine text n := by
  have htake : text.take (n + run.length) = text.take n ++ run := by
    rw [List.take_add, h, List.take_left]
  have hlength := congrArg List.length h
  rw [List.length_drop, List.length_append] at hlength
  apply Text.currentLine_eq_of_count
  · omega
  · exact hn
  · rw [htake, List.count_append, List.count_eq_zero_of_not_mem hrun, Nat.add_zero]

theorem Lexes.of_consumed {scan : Scan}
    (h : n ≤ reads.flatten.length → Lexes reads filename n x scan) :
    Lexes reads filename n x scan := fun _ hs => h hs.consumed hs

/-- A class goes on if the next character is in it. -/
theorem isEmpty_takeWhile (p : Char → Bool) (text : List Char) :
    (text.takeWhile p).isEmpty = !text[0]?.any p := by
  cases text with
  | nil => rfl
  | cons c text => cases hc : p c <;> simp [hc]

theorem lexes_integer {whole : List Char}
    (hread : Comes reads filename n (readWhile Char.isDigit) (.ok whole) (n + whole.length))
    (hpoint : reads.flatten[n + whole.length]? ≠ some '.') :
    Lexes reads filename n number (Scan.ofInteger whole) := by
  have hnumber (r : Except ScanError Token)
      (h : Comes reads filename (n + whole.length)
        (if whole.length ≤ Scan.digitLimit then
          pure (tokenAt (Text.locationAt reads.flatten filename n 0)
            (.integer (String.ofList whole)))
        else throw (.tooManyDigits ⟨whole.length⟩)) r (n + whole.length)) :
      Comes reads filename n number r (n + whole.length) := by
    apply comes_place.bind
    apply hread.bind
    apply comes_peek_zero.bind
    rw [if_neg hpoint]
    exact h
  unfold Scan.ofInteger
  split
  next hlimit =>
    apply lexes_token
    rw [Shape.lexeme, String.length_ofList]
    apply hnumber
    rw [if_pos hlimit]
    exact comes_pure _
  next hlimit =>
    simp only [Lexes, Scan.passed, Scanner.Call.ofScan, String.length_ofList]
    apply hnumber
    rw [if_neg hlimit]
    exact comes_throw _

theorem lexes_decimal {whole after : List Char}
    (hread : Comes reads filename n (readWhile Char.isDigit) (.ok whole) (n + whole.length))
    (htext : reads.flatten.drop n = whole ++ '.' :: after)
    (hwhole : ∀ c ∈ whole, c.isDigit = true) :
    Lexes reads filename n number
      (if (after.takeWhile Char.isDigit).isEmpty then
        .fault (.malformedDecimal (String.ofList whole ++ "."))
      else .token (.decimal (String.ofList whole)
        (String.ofList (after.takeWhile Char.isDigit)))) := by
  have htail : reads.flatten.drop (n + whole.length) = '.' :: after := by
    rw [← List.drop_drop, htext, List.drop_left]
  have hafter : reads.flatten.drop (n + whole.length + 1) = after := by
    rw [← List.drop_drop, htail, List.drop_succ_cons, List.drop_zero]
  have hpoint : reads.flatten[n + whole.length]? = some '.' := getElem?_of_drop htail 0
  have hfollowing : reads.flatten[n + whole.length + 1]? = after[0]? := getElem?_of_drop htail 1
  apply Lexes.of_consumed
  intro hn
  rw [isEmpty_takeWhile]
  cases hdigit : after[0]?.any Char.isDigit with
  | true =>
    have hfraction := comes_readWhile reads filename (n + whole.length + 1) Char.isDigit
    rw [hafter] at hfraction
    apply lexes_token
    have hlength : n + (Shape.decimal (String.ofList whole)
        (String.ofList (after.takeWhile Char.isDigit))).lexeme.length =
        n + whole.length + 1 + (after.takeWhile Char.isDigit).length := by
      have hmark : ".".length = 1 := rfl
      simp only [Shape.lexeme, String.length_append, String.length_ofList]
      omega
    rw [hlength]
    apply comes_place.bind
    apply hread.bind
    apply comes_peek_zero.bind
    rw [hpoint, if_pos rfl]
    apply (comes_peek 1).bind
    rw [hfollowing, if_pos hdigit]
    apply (comes_advance hpoint).bind
    apply hfraction.bind
    exact comes_pure _
  | false =>
    have hline : Text.currentLine reads.flatten (n + whole.length + 1) =
        Text.currentLine reads.flatten n := by
      have hrun : '\n' ∉ whole ++ ['.'] := by
        rw [List.mem_append, not_or]
        constructor
        · intro hmem
          exact absurd (hwhole _ hmem) (by decide)
        · decide
      have hlength : n + whole.length + 1 = n + (whole ++ ['.']).length := by simp [Nat.add_assoc]
      rw [hlength]
      have hsplit : reads.flatten.drop n = (whole ++ ['.']) ++ after := by
        rw [htext]
        simp
      exact currentLine_add hsplit hn hrun
    apply lexes_fault
    have hpassed : n + Fault.passed (.malformedDecimal (String.ofList whole ++ ".")) =
        n + whole.length + 1 := by
      have hmark : ".".length = 1 := rfl
      simp only [Fault.passed, String.length_append, String.length_ofList]
      omega
    rw [hpassed]
    apply comes_place.bind
    apply hread.bind
    apply comes_peek_zero.bind
    rw [hpoint, if_pos rfl]
    apply (comes_peek 1).bind
    rw [hfollowing, if_neg (by simp [hdigit])]
    apply (comes_advance hpoint).bind
    apply comes_lineText.bind
    rw [hline]
    exact comes_throw _

theorem lexes_number : Lexes reads filename n number (Scan.ofNumber (reads.flatten.drop n)) := by
  obtain ⟨whole, tail, htext, htake, hdrop, hdigits, -⟩ :=
    Text.exists_run Char.isDigit (reads.flatten.drop n)
  have hread := comes_readWhile reads filename n Char.isDigit
  have htail := drop_takeWhile reads.flatten n Char.isDigit
  rw [htake] at hread htail
  rw [hdrop] at htail
  unfold Scan.ofNumber
  rw [htake, hdrop]
  have hnext : reads.flatten[n + whole.length]? = tail[0]? := getElem?_of_drop htail 0
  split
  next after => exact lexes_decimal hread htext hdigits
  next hpoint =>
    apply lexes_integer hread
    rw [hnext]
    intro hhead
    cases tail with
    | nil => cases hhead
    | cons c after =>
      obtain rfl : c = '.' := by simpa using hhead
      exact hpoint after rfl

theorem lexes_string {mark : QuoteMark} {rest : List Char}
    (htext : reads.flatten.drop n = mark.char :: rest) :
    Lexes reads filename n (string mark) (Scan.ofString mark rest) := by
  have hrest : reads.flatten.drop (n + 1) = rest := by
    rw [← List.drop_drop, htext, List.drop_succ_cons, List.drop_zero]
  have hmark : reads.flatten[n]? = some mark.char := getElem?_of_drop htext 0
  have hbody := comes_readWhile reads filename (n + 1) (· != mark.char)
  have htail := drop_takeWhile reads.flatten (n + 1) (· != mark.char)
  rw [hrest] at hbody htail
  have hlength : mark.char.toString.length = 1 := by cases mark <;> rfl
  unfold Scan.ofString
  generalize rest.takeWhile (· != mark.char) = body at hbody htail
  cases hdrop : rest.dropWhile (· != mark.char) with
  | nil =>
    rw [hdrop] at htail
    have hend : reads.flatten[n + 1 + body.length]? = none := getElem?_of_drop htail 0
    apply lexes_fault
    have hpassed : n + Fault.passed (.unterminatedString
        (mark.char.toString ++ String.ofList body)) = n + 1 + body.length := by
      simp only [Fault.passed, String.length_append, String.length_ofList]
      omega
    rw [hpassed]
    apply comes_place.bind
    apply comes_lineText.bind
    apply (comes_advance hmark).bind
    apply hbody.bind
    apply comes_peek_zero.bind
    rw [hend, if_neg (by simp)]
    exact comes_throw _
  | cons c after =>
    rw [hdrop] at htail
    have hclose : reads.flatten[n + 1 + body.length]? = some c := getElem?_of_drop htail 0
    apply lexes_token
    have hpassed : n + (Shape.string mark (String.ofList body)).lexeme.length =
        n + 1 + body.length + 1 := by
      simp only [Shape.lexeme, String.length_append, String.length_ofList]
      omega
    rw [hpassed]
    apply comes_place.bind
    apply comes_lineText.bind
    apply (comes_advance hmark).bind
    apply hbody.bind
    apply comes_peek_zero.bind
    rw [hclose, Option.isSome_some, if_pos rfl]
    apply (comes_advance hclose).bind
    exact comes_pure _

theorem lexes_other {c : Char} {rest : List Char} (htext : reads.flatten.drop n = c :: rest) :
    Lexes reads filename n (other c) (Scan.ofOther c rest) := by
  have hrest : reads.flatten.drop (n + 1) = rest := by
    rw [← List.drop_drop, htext, List.drop_succ_cons, List.drop_zero]
  have hc : reads.flatten[n]? = some c := getElem?_of_drop htext 0
  have hfollowing : Comes reads filename n (behindPoint c)
      (.ok (if c = '.' then rest[0]? else none)) n := by
    unfold behindPoint
    split
    next =>
      rw [← getElem?_of_drop hrest 0]
      exact comes_peek 1
    next => exact comes_pure _
  have hpoint : (c = '.' && !(rest.takeWhile Char.isDigit).isEmpty) =
      (if c = '.' then rest[0]? else none).any Char.isDigit := by
    rw [isEmpty_takeWhile]
    split
    next h => simp [h]
    next h => simp [h]
  unfold Scan.ofOther
  dsimp only
  rw [hpoint]
  cases hdigit : (if c = '.' then rest[0]? else none).any Char.isDigit with
  | true =>
    have hfraction := comes_readWhile reads filename (n + 1) Char.isDigit
    rw [hrest] at hfraction
    apply lexes_token
    have hpassed : n + (Shape.decimal "" (String.ofList (rest.takeWhile Char.isDigit))).lexeme.length
        = n + 1 + (rest.takeWhile Char.isDigit).length := by
      have hmark : ("" ++ ".").length = 1 := rfl
      rw [Shape.lexeme, String.length_append, String.length_ofList, hmark]
      omega
    rw [hpassed]
    apply comes_place.bind
    apply hfollowing.bind
    rw [if_pos hdigit]
    apply (comes_advance hc).bind
    apply hfraction.bind
    exact comes_pure _
  | false =>
    cases hquote : QuoteMark.ofChar? c with
    | some mark =>
      obtain rfl : mark.char = c := by simpa using List.find?_some hquote
      apply comes_place.bind
      apply hfollowing.bind
      rw [if_neg (by simp [hdigit])]
      simp only [hquote]
      exact lexes_string htext
    | none =>
      apply lexes_fault
      apply comes_place.bind
      apply hfollowing.bind
      rw [if_neg (by simp [hdigit])]
      simp only [hquote]
      apply comes_lineText.bind
      exact comes_throw _

/-! ### One call -/

theorem lexes_lexeme : Lexes reads filename n lexeme (Scan.ofText (reads.flatten.drop n)) := by
  apply Lexes.of_consumed
  intro hn
  cases hc : reads.flatten[n]? with
  | none =>
    have hend := List.getElem?_eq_none_iff.mp hc
    rw [List.drop_eq_nil_of_le hend]
    apply lexes_token
    apply comes_peek_zero.bind
    rw [hc]
    apply comes_place.bind
    exact comes_pure _
  | some c =>
    have htext := drop_eq_cons hc
    rw [htext]
    unfold Lexes Scan.ofText
    apply comes_peek_zero.bind
    rw [hc]
    dsimp only
    cases hmark : Punctuation.ofChar? c with
    | some p =>
      have hlength : (Shape.punctuation p).lexeme.length = 1 := by cases p <;> rfl
      apply lexes_token
      rw [hlength]
      apply comes_place.bind
      apply (comes_advance hc).bind
      exact comes_pure _
    | none =>
      dsimp only
      rw [← htext]
      split
      next => exact lexes_word
      next =>
        split
        next => exact lexes_operator
        next =>
          split
          next => exact lexes_number
          next => exact lexes_other htext

/-- **The lexer comes to what the scanner finds in the whole text**, and stops where the scanner
    stops. -/
theorem comes_next (reads : List (List Char)) (filename : Option String) (n : Nat) : ∃ stop,
    Comes reads filename n next (Scanner.call (.behind reads.flatten filename n)).outcome stop ∧
      (Scanner.call (.behind reads.flatten filename n)).after =
        .behind reads.flatten filename stop := by
  have hblank := comes_readWhile reads filename n Text.isBlank
  rw [Scanner.call_eq, Scanner.skipBlanks_behind, Cursor.rest_behind]
  generalize n + ((reads.flatten.drop n).takeWhile Text.isBlank).length = start at hblank
  refine ⟨_, hblank.bind lexes_lexeme, ?_⟩
  cases Scan.ofText (reads.flatten.drop start) <;> exact Cursor.forward_behind _

end Lexer

end Juxta
