/-
  Juxta/Proofs/Grammar/Demand.lean
  ================================
  **Scanning on demand is scanning first** — a text is scanned only as far as the grammar looks,
  one token in advance.  Nevertheless it is read as if all of its tokens were there from the
  start, and of two errors the leftmost is reported (`Program.parseTo_eq_of_scans`):

    * a text that can be scanned has the tree of its tokens, or fails as they do, with the line
      of the text in which the refused token stands;
    * a text with a fault is never read.  It fails as the tokens in front of the fault do, if one
      of these is refused, and at the fault otherwise.

  What is said about tokens in front of a fault does not depend on how they might have gone on
  (`Grammar.RefusesWithin.append`).
-/
import Juxta.Proofs.Grammar.Excerpt
import Juxta.Proofs.Grammar.Fault

namespace Juxta

open TokenList

/-! ### Tokens read as a program -/

/-- A list in step with itself. -/
def TokenList.pairing : Pairing (List Token) where
  Holds s ts := s = ts
  Excuses _ _ := False
  excuses_suffix := fun h _ => h
  pending_le := by
    rintro s _ rfl
    exact List.countP_le_length
  peek := by
    rintro s _ rfl
    exact Or.inr ⟨s, rfl, rfl, rfl⟩
  next := by
    rintro s _ rfl
    exact Or.inr ⟨_, next_eq s, rfl⟩

namespace Grammar

variable {depth : Nat} {ts : List Token}

/-- The tree of a list of tokens, or the error in it. -/
def parseTokens (depth : Nat) (ts : List Token) : Except ParseError Expr :=
  match program depth ts with
  | .ok e _ => .ok e
  | .error e _ => .error e

/-- The tokens are refused, at one of them. -/
def RefusesWithin (depth : Nat) (ts : List Token) (e : SyntaxError) : Prop :=
  ∃ before after, ts = before ++ e.found :: after ∧
    program depth ts = .error (.syntactic e) (e.found :: after)

theorem RefusesWithin.unique {e e' : SyntaxError} (h : RefusesWithin depth ts e)
    (h' : RefusesWithin depth ts e') : e = e' := by
  obtain ⟨_, _, -, h⟩ := h
  obtain ⟨_, _, -, h'⟩ := h'
  rw [h] at h'
  cases h'
  rfl

/-- A list of tokens has no lines to show. -/
theorem sourceLine_eq_none {e : SyntaxError} {rest : List Token}
    (h : program depth ts = .error (.syntactic e) rest) : e.sourceLine = none := by
  have hagree := (agrees_program (P := TokenList.pairing) depth).agree (s := ts) rfl
  rw [h] at hagree
  cases hagree with
  | refused _ _ _ hline => exact hline
  | excused he => exact he.elim

/-- The token that comes next is the one that is refused. -/
theorem refusesWithin_of_cons {e : SyntaxError} {t : Token} {rest : List Token}
    (h : program depth ts = .error (.syntactic e) (t :: rest)) : RefusesWithin depth ts e := by
  obtain ⟨before, hts, -⟩ := (agrees_program (P := TokenList.pairing) depth).forward ts
  have hagree := (agrees_program (P := TokenList.pairing) depth).agree (s := ts) rfl
  rw [h] at hts hagree
  cases hagree with
  | refused hfound =>
    obtain rfl : _ = t := hfound
    exact ⟨before, rest, hts, h⟩
  | excused he => exact he.elim

/-- The refusal of a token is a matter of the tokens up to it. -/
theorem parseTokens_of_refused {e : SyntaxError} {before after : List Token} {t : Token}
    (h : program depth (before ++ t :: after) = .error (.syntactic e) (t :: after))
    (us : List Token) : parseTokens depth (before ++ t :: us) = .error (.syntactic e) := by
  have hline := sourceLine_eq_none h
  obtain ⟨rfl, l, s, hcut⟩ := cut_refuses h (Nat.le_max_left after.length us.length)
  have hholds : (CutSupply.pairing us False).Holds
      ⟨before ++ [e.found], max after.length us.length⟩ (before ++ e.found :: us) :=
    ⟨by simp, Nat.le_max_right _ _⟩
  have hagree := (agrees_program depth).agree hholds
  rw [hcut] at hagree
  -- What is refused is no fault, so nothing excuses the list from being refused too.
  have hexcuse (e' : SyntaxError) (ts : List Token) :
      ¬ (CutSupply.pairing us False).Excuses (.syntactic e') ts := by
    rintro (⟨f, hf, -⟩ | ⟨hfalse, -⟩)
    · cases hf
    · exact hfalse
  unfold parseTokens
  cases hlist : program depth (before ++ e.found :: us) with
  | ok a rest =>
    rw [hlist] at hagree
    cases hagree with
    | excused he => exact absurd he (hexcuse _ _)
  | error e' rest =>
    rw [hlist] at hagree
    cases hagree with
    | refused _ _ _ _ =>
      obtain ⟨problem, found, line⟩ := e
      obtain rfl : line = none := hline
      obtain rfl := sourceLine_eq_none hlist
      rfl
    | excused he => exact absurd he (hexcuse _ _)

theorem RefusesWithin.sourceLine_eq_none {e : SyntaxError} (h : RefusesWithin depth ts e) :
    e.sourceLine = none := by
  obtain ⟨_, _, -, h⟩ := h
  exact Grammar.sourceLine_eq_none h

/-- Tokens up to the end of input are refused at one of them, if they are refused. -/
theorem IsEnded.parseTokens_eq_error {e : SyntaxError} (hts : IsEnded ts) :
    parseTokens depth ts = .error (.syntactic e) ↔ RefusesWithin depth ts e := by
  constructor
  · intro h
    unfold parseTokens at h
    cases hlist : program depth ts with
    | ok a rest =>
      rw [hlist] at h
      cases h
    | error error rest =>
      rw [hlist] at h
      cases h
      obtain ⟨t, after, rfl⟩ := exists_cons_of_refused hts hlist
      exact refusesWithin_of_cons hlist
  · rintro ⟨before, after, -, h⟩
    rw [parseTokens, h]

theorem RefusesWithin.append {e : SyntaxError} (h : RefusesWithin depth ts e) (us : List Token) :
    parseTokens depth (ts ++ us) = .error (.syntactic e) := by
  obtain ⟨before, after, rfl, h⟩ := h
  rw [List.append_assoc, List.cons_append]
  exact parseTokens_of_refused h (after ++ us)

end Grammar

/-! ### The line of an error -/

/-- A string that goes on over the end of a line. -/
def Shape.isBroken : Shape → Bool
  | .string _ body => body.toList.contains '\n'
  | _ => false

theorem Shape.isBroken_iff {s : Shape} :
    s.isBroken = true ↔ ∃ mark body, s = .string mark body ∧ '\n' ∈ body.toList := by
  cases s <;> simp [isBroken]

/-- The error with the line of the text in which the refused token stands.  A string over several
    lines leaves none to show. -/
def SyntaxError.shownIn (text : String) (e : SyntaxError) : SyntaxError :=
  { e with
    sourceLine :=
      if e.found.shape.isBroken then none
      else some (String.ofList (Text.currentLine text.toList e.found.location.offset.toNat)) }

/-- The error with the line of the text, if it is about a token. -/
def ParseError.shownIn (text : String) : ParseError → ParseError
  | .scan e => .scan e
  | .syntactic e => .syntactic (e.shownIn text)

namespace Program

variable {depth : Nat} {text : String} {filename : Option String} {ts : List Token}
  {f : Option ScanError}

/-- What is reported about a token of a text is shown with its line. -/
theorem shownIn_of_parseTo {e : SyntaxError}
    (h : parseTo depth text filename = .error (.syntactic e)) : e.shownIn text = e := by
  obtain ⟨n, -, length, hlocation, hnone, hline⟩ := exists_place h rfl
  have hoffset : e.found.location.offset.toNat = n := by
    rw [show e.found.location = _ from Option.some.inj hlocation]
    exact Int.toNat_natCast n
  have hbroken : e.sourceLine = none ↔ e.found.shape.isBroken = true := by
    rw [Shape.isBroken_iff, show e.sourceLine = none ↔ _ from hnone]
    constructor
    · rintro ⟨_, mark, body, ⟨⟩, hstring⟩
      exact ⟨mark, body, hstring⟩
    · rintro ⟨mark, body, hstring⟩
      exact ⟨e, mark, body, rfl, hstring⟩
  rw [SyntaxError.shownIn, hoffset]
  obtain ⟨problem, found, line⟩ := e
  cases line with
  | none => rw [if_pos (hbroken.mp rfl)]
  | some line =>
    have hnot : ¬ found.shape.isBroken = true := fun hb => by cases hbroken.mpr hb
    rw [if_neg hnot, hline line rfl]

/-- A text with a fault fails as the tokens in front of it do, or at the fault. -/
theorem parseTo_of_fault_scans (depth : Nat) {fault : ScanError}
    (h : (Cursor.start text.toList filename).Scans ts (some fault)) :
    (∃ e, Grammar.RefusesWithin depth ts e ∧
        parseTo depth text filename = .error (.syntactic (e.shownIn text))) ∨
      (∀ e, ¬ Grammar.RefusesWithin depth ts e) ∧
        parseTo depth text filename = .error (.scan fault) := by
  have hsource : (TokenSource.ofText text filename).Holds ts (some fault) := .waiting h
  have hagree :=
    (Grammar.agrees_program (P := TokenSource.pairing (some fault)) depth).agree hsource
  cases hs : Grammar.program depth (TokenSource.ofText text filename) with
  | ok e s =>
    have hok : parseTo depth text filename = .ok e := by rw [parseTo, hs]
    cases eq_none_of_parseTo h hok
  | error error s =>
    have herror : parseTo depth text filename = .error error := parseTo_eq_error.mpr ⟨s, hs⟩
    rw [hs] at hagree
    generalize hlist : Grammar.program depth ts = list at hagree
    cases hagree with
    | refused _ hpeek hholds =>
      obtain ⟨t, after, rfl⟩ := hholds.exists_cons_of_peek hpeek
      refine Or.inl ⟨_, Grammar.refusesWithin_of_cons hlist, ?_⟩
      rw [herror]
      exact congrArg (Except.error ∘ ParseError.syntactic) (shownIn_of_parseTo herror).symm
    | excused he =>
      obtain ⟨_, ⟨⟩, rfl, hnil⟩ := he
      refine Or.inr ⟨?_, herror⟩
      rintro e ⟨before, after, -, hrefused⟩
      rw [← hlist, hrefused] at hnil
      cases hnil

/-- A text without a fault is read as its tokens are. -/
theorem parseTo_of_all_scans (h : (Cursor.start text.toList filename).Scans ts none) :
    parseTo depth text filename =
      (Grammar.parseTokens depth ts).mapError (ParseError.shownIn text) := by
  have hsource : (TokenSource.ofText text filename).Holds ts none := .waiting h
  have hagree := (Grammar.agrees_program (P := TokenSource.pairing none) depth).agree hsource
  unfold Grammar.parseTokens
  generalize Grammar.program depth ts = list at hagree
  cases hs : Grammar.program depth (TokenSource.ofText text filename) with
  | ok e s =>
    rw [hs] at hagree
    cases hagree
    rw [parseTo, hs]
    rfl
  | error error s =>
    have herror : parseTo depth text filename = .error error := parseTo_eq_error.mpr ⟨s, hs⟩
    rw [hs] at hagree
    cases hagree with
    | refused =>
      rw [herror]
      exact congrArg (Except.error ∘ ParseError.syntactic) (shownIn_of_parseTo herror).symm
    | excused he =>
      obtain ⟨_, ⟨⟩, -⟩ := he

/-- A text is refused at a token as its tokens are. -/
theorem parseTo_eq_syntactic_iff (h : (Cursor.start text.toList filename).Scans ts f)
    {e : SyntaxError} : parseTo depth text filename = .error (.syntactic e) ↔
      ∃ e', Grammar.RefusesWithin depth ts e' ∧ e = e'.shownIn text := by
  cases f with
  | none =>
    have hended : Grammar.IsEnded ts := Scanner.exists_last h
    rw [parseTo_of_all_scans h]
    constructor
    · intro herror
      cases htokens : Grammar.parseTokens depth ts with
      | ok a =>
        rw [htokens] at herror
        cases herror
      | error error =>
        rw [htokens] at herror
        cases error with
        | scan e' => cases herror
        | syntactic e' =>
          cases herror
          exact ⟨e', hended.parseTokens_eq_error.mp htokens, rfl⟩
    · rintro ⟨e', he', rfl⟩
      rw [hended.parseTokens_eq_error.mpr he']
      rfl
  | some fault =>
    rcases parseTo_of_fault_scans depth h with ⟨e', he', herror⟩ | ⟨hnone, herror⟩
    · rw [herror]
      constructor
      · rintro ⟨⟩
        exact ⟨e', he', rfl⟩
      · rintro ⟨e'', he'', rfl⟩
        rw [he'.unique he'']
    · rw [herror]
      refine iff_of_false (fun herror => by cases herror) ?_
      rintro ⟨e', he', -⟩
      exact hnone e' he'

/-- **A text is read as if it had been scanned first, and the leftmost error is reported.** -/
theorem parseTo_eq_of_scans (h : (Cursor.start text.toList filename).Scans ts f) :
    (f = none → parseTo depth text filename =
      (Grammar.parseTokens depth ts).mapError (ParseError.shownIn text)) ∧
    (∀ fault, f = some fault →
      (∀ e, parseTo depth text filename = .error (.syntactic e) ↔
        ∃ e', Grammar.RefusesWithin depth ts e' ∧ e = e'.shownIn text) ∧
      (parseTo depth text filename = .error (.scan fault) ↔
        ∀ e, ¬ Grammar.RefusesWithin depth ts e) ∧
      ∀ e, parseTo depth text filename ≠ .ok e) ∧
    (∀ e, Grammar.RefusesWithin depth ts e →
      ∀ us, Grammar.parseTokens depth (ts ++ us) = .error (.syntactic e)) ∧
    ∀ e, parseTo depth text filename = .ok e →
      ∃ k, Scanner.all (.start text.toList filename) = .ok ts k := by
  refine ⟨?_, ?_, fun e he us => he.append us, ?_⟩
  · rintro rfl
    exact parseTo_of_all_scans h
  · rintro fault rfl
    rcases parseTo_of_fault_scans depth h with ⟨e', he', herror⟩ | ⟨hnone, herror⟩
    · rw [herror]
      refine ⟨fun e => ?_, ?_, fun e hok => by cases hok⟩
      · constructor
        · rintro ⟨⟩
          exact ⟨e', he', rfl⟩
        · rintro ⟨e'', he'', rfl⟩
          rw [he'.unique he'']
      · exact iff_of_false (fun hscan => by cases hscan) fun hnone => hnone e' he'
    · rw [herror]
      refine ⟨fun e => iff_of_false (fun herror => by cases herror) ?_, iff_of_true rfl hnone,
        fun e hok => by cases hok⟩
      rintro ⟨e', he', -⟩
      exact hnone e' he'
  · intro e hok
    obtain rfl := eq_none_of_parseTo h hok
    exact Scanner.all_of_scans h

/-- A bracket that closes nothing in front of a string that is not closed, and such a string by
    itself: one text fails at the bracket, the other at its fault. -/
theorem parseTo_eq_of_scans_unterminated :
    (∃ ts fault, (Cursor.start "f ) \"x".toList none).Scans ts (some fault) ∧
      ∃ e, Grammar.RefusesWithin 9 ts e ∧ e.problem = .trailing ∧
        parseTo 9 "f ) \"x" none = .error (.syntactic (e.shownIn "f ) \"x"))) ∧
    ∃ ts fault, (Cursor.start "f \"x".toList none).Scans ts (some fault) ∧
      parseTo 9 "f \"x" none = .error (.scan fault) := by
  constructor
  · have h : (Cursor.start "f ) \"x".toList none).Scans
        [⟨.symbol "f", ⟨1, 1, 0, 1, none⟩⟩, ⟨.punctuation .closeParen, ⟨1, 3, 2, 1, none⟩⟩]
        (some _) := .more rfl rfl (.more rfl rfl (.fault rfl))
    have hrefused : Grammar.RefusesWithin 9
        [⟨.symbol "f", ⟨1, 1, 0, 1, none⟩⟩, ⟨.punctuation .closeParen, ⟨1, 3, 2, 1, none⟩⟩]
        ⟨.trailing, ⟨.punctuation .closeParen, ⟨1, 3, 2, 1, none⟩⟩, none⟩ :=
      Grammar.refusesWithin_of_cons rfl
    exact ⟨_, _, h, _, hrefused, rfl,
      (((parseTo_eq_of_scans h).2.1 _ rfl).1 _).mpr ⟨_, hrefused, rfl⟩⟩
  · have h : (Cursor.start "f \"x".toList none).Scans
        [⟨.symbol "f", ⟨1, 1, 0, 1, none⟩⟩] (some _) := .more rfl rfl (.fault rfl)
    have hread : Grammar.parseTokens 9 [⟨.symbol "f", ⟨1, 1, 0, 1, none⟩⟩] =
        .ok (.symbol "f" (some ⟨1, 1, 0, 1, none⟩)) := rfl
    refine ⟨_, _, h, ((parseTo_eq_of_scans h).2.1 _ rfl).2.1.mpr fun e he => ?_⟩
    have herror := he.append []
    rw [List.append_nil, hread] at herror
    cases herror

end Program

end Juxta
