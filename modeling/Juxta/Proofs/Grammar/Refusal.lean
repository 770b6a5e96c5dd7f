/-
  Juxta/Proofs/Grammar/Refusal.lean
  =================================
  **Refusals point at the first impossible token** — of the token that the reader refuses
  (`program_refuses_first_impossible`):

    * no program begins with the tokens up to it;
    * with each of the kinds that are named as expected, some program begins with the tokens
      before it and a token of that kind;
    * it has not been taken, and nothing behind it has been scanned.

  The second is `program_refuses`.  The first two of the others are a matter of what the reader
  can have seen: up to the refusal it reads from a supply that fails behind the refused token
  as it reads from the list (`CutSupply.pairing`), and so it does from any list that begins in
  the same way, to any greater depth.
-/
import Juxta.Proofs.Grammar.Completeness
import Juxta.Proofs.Grammar.Completion
import Juxta.Proofs.Grammar.Text
import Juxta.Proofs.Token.Factorisation

namespace Juxta

open TokenList

/-! ### Expected kinds by their names -/

namespace Kind

def all : List Kind :=
  [.endOfInput, .integer, .decimal, .string, .symbol] ++
    [Keyword.binding, .recursiveBinding, .function].map .keyword ++
    [Punctuation.openParen, .closeParen, .openBrace, .closeBrace, .backtick, .semicolon, .comma,
      .bang].map .punctuation

theorem mem_all (k : Kind) : k ∈ all := by
  cases k with
  | keyword k => cases k <;> decide
  | punctuation p => cases p <;> decide
  | _ => decide

/-- No two kinds have the same name in messages. -/
theorem describe_injective : Function.Injective describe := by
  have hall : ∀ k ∈ all, ∀ k' ∈ all, k.describe = k'.describe → k = k' := by decide +kernel
  intro k k' h
  exact hall k k.mem_all k' k'.mem_all h

end Kind

namespace Problem

theorem mem_insertName {name other : String} {names : List String} :
    name ∈ insertName other names ↔ name = other ∨ name ∈ names := by
  induction names with
  | nil => simp [insertName]
  | cons first names ih =>
    rw [insertName]
    split
    · rw [List.mem_cons]
    · rw [List.mem_cons, ih, List.mem_cons, or_left_comm]

theorem mem_foldr_insertName {name : String} {names : List String} :
    name ∈ names.foldr insertName [] ↔ name ∈ names := by
  induction names with
  | nil => rfl
  | cons first names ih => rw [List.foldr_cons, mem_insertName, ih, List.mem_cons]

/-- The names of the expected kinds are in another order, but they are the same. -/
theorem mem_expectedNames {p : Problem} {k : Kind} :
    k.describe ∈ p.expectedNames ↔ k ∈ p.expected := by
  have hmap : k.describe ∈ p.expected.map Kind.describe ↔ k ∈ p.expected := by
    constructor
    · intro h
      obtain ⟨k', hk', heq⟩ := List.mem_map.mp h
      rwa [← Kind.describe_injective heq]
    · exact List.mem_map_of_mem
  rw [← hmap]
  unfold expectedNames
  split
  · rfl
  · exact mem_foldr_insertName

end Problem

/-! ### Supplies that fail behind some tokens -/

/-- Tokens behind which the scan fails.  A list that goes on there has `further` more of them at
    most, and the bound counts these as well. -/
structure CutSupply where
  tokens : List Token
  further : Nat

namespace CutSupply

/-- The failure behind the tokens. -/
def fault : ScanError := .tooManyDigits ⟨0⟩

instance : TokenSupply CutSupply where
  peek := fun s =>
    match s.tokens with
    | [] => .error fault s
    | t :: _ => .ok t s
  next := fun s =>
    match s.tokens with
    | [] => .error fault s
    | t :: ts => .ok t { s with tokens := tail (t :: ts) }
  lineText? := fun _ _ => none
  bound := fun s => s.tokens.length + s.further

/-- Cut supplies and the lists that go on with `after`.  It is excused that the supply fails
    when `after` has been reached and, if `shallow` holds, that it is not read so deeply. -/
def pairing (after : List Token) (shallow : Prop) : Pairing CutSupply where
  Holds s ts := ts = s.tokens ++ after ∧ after.length ≤ s.further
  Excuses e ts := (∃ f, e = .scan f ∧ ts <:+ after) ∨
    shallow ∧ ∃ t l, e = .syntactic ⟨.nesting, t, l⟩
  excuses_suffix := by
    rintro e ts us (⟨f, rfl, hts⟩ | hnesting) hus
    · exact Or.inl ⟨f, rfl, hus.trans hts⟩
    · exact Or.inr hnesting
  pending_le := by
    rintro s ts ⟨rfl, hlen⟩
    have hcount : pending (s.tokens ++ after) ≤ (s.tokens ++ after).length :=
      List.countP_le_length
    rw [List.length_append] at hcount
    exact Nat.le_trans hcount (Nat.add_le_add_left hlen _)
  peek := by
    rintro ⟨tokens, further⟩ ts ⟨rfl, hlen⟩
    cases tokens with
    | nil => exact Or.inl ⟨fault, _, rfl, Or.inl ⟨_, rfl, List.suffix_rfl⟩⟩
    | cons t tokens => exact Or.inr ⟨_, rfl, rfl, rfl, hlen⟩
  next := by
    rintro ⟨tokens, further⟩ ts ⟨rfl, hlen⟩
    cases tokens with
    | nil => exact Or.inl ⟨fault, _, rfl, Or.inl ⟨_, rfl, List.suffix_rfl⟩⟩
    | cons t tokens =>
      refine Or.inr ⟨_, rfl, ?_, hlen⟩
      simp only [List.cons_append, tail]
      cases t.isEnd <;> rfl

end CutSupply

namespace Grammar

/-! ### Accepted sequences -/

/-- The tokens are read as a program, to some depth. -/
def IsAccepted (ts : List Token) : Prop := ∃ depth e rest, program depth ts = .ok e rest

/-- The end of input is the last of the tokens and only the last. -/
def IsEnded (ts : List Token) : Prop :=
  ∃ us last, ts = us ++ [last] ∧ last.isEnd = true ∧ ∀ t ∈ us, t.isEnd = false

variable {depth : Nat} {ts rest before after : List Token} {p : Problem} {found : Token}
  {line : Option String}

/-- What is accepted to some depth is accepted to an even greater one. -/
theorem IsAccepted.exists_le (h : IsAccepted ts) (depth : Nat) :
    ∃ depth' e rest, depth ≤ depth' ∧ program depth' ts = .ok e rest := by
  obtain ⟨d, e, rest, hd⟩ := h
  obtain ⟨used, rfl, hused, hrest⟩ := program_takes hd
  have hfollows := hused.generates.follows
  obtain ⟨e', he'⟩ := readsUpTo_expression (max depth used.length) hfollows
    (Nat.le_max_right _ _) (stops_of_end hrest)
  refine ⟨_, e', rest, Nat.le_max_left _ _, program_eq_ok ?_ he' hrest⟩
  rw [kind_append (hfollows.ne_nil rfl)]
  exact hfollows.startsExpression

/-- What the grammar generates is accepted, and the end of input takes no part in it. -/
theorem IsProgram.accepted (h : IsProgram ts) : IsEnded ts ∧ IsAccepted ts := by
  obtain ⟨us, last, rfl, hlast, hus⟩ := h
  have hend : kind [last] = .endOfInput := by simpa [Token.isEnd] using hlast
  have hfollows := hus.follows
  obtain ⟨e, he⟩ := readsUpTo_expression us.length hfollows (Nat.le_refl _) (stops_of_end hend)
  obtain ⟨used, hused, hbuilds⟩ := expression_takes us.length he
  obtain rfl : us = used := List.append_cancel_right hused
  refine ⟨⟨us, last, rfl, hlast, hbuilds.isEnd⟩, us.length, e, [last], program_eq_ok ?_ he hend⟩
  rw [kind_append (hfollows.ne_nil rfl)]
  exact hfollows.startsExpression

/-! ### What the reader has seen -/

/-- A reader that refuses has not taken the end of input. -/
theorem exists_cons_of_refused (hts : IsEnded ts)
    (h : program depth ts = .error (.syntactic ⟨p, found, line⟩) rest) :
    ∃ t after, rest = t :: after := by
  obtain ⟨us, last, rfl, hlast, -⟩ := hts
  obtain ⟨used, hused, hend⟩ :=
    (agrees_program (P := CutSupply.pairing [] False) depth).forward (us ++ [last])
  rw [h, remaining] at hused
  cases rest with
  | cons t after => exact ⟨t, after, rfl⟩
  | nil =>
    rw [List.append_nil] at hused
    have hmem : last.isEnd = false := hend last (by rw [← hused]; simp)
    rw [hlast] at hmem
    cases hmem

/-- The reader refuses the next token, and it does so without seeing what comes behind. -/
theorem cut_refuses {t : Token}
    (h : program depth (before ++ t :: after) =
      .error (.syntactic ⟨p, found, line⟩) (t :: after))
    {further : Nat} (hlen : after.length ≤ further) :
    found = t ∧ ∃ l s, program depth (⟨before ++ [t], further⟩ : CutSupply) =
      .error (.syntactic ⟨p, t, l⟩) s := by
  have hholds : (CutSupply.pairing after False).Holds ⟨before ++ [t], further⟩
      (before ++ t :: after) := ⟨by simp, hlen⟩
  have hagree := (agrees_program depth).agree hholds
  rw [h] at hagree
  cases hcut : program depth (⟨before ++ [t], further⟩ : CutSupply) with
  | ok e s =>
    rw [hcut] at hagree
    cases hagree
  | error e s =>
    rw [hcut] at hagree
    cases hagree with
    | refused hhead => exact ⟨hhead, _, s, by rw [hhead]; rfl⟩
    | excused he =>
      -- The refused token is still there, so that the supply has not been read to its end.
      rcases he with ⟨f, -, hsuffix⟩ | ⟨hfalse, -⟩
      · have hle := hsuffix.length_le
        simp only [remaining, List.length_cons] at hle
        omega
      · exact absurd hfalse not_false

/-- **Nothing that begins with the tokens up to the refused one is accepted.** -/
theorem not_isAccepted_of_refused {t : Token}
    (h : program depth (before ++ t :: after) =
      .error (.syntactic ⟨p, found, line⟩) (t :: after))
    (hp : p ≠ .nesting) (us : List Token) : ¬ IsAccepted (before ++ t :: us) := by
  intro haccepted
  obtain ⟨depth', e, rest, hle, hok⟩ := haccepted.exists_le depth
  obtain ⟨-, l, s, hcut⟩ := cut_refuses h (Nat.le_max_left after.length us.length)
  have hholds : (CutSupply.pairing us True).Holds
      ⟨before ++ [t], max after.length us.length⟩ (before ++ t :: us) :=
    ⟨by simp, Nat.le_max_right _ _⟩
  have hnesting : ∀ t l ts, (CutSupply.pairing us True).Excuses
      (.syntactic ⟨.nesting, t, l⟩) ts := fun t l _ => Or.inr ⟨trivial, t, l, rfl⟩
  have hagree := (agrees_programOver (agrees_expression_of_le hnesting hle)).agree hholds
  rw [hcut, hok] at hagree
  cases hagree with
  | excused he =>
    rcases he with ⟨f, hf, -⟩ | ⟨-, u, m, hu⟩
    · cases hf
    · cases hu
      exact hp rfl

/-- A source keeps the refused token at hand and stands behind it. -/
theorem source_refuses {t : Token} {s : TokenSource}
    (h : program depth ts = .error (.syntactic ⟨p, found, line⟩) (t :: after))
    (hs : s.Holds ts none) :
    ∃ s' l, program depth s = .error (.syntactic ⟨p, found, l⟩) s' ∧
      TokenSource.peek s' = .ok found s' ∧ s'.Holds (t :: after) none := by
  have hagree := (agrees_program (P := TokenSource.pairing none) depth).agree hs
  rw [h] at hagree
  cases hsource : program depth s with
  | ok e s' =>
    rw [hsource] at hagree
    cases hagree
  | error e s' =>
    rw [hsource] at hagree
    cases hagree with
    | refused _ hpeek hholds => exact ⟨s', _, rfl, hpeek, hholds⟩
    | excused he =>
      obtain ⟨fault, hfault, -⟩ := he
      cases hfault

/-- **A refused token is the first impossible one.**  It has not been taken, and what comes
    behind it has not been scanned; no program begins with the tokens up to it; and each kind
    that is named as expected has a program that begins with the tokens before it and a token
    of that kind. -/
theorem program_refuses_first_impossible (hts : IsEnded ts)
    (h : program depth ts = .error (.syntactic ⟨p, found, line⟩) rest) (hp : p ≠ .nesting) :
    ∃ before after, ts = before ++ found :: after ∧ rest = found :: after ∧
      (∀ us, ¬ IsAccepted (before ++ found :: us)) ∧
      (∀ k : Kind, k.describe ∈ p.expectedNames → ∃ t us, t.kind = k ∧
        IsEnded (before ++ t :: us) ∧ IsAccepted (before ++ t :: us)) ∧
      ∀ (text : String) filename k, Scanner.all (.start text.toList filename) = .ok ts k →
        ∃ s l, program depth (TokenSource.ofText text filename) =
            .error (.syntactic ⟨p, found, l⟩) s ∧
          TokenSource.peek s = .ok found s ∧ s.lookahead = some found ∧
          (after ≠ [] → ∃ k', Scanner.all s.cursor = .ok after k') := by
  obtain ⟨before, rfl, hbefore⟩ := program_refuses h hp
  obtain ⟨t, after, rfl⟩ := exists_cons_of_refused hts h
  obtain ⟨rfl, -⟩ := cut_refuses h (Nat.le_refl _)
  refine ⟨before, after, rfl, rfl, not_isAccepted_of_refused h hp, ?_, ?_⟩
  · intro k hk
    obtain ⟨t, us, ht, hus⟩ := hbefore k (Problem.mem_expectedNames.mp hk)
    exact ⟨t, us, ht, hus.accepted⟩
  · intro text filename k hall
    obtain ⟨us, f, hscans⟩ := Cursor.exists_scans (.start text.toList filename)
    obtain ⟨k', hall'⟩ := Scanner.all_of_scans hscans
    rw [hall] at hall'
    cases f with
    | some e => cases hall'
    | none =>
      cases hall'
      have hsource : (TokenSource.ofText text filename).Holds _ none := .waiting hscans
      obtain ⟨s, l, hs, hpeek, hholds⟩ := source_refuses h hsource
      have hahead := TokenSource.lookahead_of_peek hpeek
      refine ⟨s, l, hs, hpeek, hahead, fun hafter => ?_⟩
      cases hholds with
      | waiting => cases hahead
      | looked _ hk => exact Scanner.all_of_scans hk
      | ended => exact absurd rfl hafter

/-- A comma where a function with a name may have parameters or begin its body. -/
theorem program_refuses_first_impossible_comma :
    ∃ (before after : List Token) (found : Token),
      before.map Token.shape =
        [.symbol "g", .punctuation .openParen, .keyword .function, .symbol "x"] ∧
      found.kind = .punctuation .comma ∧ IsEnded (before ++ found :: after) ∧
      program 3 (before ++ found :: after) =
        .error (.syntactic ⟨.functionBody, found, none⟩) (found :: after) ∧
      (∀ us, ¬ IsAccepted (before ++ found :: us)) ∧
      ∃ t us, t.kind = .punctuation .openParen ∧ IsEnded (before ++ t :: us) ∧
        IsAccepted (before ++ t :: us) := by
  let before : List Token :=
    [.symbol "g", .punctuation .openParen, .keyword .function, .symbol "x"].map
      (⟨·, ending.location⟩)
  let found : Token := ⟨.punctuation .comma, ending.location⟩
  let after : List Token := [⟨.punctuation .closeParen, ending.location⟩, ending]
  have hts : IsEnded (before ++ found :: after) :=
    ⟨before ++ [found, ⟨.punctuation .closeParen, ending.location⟩], ending, rfl, rfl, by decide⟩
  have h : program 3 (before ++ found :: after) =
      .error (.syntactic ⟨.functionBody, found, none⟩) (found :: after) := rfl
  obtain ⟨before', after', hsplit, hrest, hno, hyes, -⟩ :=
    program_refuses_first_impossible hts h (by decide)
  obtain rfl : after = after' := (List.cons.inj hrest).2
  obtain rfl : before = before' := List.append_cancel_right hsplit
  exact ⟨before, after, found, rfl, rfl, hts, h, hno,
    hyes (.punctuation .openParen) (by decide)⟩

end Grammar

end Juxta
