/-
  Juxta/Proofs/Grammar/Guard.lean
  ===============================
  **The guard against deep nesting** — whether a program is refused because it is nested too
  deeply is a matter of how many brackets, values of bindings and bodies of functions are open at
  once, and of nothing else (`Program.guard_by_nesting`).

  Where a reader refuses to nest any deeper, its limit has been reached by what is open
  (`exists_opened_of_nesting`); where more than twice the limit is open, it has refused before
  (`refusesWithin_of_opened`).  Both are about the tokens up to there, which begin a program; what
  comes behind them plays no part.
-/
import Juxta.Proofs.Grammar.Frames
import Juxta.Proofs.Grammar.Nesting
import Mathlib.Data.List.Infix

namespace Juxta

namespace Grammar

open TokenList

variable {depth : Nat} {ts us vs : List Token}

/-! ### What is open where a program is refused -/

/-- The tokens in front of a refused one begin a program. -/
theorem canBegin_of_refused {e : SyntaxError} {before rest : List Token}
    (h : program depth (before ++ rest) = .error (.syntactic e) rest) : CanBegin before := by
  have hholds : (CutSupply.pairing rest False).Holds ⟨before, rest.length⟩ (before ++ rest) :=
    ⟨rfl, Nat.le_refl _⟩
  have hagree := (agrees_program depth).agree hholds
  rw [h] at hagree
  cases hcut : program depth (⟨before, rest.length⟩ : CutSupply) with
  | ok a s =>
    rw [hcut] at hagree
    cases hagree
  | error e' s =>
    rw [hcut] at hagree
    cases hagree with
    | refused _ hpeek hs =>
      -- The supply has been read to its end, so that there was no token to refuse.
      have hnil : s.tokens = [] := by simpa using hs.1
      obtain ⟨tokens, further⟩ := s
      obtain rfl : tokens = [] := hnil
      cases hpeek
    | excused he =>
      rcases he with ⟨f, rfl, -⟩ | ⟨hfalse, -⟩
      · have hholds' : (CutSupply.pairing [] False).Holds ⟨before, rest.length⟩ before :=
          ⟨(List.append_nil before).symm, Nat.zero_le _⟩
        have hagree' := (agrees_program depth).agree hholds'
        rw [hcut] at hagree'
        have hnil : remaining (program depth before) = [] := by
          generalize program depth before = list at hagree'
          cases hagree' with
          | excused he' =>
            rcases he' with ⟨_, -, hsuffix⟩ | ⟨hfalse, -⟩
            · exact List.suffix_nil.mp hsuffix
            · exact absurd hfalse not_false
        exact canBegin_of_remaining hnil
      · exact absurd hfalse not_false

/-- A reader that refuses to nest any deeper has come to its limit. -/
theorem exists_opened_of_nesting {t : Token} {l : Option String} {rest : List Token}
    (h : program depth ts = .error (.syntactic ⟨.nesting, t, l⟩) rest) :
    ∃ before, before <+: ts ∧ CanBegin before ∧ depth ≤ opened before + 1 := by
  obtain ⟨before, hts, -, -, hlow⟩ := keeps_program depth ts
  rw [h, remaining] at hts
  subst hts
  exact ⟨before, ⟨rest, rfl⟩, canBegin_of_refused h, hlow t l rest h⟩

/-- What has been refused as nested too deeply, has been refused at a token. -/
theorem refusesWithin_of_nesting {e : SyntaxError} (h : parseTokens depth ts = .error (.syntactic e))
    (he : e.problem = .nesting) : RefusesWithin depth ts e := by
  unfold parseTokens at h
  cases hlist : program depth ts with
  | ok a rest =>
    rw [hlist] at h
    cases h
  | error e' rest =>
    rw [hlist] at h
    cases h
    obtain ⟨p, t, l, hp, hstart⟩ := refuses_program depth rfl hlist
    cases hp
    obtain ⟨u, after, rfl, -, -⟩ := exists_cons_of_kind rfl (hstart he)
    exact refusesWithin_of_cons hlist

/-- **No more than twice its limit is open to a reader.**  Behind tokens that begin a program and
    leave more than that open, it has refused to nest any deeper. -/
theorem refusesWithin_of_opened (hus : us <+: ts) (hbegin : CanBegin us)
    (hopened : 2 * depth < opened us) : ∃ e, RefusesWithin depth ts e ∧ e.problem = .nesting := by
  obtain ⟨vs, hprogram⟩ := hbegin
  obtain ⟨ws, rfl⟩ := hus
  obtain ⟨used, hused, hbelow, hok, -⟩ := keeps_program depth (us ++ vs)
  have hopen (us : List Token) (h : us <+: used) : opened us ≤ 2 * depth :=
    hbelow.height_le (Nat.zero_le _) h
  -- The reader has stopped in front of one of the tokens.
  obtain ⟨t, later, rfl, hrest⟩ : ∃ t later, us = used ++ t :: later ∧
      remaining (program depth (us ++ vs)) = t :: (later ++ vs) := by
    rcases List.append_eq_append_iff.mp hused with ⟨more, hmore, -⟩ | ⟨more, rfl, hmore⟩
    · have hle := hopen us ⟨more, hmore.symm⟩
      omega
    · cases more with
      | nil =>
        have hle := hopen (used ++ []) ⟨[], by simp⟩
        omega
      | cons t later => exact ⟨t, later, rfl, hmore⟩
  have hassoc (xs : List Token) : used ++ t :: later ++ xs = used ++ t :: (later ++ xs) := by simp
  obtain ⟨⟨body, last, hbody, hlast, hend⟩, haccepted⟩ := hprogram.accepted
  rw [hassoc] at hbody haccepted hrest hok ⊢
  cases hread : program depth (used ++ t :: (later ++ vs)) with
  | ok e rest =>
    rw [hread] at hrest
    obtain rfl : rest = t :: (later ++ vs) := hrest
    obtain ⟨⟨n, hstack⟩, -⟩ := hok e _ hread
    obtain ⟨taken, htaken, hbuilds, hkind⟩ := program_takes hread
    obtain rfl := List.append_cancel_right htaken
    obtain rfl := eq_of_append_eq hbody.symm hbuilds.isEnd hend hlast hkind
    obtain ⟨rfl, hnil⟩ := List.cons.inj (List.append_cancel_left hbody)
    obtain ⟨rfl, rfl⟩ := List.append_eq_nil_iff.mp hnil
    -- The end of input opens nothing.
    have hsettled : Settled (advanceAll [] used) := by
      rw [hstack]
      exact Settled.values (by simp [Settled]) n
    have hkind : t.kind = .endOfInput := hkind
    have hlast : opened (used ++ [t]) = opened used := by
      simp [opened, hsettled.advance_eq, hkind, inside]
    have hle := hopen used (List.prefix_refl used)
    omega
  | error e rest =>
    rw [hread] at hrest
    obtain rfl : rest = t :: (later ++ vs) := hrest
    obtain ⟨p, found, l, rfl, -⟩ := refuses_program depth rfl hread
    by_cases hp : p = .nesting
    · subst hp
      exact ⟨_, refusesWithin_of_nesting (parseTokens_of_refused hread _) rfl, rfl⟩
    · exact absurd haccepted (not_isAccepted_of_refused hread hp (later ++ vs))

/-! ### Brackets in brackets -/

/-- What is open is a matter of the kinds of the tokens. -/
theorem opened_eq_of_shapes (us : List Token) :
    opened us = height ((us.map Token.shape).foldl (fun S s => advance s.kind S) []) := by
  rw [List.foldl_map]
  rfl

/-- Behind `let f fn (x) { g (y` the value, the body with its braces and a bracket are open. -/
example : opened ([.keyword .binding, .symbol "f", .keyword .function, .punctuation .openParen,
    .symbol "x", .punctuation .closeParen, .punctuation .openBrace, .symbol "g",
    .punctuation .openParen, .symbol "y"].map (⟨·, ending.location⟩)) = 4 := by decide

theorem advanceAll_parens {S : List Unfinished} (hS : Settled S)
    (h : ∀ t ∈ us, t.kind = .punctuation .openParen) :
    advanceAll S us = List.replicate us.length .bracket ++ S := by
  induction us generalizing S with
  | nil => rfl
  | cons t us ih =>
    have ht : t.kind = .punctuation .openParen := h t (by simp)
    rw [advanceAll_cons, ht, hS.advance_eq]
    refine (ih (settled_cons rfl S) fun u hu => h u (by simp [hu])).trans ?_
    rw [List.length_cons, List.replicate_succ', List.append_assoc]
    rfl

theorem height_replicate (n : Nat) (i : Unfinished) :
    height (List.replicate n i) = n * i.weight := by
  induction n with
  | zero => simp
  | succ n ih => rw [List.replicate_succ, height_cons, ih, Nat.succ_mul, Nat.add_comm]

theorem opened_parens (h : ∀ t ∈ us, t.kind = .punctuation .openParen) :
    opened us = us.length := by
  rw [opened, advanceAll_parens (by simp [Settled]) h, List.append_nil, height_replicate]
  exact Nat.mul_one _

/-- As many brackets can be opened as one likes. -/
theorem canBegin_parens (h : ∀ t ∈ us, t.kind = .punctuation .openParen) (hne : us ≠ []) :
    CanBegin us := by
  have hgenerates : ∃ cs, Generates .expression (us ++ cs) := by
    induction us with
    | nil => exact absurd rfl hne
    | cons t us ih =>
      have ht : t.kind = .punctuation Bracket.paren.opener := h t (by simp)
      have hc : (sample (.punctuation Bracket.paren.closer)).kind = .punctuation Bracket.paren.closer :=
        kind_sample _
      by_cases hus : us = []
      · subst hus
        exact ⟨_, Generates.expression_of_operand (.bracketed (.block ht .noStatement hc))⟩
      · obtain ⟨cs, hcs⟩ := ih (fun u hu => h u (by simp [hu])) hus
        have hinside := Generates.statements hcs .noMore
        rw [List.append_nil] at hinside
        refine ⟨cs ++ [sample (.punctuation Bracket.paren.closer)], ?_⟩
        rw [← List.append_assoc]
        exact Generates.expression_of_operand (.bracketed (.block ht hinside hc))
  obtain ⟨cs, hcs⟩ := hgenerates
  exact ⟨cs ++ [ending], us ++ cs, ending, (List.append_assoc us cs [ending]).symm, rfl, hcs⟩

theorem spells_parens (n : Nat) :
    Text.Spells (List.replicate n '(') (List.replicate n (.punctuation .openParen)) := by
  induction n with
  | zero => exact .nil
  | succ n ih => exact .lexeme (s := .punctuation .openParen) trivial trivial ih

/-- A text of opening brackets has these for its tokens. -/
theorem exists_scans_parens (n : Nat) {k : Cursor} (hk : k.rest = List.replicate n '(') :
    ∃ us last, k.Scans (us ++ [last]) none ∧ us.length = n ∧
      ∀ t ∈ us, t.kind = .punctuation .openParen := by
  obtain ⟨ts, hscans, hshapes⟩ := (spells_parens n).exists_scans hk
  obtain ⟨us, ends, rfl, hus, hends⟩ := List.map_eq_append_iff.mp hshapes
  obtain ⟨last, rfl, -⟩ := List.map_eq_singleton_iff.mp hends
  refine ⟨us, last, hscans, ?_, ?_⟩
  · simpa using congrArg List.length hus
  · intro t ht
    have hmem := List.mem_map_of_mem (f := Token.shape) ht
    rw [hus] at hmem
    exact congrArg Shape.kind (List.eq_of_mem_replicate hmem)

/-! ### Answers -/

/-- What a reader answers. -/
def answer (x : Reader TokenSource Expr) (s : TokenSource) : Except ParseError Expr :=
  match x s with
  | .ok e _ => .ok e
  | .error e _ => .error e

/-- The answer is that the program is nested too deeply. -/
def IsTooDeep (r : Except ParseError Expr) : Prop :=
  ∃ found line, r = .error (.syntactic ⟨.nesting, found, line⟩)

theorem GoesDeeper.answer_eq {x y : Reader TokenSource Expr} (h : GoesDeeper x y)
    {s : TokenSource} (hdeep : ¬ IsTooDeep (answer x s)) : answer x s = answer y s := by
  rcases h s with heq | ⟨t, l, s', hnesting⟩
  · rw [answer, answer, heq]
  · refine absurd ⟨t, l, ?_⟩ hdeep
    rw [answer, hnesting]

theorem GoesDeeper.isTooDeep {x y : Reader TokenSource Expr} (h : GoesDeeper x y)
    {s : TokenSource} (hdeep : IsTooDeep (answer y s)) : IsTooDeep (answer x s) := by
  by_contra hnot
  rw [← h.answer_eq hnot] at hdeep
  exact hnot hdeep

end Grammar

namespace Program

variable {depth frames : Nat} {text : String} {filename : Option String} {ts : List Token}
  {f : Option ScanError}

theorem nestsTooDeeply_of_parseTo {e : SyntaxError}
    (h : parseTo depth text filename = .error (.syntactic e)) (he : e.problem = .nesting) :
    NestsTooDeeply depth text filename := by
  obtain ⟨problem, found, line⟩ := e
  obtain rfl : problem = .nesting := he
  exact ⟨found, line, h⟩

/-- A text is nested too deeply if its tokens are. -/
theorem nestsTooDeeply_iff_of_scans (h : (Cursor.start text.toList filename).Scans ts f) :
    NestsTooDeeply depth text filename ↔
      ∃ e, Grammar.RefusesWithin depth ts e ∧ e.problem = .nesting := by
  constructor
  · rintro ⟨found, line, hnesting⟩
    obtain ⟨e, he, hshown⟩ := (parseTo_eq_syntactic_iff h).mp hnesting
    exact ⟨e, he, (congrArg SyntaxError.problem hshown).symm⟩
  · rintro ⟨e, he, hproblem⟩
    exact nestsTooDeeply_of_parseTo ((parseTo_eq_syntactic_iff h).mpr ⟨e, he, rfl⟩) hproblem

/-- Too few things are open for the limit. -/
theorem not_nestsTooDeeply (h : (Cursor.start text.toList filename).Scans ts f)
    (hopened : ∀ us, us <+: ts → Grammar.CanBegin us → Grammar.opened us + 1 < depth) :
    ¬ NestsTooDeeply depth text filename := by
  intro hdeep
  obtain ⟨e, ⟨before, after, -, hrefused⟩, hproblem⟩ := (nestsTooDeeply_iff_of_scans h).mp hdeep
  obtain ⟨problem, found, line⟩ := e
  obtain rfl : problem = .nesting := hproblem
  obtain ⟨us, hus, hbegin, hle⟩ := Grammar.exists_opened_of_nesting hrefused
  have hlt := hopened us hus hbegin
  omega

/-- **The guard against deep nesting depends on nesting only.**  Where no more than 60 brackets,
    values of bindings and bodies of functions are open at once, a program is not refused as nested
    too deeply, and it is read as to any greater depth; where 2000 of them are open behind tokens
    that begin a program, it is refused so.  Both hold of the limit on expressions inside each other
    and of a stack with room for 500 frames up to 1000. -/
theorem guard_by_nesting (h : (Cursor.start text.toList filename).Scans ts f)
    (hlow : 500 ≤ frames) (hhigh : frames ≤ 1000) :
    ((∀ us, us <+: ts → Grammar.CanBegin us → Grammar.opened us ≤ 60) →
      ¬ Grammar.IsTooDeep (parse text filename) ∧
        parseWithin frames text filename = parse text filename ∧
        ∀ depth, 62 ≤ depth → parseTo depth text filename = parse text filename) ∧
    ∀ us, us <+: ts → Grammar.CanBegin us → 2000 ≤ Grammar.opened us →
      Grammar.IsTooDeep (parse text filename) ∧
        Grammar.IsTooDeep (parseWithin frames text filename) := by
  constructor
  · intro hopened
    have hshallow : ¬ NestsTooDeeply 62 text filename := not_nestsTooDeeply h fun us hus hbegin =>
      Nat.lt_of_le_of_lt (Nat.succ_le_succ (hopened us hus hbegin)) (by decide)
    have hdepth (depth : Nat) (hle : 62 ≤ depth) :
        parseTo 62 text filename = parseTo depth text filename :=
      (Grammar.program_goesDeeper hle).answer_eq hshallow
    have hparse : parseTo 62 text filename = parse text filename := hdepth _ (by decide)
    have hframes : parseTo 62 text filename = parseWithin frames text filename :=
      (Grammar.goesDeeper_programWithin (by omega)).answer_eq hshallow
    refine ⟨?_, hframes.symm.trans hparse, ?_⟩
    · rw [← hparse]
      exact hshallow
    · intro depth hle
      exact (hdepth depth hle).symm.trans hparse
  · intro us hus hbegin hopened
    have hdeep : NestsTooDeeply 500 text filename := (nestsTooDeeply_iff_of_scans h).mpr
      (Grammar.refusesWithin_of_opened hus hbegin (by omega))
    constructor
    · exact (Grammar.program_goesDeeper (by decide)).isTooDeep hdeep
    · exact (Grammar.programWithin_goesDeeper (by omega)).isTooDeep hdeep

/-- A function in a binding, with marks, steps and brackets in it, and two thousand brackets. -/
theorem guard_by_nesting_brackets :
    (∃ ts f, (Cursor.start "let f fn g (x) (x!! \x60h y; z)".toList none).Scans ts f ∧
      (∀ us, us <+: ts → Grammar.CanBegin us → Grammar.opened us ≤ 60) ∧
      parseWithin 500 "let f fn g (x) (x!! \x60h y; z)" =
        parse "let f fn g (x) (x!! \x60h y; z)") ∧
    ∃ ts f us, (Cursor.start (String.ofList (List.replicate 2000 '(')).toList none).Scans ts f ∧
      us <+: ts ∧ Grammar.CanBegin us ∧ 2000 ≤ Grammar.opened us ∧
      Grammar.IsTooDeep (parse (String.ofList (List.replicate 2000 '('))) ∧
      Grammar.IsTooDeep (parseWithin 1000 (String.ofList (List.replicate 2000 '('))) := by
  constructor
  · obtain ⟨ts, k, hall, hshapes⟩ : ∃ ts k,
        Scanner.all (.start "let f fn g (x) (x!! \x60h y; z)".toList none) = .ok ts k ∧
          ts.map Token.shape =
            [.keyword .binding, .symbol "f", .keyword .function, .symbol "g",
              .punctuation .openParen, .symbol "x", .punctuation .closeParen,
              .punctuation .openParen, .symbol "x", .punctuation .bang, .punctuation .bang,
              .punctuation .backtick, .symbol "h", .symbol "y", .punctuation .semicolon,
              .symbol "z", .punctuation .closeParen, .endOfInput] := ⟨_, _, rfl, rfl⟩
    have hscans := Scanner.scans_of_all hall
    have hopened (us : List Token) (hus : us <+: ts) : Grammar.opened us ≤ 60 := by
      have hmem := (List.mem_inits _ _).mpr (hus.map Token.shape)
      rw [hshapes] at hmem
      rw [Grammar.opened_eq_of_shapes]
      revert hmem
      generalize us.map Token.shape = ss
      revert ss
      decide
    exact ⟨ts, none, hscans, fun us hus _ => hopened us hus,
      ((guard_by_nesting hscans (by decide) (by decide)).1 fun us hus _ => hopened us hus).2.1⟩
  · have hdeep (n : Nat) (hn : 2000 ≤ n) :
        ∃ ts f us, (Cursor.start (String.ofList (List.replicate n '(')).toList none).Scans ts f ∧
          us <+: ts ∧ Grammar.CanBegin us ∧ 2000 ≤ Grammar.opened us ∧
          Grammar.IsTooDeep (parse (String.ofList (List.replicate n '('))) ∧
          Grammar.IsTooDeep (parseWithin 1000 (String.ofList (List.replicate n '('))) := by
      obtain ⟨us, last, hscans, hlen, hparens⟩ := Grammar.exists_scans_parens n
        (k := .start (String.ofList (List.replicate n '(')).toList none) String.toList_ofList
      have hprefix : us <+: us ++ [last] := ⟨[last], rfl⟩
      have hbegin : Grammar.CanBegin us := by
        apply Grammar.canBegin_parens hparens
        rintro rfl
        rw [← hlen] at hn
        cases hn
      have hopened : 2000 ≤ Grammar.opened us := by rwa [Grammar.opened_parens hparens, hlen]
      exact ⟨us ++ [last], none, us, hscans, hprefix, hbegin, hopened,
        (guard_by_nesting hscans (by decide) (by decide)).2 us hprefix hbegin hopened⟩
    exact hdeep 2000 (Nat.le_refl _)

end Program

end Juxta
