/-
  Juxta/Proofs/Grammar/Meaning.lean
  =================================
  **Only kinds and values count** — the grammar sees the kind of a token and its value, and
  nothing else of it: not where it stands, not how its value is written, and not what is between
  it and the next one.  Texts whose tokens agree in kinds and values are read to trees that are
  equal up to locations, or are both refused at the same token with the same kinds expected
  (`Program.sameOutcome_of_meaning`).

  `Parallel view x y` says of two readers that from such lists of tokens they come to such
  results.  Two readers and not one, because what comes after a reader depends on its value,
  which is not the same on both sides.
-/
import Juxta.Proofs.Grammar.Context
import Juxta.Proofs.Grammar.Demand
import Juxta.Proofs.Grammar.NormalForm
import Juxta.Proofs.Token.Respacing

namespace Juxta

open TokenList

/-! ### The meaning of tokens -/

/-- What the grammar uses of a token. -/
def Token.meaning (t : Token) : Kind × Option Literal := (t.kind, t.shape.value?)

theorem Token.meanings_eq_of_shapes (ts : List Token) :
    ts.map Token.meaning = (ts.map Token.shape).map fun s => (s.kind, s.value?) := by
  rw [List.map_map]
  rfl

theorem Token.kind_eq_of_meaning {t u : Token} (h : t.meaning = u.meaning) : t.kind = u.kind :=
  congrArg Prod.fst h

/-- Tokens that mean the same are the same, or literals with the same value. -/
theorem Shape.cases_of_meaning {t u : Token} (h : t.meaning = u.meaning) :
    t.shape = u.shape ∨ ∃ v, t.shape.literal? = some v ∧ u.shape.literal? = some v := by
  obtain ⟨hkind, hvalue⟩ := Prod.mk.inj h
  rw [Token.kind, Token.kind] at hkind
  cases ht : t.shape <;> cases hu : u.shape <;> rw [ht, hu] at hkind hvalue <;>
    simp_all [Shape.kind, value?, literal?]

namespace TokenList

/-- The tokens mean the same, one by one. -/
def SameMeaning (ts us : List Token) : Prop := ts.map Token.meaning = us.map Token.meaning

variable {ts us : List Token}

theorem SameMeaning.length_eq (h : SameMeaning ts us) : ts.length = us.length := by
  simpa using congrArg List.length h

theorem SameMeaning.head (h : SameMeaning ts us) :
    (ts.headD ending).meaning = (us.headD ending).meaning := by
  cases ts with
  | nil =>
    obtain rfl := List.map_eq_nil_iff.mp h.symm
    rfl
  | cons t ts =>
    obtain ⟨u, us, rfl, hu, -⟩ := List.map_eq_cons_iff.mp h.symm
    exact hu.symm

theorem SameMeaning.kind_eq (h : SameMeaning ts us) : kind ts = kind us :=
  Token.kind_eq_of_meaning h.head

theorem SameMeaning.tail (h : SameMeaning ts us) : SameMeaning (tail ts) (tail us) := by
  cases ts with
  | nil =>
    obtain rfl := List.map_eq_nil_iff.mp h.symm
    rfl
  | cons t ts =>
    obtain ⟨u, us, rfl, hu, hus⟩ := List.map_eq_cons_iff.mp h.symm
    have hend : t.isEnd = u.isEnd := by rw [Token.isEnd, Token.isEnd, Token.kind_eq_of_meaning hu]
    rw [TokenList.tail, TokenList.tail, hend]
    split
    · exact h
    · exact hus.symm

end TokenList

namespace Grammar

/-! ### Readers that go side by side -/

section Sides

variable {α β γ δ : Type}

/-- Both readers have succeeded, with values that look the same, or both have refused the token
    that comes next, and have expected the same kinds.  What is left means the same. -/
inductive Alike (view : α → γ) :
    EStateM.Result ParseError (List Token) α → EStateM.Result ParseError (List Token) α → Prop where
  | ok {a b : α} {ts us : List Token} : view a = view b → SameMeaning ts us →
      Alike view (.ok a ts) (.ok b us)
  | refused {p q : Problem} {l m : Option String} {ts us : List Token} :
      p.expected = q.expected → SameMeaning ts us →
      Alike view (.error (.syntactic ⟨p, ts.headD ending, l⟩) ts)
        (.error (.syntactic ⟨q, us.headD ending, m⟩) us)

/-- From tokens that mean the same the readers come to results that are alike. -/
def Parallel (view : α → γ) (x y : Reader (List Token) α) : Prop :=
  ∀ ⦃ts us⦄, SameMeaning ts us → Alike view (x ts) (y us)

variable {view : α → γ} {x y : Reader (List Token) α}

theorem parallel_pure {a b : α} (h : view a = view b) : Parallel view (pure a) (pure b) :=
  fun _ _ hts => .ok h hts

theorem Parallel.bind {view' : β → δ} {f g : α → Reader (List Token) β} (h : Parallel view x y)
    (hf : ∀ a b, view a = view b → Parallel view' (f a) (g b)) :
    Parallel view' (x >>= f) (y >>= g) := by
  intro ts us hts
  have hfirst := h hts
  generalize hx : x ts = r at hfirst
  generalize hy : y us = s at hfirst
  cases hfirst with
  | ok hab hrest =>
    rw [bind_of_ok hx, bind_of_ok hy]
    exact hf _ _ hab hrest
  | refused hp hrest =>
    rw [bind_of_error hx, bind_of_error hy]
    exact .refused hp hrest

theorem parallel_peek : Parallel Token.meaning peek peek := fun _ _ hts => .ok hts.head hts

theorem parallel_take : Parallel Token.meaning take take := by
  intro ts us hts
  have htake (ts : List Token) :
      (take : Reader (List Token) Token) ts = .ok (ts.headD ending) (tail ts) := by
    change EStateM.adaptExcept _ TokenList.next ts = _
    rw [EStateM.adaptExcept, next_eq]
  rw [htake, htake]
  exact .ok hts.head hts.tail

theorem parallel_refuse {p q : Problem} (h : p.expected = q.expected) :
    Parallel view (refuse p) (refuse q) := fun _ _ hts => .refused h hts

theorem parallel_nextIs (p : Kind → Bool) : Parallel id (nextIs p) (nextIs p) := by
  apply parallel_peek.bind
  intro t u h
  exact parallel_pure (congrArg p (Token.kind_eq_of_meaning h))

theorem Parallel.ite {x' y' : Reader (List Token) α} (hx : Parallel view x x')
    (hy : Parallel view y y') (b : Bool) :
    Parallel view (if b then x else y) (if b then x' else y') := by
  cases b with
  | true => exact hx
  | false => exact hy

/-- A choice by the next token is the same on both sides. -/
theorem parallel_nextIs_bind (p : Kind → Bool) {f g : Bool → Reader (List Token) α}
    (h : ∀ b, Parallel view (f b) (g b)) : Parallel view (nextIs p >>= f) (nextIs p >>= g) := by
  apply (parallel_nextIs p).bind
  rintro a b rfl
  exact h a

theorem parallel_accept (k : Kind) : Parallel id (accept k) (accept k) := by
  apply parallel_nextIs_bind
  intro b
  refine .ite ?_ (parallel_pure rfl) b
  exact parallel_take.bind fun _ _ _ => parallel_pure rfl

theorem parallel_accept_bind (k : Kind) {f g : Bool → Reader (List Token) α}
    (h : ∀ b, Parallel view (f b) (g b)) : Parallel view (accept k >>= f) (accept k >>= g) := by
  apply (parallel_accept k).bind
  rintro a b rfl
  exact h a

/-- A choice by the name that comes next, if one does. -/
theorem parallel_symbol {f g : String → Reader (List Token) α} (hname : ∀ n, Parallel view (f n) (g n))
    (hother : Parallel view x y) :
    Parallel view (do match (← peek).shape with | .symbol n => f n | _ => x)
      (do match (← peek).shape with | .symbol n => g n | _ => y) := by
  apply parallel_peek.bind
  intro t u h
  rcases Shape.cases_of_meaning h with hshape | ⟨v, ht, hu⟩
  · rw [hshape]
    cases u.shape with
    | symbol n => exact hname n
    | _ => exact hother
  · cases hs : t.shape with
    | symbol n =>
      rw [hs] at ht
      cases ht
    | _ =>
      cases hs' : u.shape with
      | symbol n =>
        rw [hs'] at hu
        cases hu
      | _ => exact hother

theorem parallel_name (p : Problem) : Parallel id (name p) (name p) :=
  parallel_symbol (fun _ => parallel_take.bind fun _ _ _ => parallel_pure rfl) (parallel_refuse rfl)

theorem parallel_functionName : Parallel id functionName functionName :=
  parallel_symbol (fun _ => parallel_take.bind fun _ _ _ => parallel_pure rfl) (parallel_pure rfl)

theorem parallel_manyUpTo {begins : Kind → Bool} (h : Parallel view x y) (n : Nat) :
    Parallel (List.map view) (manyUpTo begins x n) (manyUpTo begins y n) := by
  induction n with
  | zero => exact parallel_pure rfl
  | succ n ih =>
    apply parallel_nextIs_bind
    intro b
    refine .ite ?_ (parallel_pure rfl) b
    apply h.bind
    intro a b hab
    apply ih.bind
    intro as bs habs
    apply parallel_pure
    rw [List.map_cons, List.map_cons, hab, habs]

/-- As many tokens are left on both sides. -/
theorem parallel_bound {f g : Nat → Reader (List Token) α} (h : ∀ n, Parallel view (f n) (g n)) :
    Parallel view (get >>= fun ts => f (TokenSupply.bound ts))
      (get >>= fun ts => g (TokenSupply.bound ts)) := by
  intro ts us hts
  have hlength : TokenSupply.bound ts = TokenSupply.bound us := hts.length_eq
  rw [get_bind, get_bind, hlength]
  exact h _ hts

theorem Parallel.many (begins : Kind → Bool) (h : Parallel view x y) :
    Parallel (List.map view) (many begins x) (many begins y) :=
  parallel_bound fun n => parallel_manyUpTo h n

end Sides

/-! ### Productions side by side -/

section Productions

theorem parallel_parametersUpTo (n : Nat) :
    Parallel id (parametersUpTo n) (parametersUpTo n) := by
  induction n with
  | zero => exact parallel_pure rfl
  | succ n ih =>
    apply (parallel_name _).bind
    rintro first _ rfl
    refine parallel_accept_bind _ fun closed => .ite (parallel_pure rfl) ?_ closed
    refine parallel_accept_bind _ fun separated => .ite ?_ (parallel_refuse rfl) separated
    apply ih.bind
    rintro later _ rfl
    exact parallel_pure rfl

theorem parallel_parameters : Parallel id parameters parameters := by
  refine parallel_accept_bind _ fun opened => .ite ?_ (parallel_pure rfl) opened
  refine parallel_accept_bind _ fun closed => .ite (parallel_pure rfl) ?_ closed
  exact parallel_bound fun n => parallel_parametersUpTo (n + 1)

variable {x y : Reader (List Token) Expr}

theorem parallel_statement (h : Parallel Expr.unlocated x y) (b : Bracket) :
    Parallel Expr.unlocated (statement x b) (statement y b) :=
  parallel_nextIs_bind _ fun starts => .ite h (parallel_refuse rfl) starts

/-- Statements, and whether there is a `;` among them, without locations. -/
def unlocatedStatements (v : Bool × List Expr) : Bool × List Expr := (v.1, v.2.map Expr.unlocated)

theorem unlocatedStatements_cons {e e' : Expr} {xs xs' : List Expr} (separated : Bool)
    (he : e.unlocated = e'.unlocated) (hxs : xs.map Expr.unlocated = xs'.map Expr.unlocated) :
    unlocatedStatements (separated, e :: xs) = unlocatedStatements (separated, e' :: xs') := by
  simp only [unlocatedStatements, List.map_cons, he, hxs]

theorem parallel_moreStatements (h : Parallel Expr.unlocated x y) (b : Bracket) (n : Nat) :
    Parallel unlocatedStatements (moreStatements x b n) (moreStatements y b n) := by
  induction n with
  | zero => exact parallel_pure rfl
  | succ n ih =>
    refine parallel_accept_bind _ fun separated => .ite ?_ (parallel_pure rfl) separated
    refine parallel_nextIs_bind _ fun closed => .ite (parallel_pure rfl) ?_ closed
    apply (parallel_statement h b).bind
    intro first first' hfirst
    apply ih.bind
    intro later later' hlater
    exact parallel_pure (unlocatedStatements_cons true hfirst (congrArg Prod.snd hlater))

theorem parallel_statements (h : Parallel Expr.unlocated x y) (b : Bracket) :
    Parallel unlocatedStatements (statements x b) (statements y b) := by
  refine parallel_nextIs_bind _ fun closed => .ite (parallel_pure rfl) ?_ closed
  apply (parallel_statement h b).bind
  intro first first' hfirst
  have hmore (n : Nat) : Parallel unlocatedStatements
      (moreStatements x b n >>= fun v => pure (v.1, first :: v.2))
      (moreStatements y b n >>= fun v => pure (v.1, first' :: v.2)) := by
    apply (parallel_moreStatements h b n).bind
    rintro ⟨separated, later⟩ ⟨separated', later'⟩ hlater
    obtain ⟨rfl, htrees⟩ := Prod.mk.inj hlater
    exact parallel_pure (unlocatedStatements_cons _ hfirst htrees)
  exact parallel_bound hmore

theorem parallel_block (h : Parallel Expr.unlocated x y) (b : Bracket) :
    Parallel Expr.unlocated (block x b) (block y b) := by
  apply parallel_take.bind
  intro opening opening' _
  apply (parallel_statements h b).bind
  rintro ⟨separated, trees⟩ ⟨separated', trees'⟩ hbody
  obtain ⟨rfl, htrees⟩ := Prod.mk.inj hbody
  refine parallel_nextIs_bind _ fun ended => .ite ?_ ?_ ended
  · exact parallel_refuse rfl
  · refine parallel_accept_bind _ fun closed => .ite ?_ (parallel_refuse rfl) closed
    exact parallel_pure (unlocated_blockOf_congr _ _ htrees)

theorem parallel_functionBody (h : Parallel Expr.unlocated x y) :
    Parallel Expr.unlocated (functionBody x) (functionBody y) := by
  refine parallel_nextIs_bind _ fun braces => .ite (parallel_block h .brace) ?_ braces
  exact parallel_nextIs_bind _ fun starts => .ite h (parallel_refuse rfl) starts

theorem parallel_function (h : Parallel Expr.unlocated x y) :
    Parallel Expr.unlocated (function x) (function y) := by
  apply parallel_take.bind
  intro keyword keyword' _
  apply parallel_functionName.bind
  rintro n _ rfl
  apply parallel_parameters.bind
  rintro ps _ rfl
  apply (parallel_functionBody h).bind
  intro body body' hbody
  apply parallel_pure
  simp only [Expr.unlocated, hbody, id_eq]

theorem parallel_operand (h : Parallel Expr.unlocated x y) :
    Parallel Expr.unlocated (operand x) (operand y) := by
  have htaken (e e' : Expr) (he : e.unlocated = e'.unlocated) : Parallel Expr.unlocated
      (do let _ ← take; return e) (do let _ ← take; return e') :=
    parallel_take.bind fun _ _ _ => parallel_pure he
  intro ts us hts
  rcases Shape.cases_of_meaning hts.head with hshape | ⟨v, ht, hu⟩
  · rw [operand, operand, peek_bind, peek_bind, hshape]
    cases (us.headD ending).shape with
    | integer _ | decimal _ _ | string _ _ | symbol _ =>
      refine htaken _ _ ?_ hts
      rfl
    | endOfInput => exact parallel_refuse rfl hts
    | keyword k =>
      cases k with
      | function => exact parallel_function h hts
      | _ => exact parallel_refuse rfl hts
    | punctuation p =>
      cases p with
      | openBrace => exact parallel_block h .brace hts
      | openParen => exact parallel_block h .paren hts
      | _ => exact parallel_refuse rfl hts
  · -- The literals may be written differently, but their values are the same.
    cases ts with
    | nil => cases ht
    | cons t ts =>
      obtain ⟨u, us, rfl, -, hus⟩ := List.map_eq_cons_iff.mp hts.symm
      rw [List.headD_cons] at ht hu
      rw [operand_literal ht, operand_literal hu]
      exact .ok rfl hus.symm

theorem parallel_invoked (h : Parallel Expr.unlocated x y) :
    Parallel Expr.unlocated (invoked x) (invoked y) := by
  apply (parallel_operand h).bind
  intro target target' htarget
  apply (parallel_take.many _).bind
  intro marks marks' hmarks
  apply parallel_pure
  have hlength : marks.length = marks'.length := by simpa using congrArg List.length hmarks
  exact unlocated_marked htarget hlength

theorem parallel_step (h : Parallel Expr.unlocated x y) :
    Parallel Expr.unlocatedStep (step x) (step y) := by
  apply parallel_take.bind
  intro _ _ _
  refine parallel_nextIs_bind _ fun starts => .ite ?_ (parallel_refuse rfl) starts
  apply (parallel_invoked h).bind
  intro operator operator' hoperator
  apply ((parallel_invoked h).many _).bind
  intro extra extra' hextra
  apply parallel_pure
  simp only [Expr.unlocatedStep, Step.operator, Step.extra, hoperator, hextra]

theorem parallel_chained (h : Parallel Expr.unlocated x y) :
    Parallel Expr.unlocated (chained x) (chained y) := by
  apply (parallel_invoked h).bind
  intro seed seed' hseed
  apply ((parallel_step h).many _).bind
  intro steps steps' hsteps
  apply parallel_pure
  rw [chainOf_unlocated, chainOf_unlocated, hseed, hsteps]

theorem parallel_application (h : Parallel Expr.unlocated x y) :
    Parallel Expr.unlocated (application x) (application y) := by
  apply (parallel_chained h).bind
  intro callee callee' hcallee
  apply ((parallel_chained h).many _).bind
  intro arguments arguments' harguments
  apply parallel_pure
  rw [callOf_unlocated, callOf_unlocated, hcallee, harguments]

theorem parallel_assignment (h : Parallel Expr.unlocated x y) (k : Keyword) :
    Parallel Expr.unlocated (assignment x k) (assignment y k) := by
  apply parallel_take.bind
  intro token token' _
  apply (parallel_name _).bind
  rintro bound _ rfl
  refine parallel_nextIs_bind _ fun starts => .ite ?_ (parallel_refuse rfl) starts
  apply h.bind
  intro value value' hvalue
  apply parallel_pure
  simp only [Expr.unlocated, hvalue, id_eq]

theorem parallel_expressionOver (h : Parallel Expr.unlocated x y) :
    Parallel Expr.unlocated (expressionOver x) (expressionOver y) := by
  apply parallel_peek.bind
  intro t u htu
  rw [Token.kind_eq_of_meaning htu]
  cases u.kind with
  | keyword k =>
    cases k with
    | function => exact parallel_application h
    | _ => exact parallel_assignment h _
  | _ => exact parallel_application h

theorem parallel_expression (depth : Nat) :
    Parallel Expr.unlocated (expression depth) (expression depth) := by
  induction depth with
  | zero => exact parallel_refuse rfl
  | succ depth ih => exact parallel_expressionOver ih

/-- **Programs are read alike from tokens that mean the same.** -/
theorem parallel_program (depth : Nat) :
    Parallel Expr.unlocated (program depth) (program depth) := by
  refine parallel_nextIs_bind _ fun starts => .ite ?_ (parallel_refuse rfl) starts
  apply (parallel_expression depth).bind
  intro e e' he
  exact parallel_nextIs_bind _ fun ended => .ite (parallel_pure he) (parallel_refuse rfl) ended

end Productions

/-- The token that is refused is one of the list, with as many behind it as are left. -/
theorem getElem?_of_refused {depth : Nat} {p : Problem} {found : Token} {l : Option String}
    {ts rest : List Token} (hts : IsEnded ts)
    (h : program depth ts = .error (.syntactic ⟨p, found, l⟩) rest) :
    ts[ts.length - rest.length]? = some (rest.headD ending) := by
  obtain ⟨t, after, rfl⟩ := exists_cons_of_refused hts h
  obtain ⟨before, hbefore, -⟩ := (agrees_program (P := TokenList.pairing) depth).forward ts
  rw [h, remaining] at hbefore
  rw [hbefore]
  simp

end Grammar

/-! ### Texts that mean the same -/

namespace Program

open Grammar

/-- Both results are trees, which are the same up to locations, or both are refusals, of the
    tokens at one place in the lists and with the same kinds expected. -/
inductive SameOutcome (ts us : List Token) :
    Except ParseError Expr → Except ParseError Expr → Prop where
  | tree {e e' : Expr} : e.unlocated = e'.unlocated → e.same e' = true →
      SameOutcome ts us (.ok e) (.ok e')
  | refused {i : Nat} {e e' : SyntaxError} : ts[i]? = some e.found → us[i]? = some e'.found →
      e.problem.expected = e'.problem.expected →
      SameOutcome ts us (.error (.syntactic e)) (.error (.syntactic e'))

variable {text text' : String} {filename filename' : Option String} {ts us : List Token}

/-- Texts whose tokens mean the same come to the same outcome. -/
theorem sameOutcome_of_meaning (hts : (Cursor.start text.toList filename).Scans ts none)
    (hus : (Cursor.start text'.toList filename').Scans us none) (h : SameMeaning ts us)
    (depth : Nat) :
    SameOutcome ts us (parseTo depth text filename) (parseTo depth text' filename') := by
  have htext : parseTo depth text filename = _ := parseTo_of_all_scans hts
  have htext' : parseTo depth text' filename' = _ := parseTo_of_all_scans hus
  have halike := parallel_program depth h
  unfold parseTokens at htext htext'
  generalize hr : program depth ts = r at halike htext
  generalize hs : program depth us = s at halike htext'
  cases halike with
  | @ok e e' _ _ he _ =>
    have hplain := hasPlainLiteral_of_parseTo htext
    have hplain' := hasPlainLiteral_of_parseTo htext'
    rw [htext, htext']
    exact .tree he ((Expr.same_iff e e' hplain hplain').mpr he)
  | refused hexpected hrest =>
    have hfound := getElem?_of_refused (Scanner.exists_last hts) hr
    have hfound' := getElem?_of_refused (Scanner.exists_last hus) hs
    rw [← h.length_eq, ← hrest.length_eq] at hfound'
    rw [htext, htext']
    exact .refused hfound hfound' hexpected

/-- **The layout of a source does not matter.**  Its lexemes, respaced in any way, are the same
    tokens; and any other source with the same kinds and values of tokens comes to the same
    outcome. -/
theorem layout_irrelevant {k : Cursor}
    (h : Scanner.all (.start text.toList filename) = .ok ts k) :
    (∀ lead pieces filename', pieces.map Prod.fst = ts.dropLast.map Token.lexeme →
      Text.IsSpacing lead pieces →
      ∃ ts' k', Scanner.all (.start (Text.respaced lead pieces) filename') = .ok ts' k' ∧
        ts'.map Token.shape = ts.map Token.shape) ∧
    ∀ text' filename' us k', Scanner.all (.start text'.toList filename') = .ok us k' →
      ts.map Token.meaning = us.map Token.meaning →
      ∀ depth, SameOutcome ts us (parseTo depth text filename) (parseTo depth text' filename') := by
  constructor
  · intro lead pieces filename' hlexemes hspacing
    exact Scanner.all_respaced h hlexemes hspacing
  · intro text' filename' us k' h' hmeaning depth
    exact sameOutcome_of_meaning (Scanner.scans_of_all h) (Scanner.scans_of_all h') hmeaning depth

/-- A string over two lines and a number with zeros in front, in two ways, and a bracket that is
    not closed. -/
theorem layout_irrelevant_twoLines :
    (∃ ts' k', Scanner.all (.start " f\n'a\nb' \t007\r(".toList none) = .ok ts' k' ∧
      ts'.map Token.shape =
        [.symbol "f", .string .single "a\nb", .integer "007", .punctuation .openParen,
          .endOfInput]) ∧
    ∃ ts us, ts ≠ us ∧
      SameOutcome ts us (parse "f'a\nb'007(" none) (parse "f \"a\nb\" 7 (" (some "g")) := by
  obtain ⟨ts, k, h, hshapes⟩ : ∃ ts k,
      Scanner.all (.start "f'a\nb'007(".toList none) = .ok ts k ∧ ts.map Token.shape =
        [.symbol "f", .string .single "a\nb", .integer "007", .punctuation .openParen,
          .endOfInput] := ⟨_, _, rfl, rfl⟩
  obtain ⟨us, k', h', hshapes'⟩ : ∃ us k',
      Scanner.all (.start "f \"a\nb\" 7 (".toList (some "g")) = .ok us k' ∧ us.map Token.shape =
        [.symbol "f", .string .double "a\nb", .integer "7", .punctuation .openParen,
          .endOfInput] := ⟨_, _, rfl, rfl⟩
  obtain ⟨hrespaced, houtcome⟩ := layout_irrelevant h
  constructor
  · rw [← hshapes]
    apply hrespaced [' '] [("f", ['\n']), ("'a\nb'", [' ', '\t']), ("007", ['\r']), ("(", [])] none
    · rw [Scanner.lexemes_eq_of_shapes, hshapes]
      decide
    · decide
  · have hne : ts ≠ us := by
      rintro rfl
      rw [hshapes] at hshapes'
      revert hshapes'
      decide
    have hmeaning : ts.map Token.meaning = us.map Token.meaning := by
      rw [Token.meanings_eq_of_shapes, Token.meanings_eq_of_shapes, hshapes, hshapes']
      decide
    exact ⟨ts, us, hne, houtcome _ _ _ _ h' hmeaning Grammar.depthLimit⟩

end Program

end Juxta
