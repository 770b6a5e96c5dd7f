/-
  Juxta/Proofs/Grammar/Unclosed.lean
  ==================================
  **Where a block breaks off** — a text ends inside a block whose closing bracket could have come
  next.  What is reported then depends on the last token (`Program.unclosed_reported_iff`): where
  a statement has ended, the block is not closed, and its bracket is named; behind the bracket
  itself and behind a `;` a statement is missing.

  The reader is followed on the tokens of the text and on the same tokens with the closing brackets
  behind them (`Border.Agrees`).  As long as both go on, they come to the same values with the same
  tokens left.  Only parameters can be ended by the bracket and not by the end of input, and the
  function is then refused for want of a body.
-/
import Juxta.Proofs.Grammar.Brackets

namespace Juxta.Grammar

open TokenList

/-! ### The end of input and a closing bracket -/

/-- Neither the end of input nor a closing bracket is of such a kind. -/
structure GoesOn (p : Kind → Bool) : Prop where
  endOfInput : p .endOfInput = false
  closer : ∀ b : Bracket, p (.punctuation b.closer) = false

theorem goesOn_startsExpression : GoesOn Kind.startsExpression := ⟨rfl, by rintro (_ | _) <;> rfl⟩

theorem goesOn_startsOperand : GoesOn Kind.startsOperand := ⟨rfl, by rintro (_ | _) <;> rfl⟩

theorem goesOn_punctuation {q : Punctuation} (hq : q ≠ .closeBrace ∧ q ≠ .closeParen) :
    GoesOn (· == .punctuation q) := by
  refine ⟨rfl, fun b => beq_eq_false_iff_ne.mpr fun h => ?_⟩
  cases b with
  | brace => exact hq.1 (Kind.punctuation.inj h).symm
  | paren => exact hq.2 (Kind.punctuation.inj h).symm

/-- The end of input, and the closing bracket that could have come instead, with what comes behind
    it. -/
structure Border where
  last : Token
  closer : Token
  after : List Token
  last_isEnd : last.isEnd = true
  bracket : Bracket
  closer_kind : closer.kind = .punctuation bracket.closer
  /-- No expression begins behind the bracket. -/
  after_stops : Kind.startsExpression (kind after) = false

namespace Border

variable (B : Border)

/-- The tokens up to the border, and the end of input. -/
def cut (ts : List Token) : List Token := ts ++ [B.last]

/-- The tokens up to the border, the closing bracket and what comes behind it. -/
def closed (ts : List Token) : List Token := ts ++ B.closer :: B.after

@[simp] theorem cut_cons (t : Token) (ts : List Token) : B.cut (t :: ts) = t :: B.cut ts := rfl

@[simp] theorem closed_cons (t : Token) (ts : List Token) :
    B.closed (t :: ts) = t :: B.closed ts := rfl

theorem kind_cut_nil : kind (B.cut []) = .endOfInput := by
  simpa [cut, Token.isEnd] using B.last_isEnd

theorem kind_closed_nil : kind (B.closed []) = .punctuation B.bracket.closer := B.closer_kind

/-- The results on both sides of the border: the same value with the same tokens left in front of
    it; unless the second reader has failed, or the first has come to the border and misses a
    statement or the end of a block there. -/
inductive Agree {α : Type} :
    EStateM.Result ParseError (List Token) α → EStateM.Result ParseError (List Token) α → Prop where
  | ok {a : α} {ts : List Token} : Agree (.ok a (B.cut ts)) (.ok a (B.closed ts))
  | failed {r : EStateM.Result ParseError (List Token) α} {e : ParseError} {rest : List Token} :
      Agree r (.error e rest)
  | breaksOff {e : ParseError} {r : EStateM.Result ParseError (List Token) α} :
      e.blamesBlock = true → Agree (.error e (B.cut [])) r

/-- The readers agree wherever they start in front of the border. -/
def Agrees {α : Type} (x y : Reader (List Token) α) : Prop :=
  ∀ ts, B.Agree (x (B.cut ts)) (y (B.closed ts))

/-- The readers agree wherever there is a token in front of the border. -/
def AgreesAhead {α : Type} (x y : Reader (List Token) α) : Prop :=
  ∀ t ts, B.Agree (x (t :: B.cut ts)) (y (t :: B.closed ts))

variable {B} {α β : Type}

theorem Agrees.ahead {x y : Reader (List Token) α} (h : B.Agrees x y) : B.AgreesAhead x y :=
  fun t ts => h (t :: ts)

theorem agrees_pure (a : α) : B.Agrees (pure a) (pure a) := fun _ => .ok

theorem agrees_refuse (p q : Problem) :
    B.Agrees (refuse p : Reader (List Token) α) (refuse q) := fun _ => .failed

theorem Agree.bind {x y : Reader (List Token) α} {f g : α → Reader (List Token) β}
    {ts us : List Token} (h : B.Agree (x ts) (y us)) (hf : ∀ a, B.Agrees (f a) (g a)) :
    B.Agree ((x >>= f) ts) ((y >>= g) us) := by
  generalize hr : x ts = r at h
  generalize hs : y us = s at h
  cases h with
  | ok =>
    rw [bind_of_ok hr, bind_of_ok hs]
    exact hf _ _
  | failed =>
    rw [bind_of_error hs]
    exact .failed
  | breaksOff he =>
    rw [bind_of_error hr]
    exact .breaksOff he

theorem Agrees.bind {x y : Reader (List Token) α} {f g : α → Reader (List Token) β}
    (h : B.Agrees x y) (hf : ∀ a, B.Agrees (f a) (g a)) : B.Agrees (x >>= f) (y >>= g) :=
  fun ts => (h ts).bind hf

theorem AgreesAhead.bind {x y : Reader (List Token) α} {f g : α → Reader (List Token) β}
    (h : B.AgreesAhead x y) (hf : ∀ a, B.Agrees (f a) (g a)) :
    B.AgreesAhead (x >>= f) (y >>= g) :=
  fun t ts => (h t ts).bind hf

theorem agrees_ite {b : Bool} {x x' y y' : Reader (List Token) α} (hx : B.Agrees x y)
    (hy : B.Agrees x' y') : B.Agrees (if b then x else x') (if b then y else y') := by
  cases b with
  | true => exact hx
  | false => exact hy

theorem agreesAhead_take : B.AgreesAhead take take := by
  intro t ts
  cases ht : t.isEnd with
  | true =>
    have htake (us : List Token) :
        (take : Reader (List Token) Token) (t :: us) = .ok t (t :: us) := by
      change EStateM.adaptExcept _ TokenList.next (t :: us) = _
      rw [EStateM.adaptExcept, next_eq, List.headD_cons, tail, ht]
      rfl
    rw [htake, htake]
    exact @Border.Agree.ok B _ t (t :: ts)
  | false =>
    rw [take_cons ht, take_cons ht]
    exact .ok

/-- In front of the border any question has the same answer. -/
theorem agreesAhead_nextIs_ite {p : Kind → Bool} {x x' y y' : Reader (List Token) α}
    (hyes : B.AgreesAhead x y) (hno : B.AgreesAhead x' y') :
    B.AgreesAhead (nextIs p >>= fun b => if b then x else x')
      (nextIs p >>= fun b => if b then y else y') := by
  intro t ts
  rw [nextIs_bind, nextIs_bind, kind_cons, kind_cons]
  cases p t.kind with
  | true => exact hyes t ts
  | false => exact hno t ts

/-- A question with the answer no at the border leads on only in front of it. -/
theorem agrees_nextIs_ite {p : Kind → Bool} (hp : GoesOn p) {x x' y y' : Reader (List Token) α}
    (hyes : B.AgreesAhead x y) (hno : B.Agrees x' y') :
    B.Agrees (nextIs p >>= fun b => if b then x else x')
      (nextIs p >>= fun b => if b then y else y') := by
  intro ts
  cases ts with
  | nil =>
    rw [nextIs_bind, nextIs_bind, kind_cut_nil, kind_closed_nil, hp.endOfInput, hp.closer]
    exact hno []
  | cons t ts => exact agreesAhead_nextIs_ite hyes hno.ahead t ts

theorem agreesAhead_accept (k : Kind) : B.AgreesAhead (accept k) (accept k) :=
  agreesAhead_nextIs_ite (agreesAhead_take.bind fun _ => agrees_pure _) (agrees_pure _).ahead

theorem agrees_accept {q : Punctuation} (hq : GoesOn (· == .punctuation q)) :
    B.Agrees (accept (.punctuation q)) (accept (.punctuation q)) :=
  agrees_nextIs_ite hq (agreesAhead_take.bind fun _ => agrees_pure _) (agrees_pure _)

/-- What depends on the shape of the next token, and is refused where a block could end. -/
theorem agrees_peek_bind {f g : Token → Reader (List Token) α}
    (hf : ∀ t, B.AgreesAhead (f t) (g t))
    (hnil : B.Agree (f B.last (B.cut [])) (g B.closer (B.closed []))) :
    B.Agrees (peek >>= f) (peek >>= g) := by
  intro ts
  rw [peek_bind, peek_bind]
  cases ts with
  | nil => exact hnil
  | cons t ts => exact hf t t ts

theorem shape_last : B.last.shape = .endOfInput := by
  have hkind : B.last.shape.kind = .endOfInput := B.kind_cut_nil
  cases hs : B.last.shape <;> rw [hs] at hkind <;> first | rfl | cases hkind

theorem shape_closer : B.closer.shape = .punctuation B.bracket.closer := by
  have hkind : B.closer.shape.kind = .punctuation B.bracket.closer := B.closer_kind
  cases hs : B.closer.shape <;> rw [hs] at hkind <;> cases hkind
  rfl

theorem agrees_name (p : Problem) : B.Agrees (name p) (name p) := by
  refine agrees_peek_bind (fun t => ?_) ?_
  · cases t.shape with
    | symbol n => exact agreesAhead_take.bind fun _ => agrees_pure _
    | _ => exact (agrees_refuse p p).ahead
  · rw [shape_last, shape_closer]
    exact .failed

theorem agrees_functionName : B.Agrees functionName functionName := by
  refine agrees_peek_bind (fun t => ?_) ?_
  · cases t.shape with
    | symbol n => exact agreesAhead_take.bind fun _ => agrees_pure _
    | _ => exact (agrees_pure none).ahead
  · rw [shape_last, shape_closer]
    exact agrees_pure none []

/-- The bounds on the two sides differ, and make no difference. -/
theorem bound_eq {f : Nat → Reader (List Token) α}
    (hf : ∀ {n ts}, pending ts ≤ n → f (n + 1) ts = f n ts) (ts : List Token) :
    f (TokenSupply.bound (B.cut ts)) (B.cut ts) =
      f (TokenSupply.bound (B.closed ts)) (B.cut ts) := by
  have hpending : pending (B.cut ts) ≤ (B.cut ts).length := List.countP_le_length
  have hlength : TokenSupply.bound (B.closed ts) = (B.closed ts).length := rfl
  refine eq_of_succ_eq (F := fun n => f n (B.cut ts)) (fun _ hn => hf hn) hpending ?_
  rw [hlength]
  simp only [cut, closed, List.length_append, List.length_cons, List.length_nil] at hpending ⊢
  omega

theorem agrees_bound {f g : Nat → Reader (List Token) α} (h : ∀ n, B.Agrees (f n) (g n))
    (hf : ∀ {n ts}, pending ts ≤ n → f (n + 1) ts = f n ts) :
    B.Agrees (get >>= fun ts => f (TokenSupply.bound ts))
      (get >>= fun ts => g (TokenSupply.bound ts)) := by
  intro ts
  rw [get_bind, get_bind, bound_eq hf]
  exact h _ ts

/-- A repetition whose items neither the end of input nor a closing bracket begins. -/
theorem AgreesAhead.many {begins : Kind → Bool} {x y : Reader (List Token) α}
    (h : B.AgreesAhead x y) (hbegins : GoesOn begins) (hx : Consumes begins x) :
    B.Agrees (many begins x) (many begins y) := by
  refine agrees_bound (fun n => ?_) fun hn => manyUpTo_succ hbegins.endOfInput hx hn
  induction n with
  | zero => exact agrees_pure _
  | succ n ih =>
    refine agrees_nextIs_ite hbegins ?_ (agrees_pure _)
    exact h.bind fun _ => ih.bind fun _ => agrees_pure _

/-! ### Parameters -/

/-- The readers agree, unless the second takes the closing bracket for its own. -/
def AgreesOrCloses (B : Border) (x y : Reader (List Token) α) : Prop :=
  ∀ ts, B.Agree (x (B.cut ts)) (y (B.closed ts)) ∨ ∃ a, y (B.closed ts) = .ok a B.after

theorem Agrees.bind_orCloses {x y : Reader (List Token) α} {f g : α → Reader (List Token) β}
    (h : B.Agrees x y) (hf : ∀ a, B.AgreesOrCloses (f a) (g a)) :
    B.AgreesOrCloses (x >>= f) (y >>= g) := by
  intro ts
  have hagree := h ts
  generalize hr : x (B.cut ts) = r at hagree
  generalize hs : y (B.closed ts) = s at hagree
  cases hagree with
  | ok =>
    rw [bind_of_ok hr, bind_of_ok hs]
    exact hf _ _
  | failed =>
    rw [bind_of_error hs]
    exact Or.inl .failed
  | breaksOff he =>
    rw [bind_of_error hr]
    exact Or.inl (.breaksOff he)

theorem AgreesOrCloses.map {x y : Reader (List Token) α} (h : B.AgreesOrCloses x y) (g : α → β) :
    B.AgreesOrCloses (x >>= fun a => pure (g a)) (y >>= fun a => pure (g a)) := by
  intro ts
  rcases h ts with hagree | ⟨a, hclosed⟩
  · exact Or.inl (hagree.bind fun _ => agrees_pure _)
  · exact Or.inr ⟨g a, by rw [bind_of_ok hclosed]; rfl⟩

theorem agreesOrCloses_ite {b : Bool} {x x' y y' : Reader (List Token) α}
    (hx : B.AgreesOrCloses x y) (hy : B.AgreesOrCloses x' y') :
    B.AgreesOrCloses (if b then x else x') (if b then y else y') := by
  cases b with
  | true => exact hx
  | false => exact hy

theorem Agrees.orCloses {x y : Reader (List Token) α} (h : B.Agrees x y) :
    B.AgreesOrCloses x y := fun ts => Or.inl (h ts)

/-- Where parameters may end, a closing parenthesis ends them. -/
theorem AgreesOrCloses.unlessClosed {f g : Reader (List Token) α} (h : B.AgreesOrCloses f g)
    (a : α) :
    B.AgreesOrCloses
      (accept (.punctuation .closeParen) >>= fun closed => if closed then pure a else f)
      (accept (.punctuation .closeParen) >>= fun closed => if closed then pure a else g) := by
  intro ts
  cases ts with
  | nil =>
    have hcut : kind (B.cut []) ≠ .punctuation .closeParen := by
      rw [kind_cut_nil]
      exact (punctuation_ne_endOfInput _).symm
    rw [bind_of_ok (accept_of_ne hcut)]
    by_cases hparen : kind (B.closed []) = .punctuation .closeParen
    · have hclosed : (accept (.punctuation .closeParen) : Reader (List Token) Bool)
          (B.closed []) = .ok true B.after := accept_cons hparen _
      rw [bind_of_ok hclosed]
      exact Or.inr ⟨a, rfl⟩
    · rw [bind_of_ok (accept_of_ne hparen)]
      exact h []
  | cons t ts =>
    rw [cut_cons, closed_cons]
    by_cases hparen : t.kind = .punctuation .closeParen
    · rw [bind_of_ok (accept_cons hparen _), bind_of_ok (accept_cons hparen _)]
      exact Or.inl .ok
    · have hne (us : List Token) : kind (t :: us) ≠ .punctuation .closeParen := hparen
      rw [bind_of_ok (accept_of_ne (hne _)), bind_of_ok (accept_of_ne (hne _))]
      exact h (t :: ts)

theorem agreesOrCloses_parametersUpTo (n : Nat) :
    B.AgreesOrCloses (parametersUpTo n) (parametersUpTo n) := by
  induction n with
  | zero => exact (agrees_pure []).orCloses
  | succ n ih =>
    refine (agrees_name _).bind_orCloses fun first => AgreesOrCloses.unlessClosed ?_ [first]
    refine (agrees_accept (goesOn_punctuation (by decide))).bind_orCloses fun separated => ?_
    exact agreesOrCloses_ite (ih.map _) (agrees_refuse _ _).orCloses

theorem agreesOrCloses_parameters : B.AgreesOrCloses parameters parameters := by
  refine (agrees_accept (goesOn_punctuation (by decide))).bind_orCloses fun opened => ?_
  refine agreesOrCloses_ite (AgreesOrCloses.unlessClosed ?_ []) (agrees_pure []).orCloses
  intro ts
  rw [get_bind, get_bind, bound_eq (f := fun n => parametersUpTo (n + 1))
    fun hn => parametersUpTo_succ (Nat.lt_succ_of_le hn)]
  exact agreesOrCloses_parametersUpTo _ ts

/-! ### Productions on both sides -/

section Productions

variable {x y : Reader (List Token) Expr} {b : Bracket}

theorem agrees_statement (h : B.Agrees x y) : B.Agrees (statement x b) (statement y b) :=
  agrees_nextIs_ite goesOn_startsExpression h.ahead (agrees_refuse _ _)

/-- Where a statement or the closing bracket has to come, the end of input is refused for want of a
    statement. -/
theorem agrees_unlessCloser {f g : Expr → Reader (List Token) α} (v : α) (h : B.Agrees x y)
    (hf : ∀ a, B.Agrees (f a) (g a)) :
    B.Agrees
      (nextIs (· == .punctuation b.closer) >>= fun closed =>
        if closed then pure v else statement x b >>= f)
      (nextIs (· == .punctuation b.closer) >>= fun closed =>
        if closed then pure v else statement y b >>= g) := by
  intro ts
  cases ts with
  | nil =>
    have hrefused : statement x b (B.cut []) =
        .error (.syntactic ⟨.statement b, B.last, none⟩) (B.cut []) := by
      rw [statement, nextIs_bind, kind_cut_nil]
      rfl
    have hmissing : (statement x b >>= f) (B.cut []) = _ := bind_of_error hrefused
    rw [nextIs_bind, kind_cut_nil]
    change B.Agree ((statement x b >>= f) (B.cut [])) _
    rw [hmissing]
    exact .breaksOff rfl
  | cons t ts =>
    exact agreesAhead_nextIs_ite (agrees_pure v).ahead ((agrees_statement h).bind hf).ahead t ts

theorem agrees_moreStatements (h : B.Agrees x y) (n : Nat) :
    B.Agrees (moreStatements x b n) (moreStatements y b n) := by
  induction n with
  | zero => exact agrees_pure _
  | succ n ih =>
    refine (agrees_accept (goesOn_punctuation (by decide))).bind fun separated =>
      agrees_ite (agrees_unlessCloser _ h fun first => ?_) (agrees_pure _)
    exact ih.bind fun _ => agrees_pure _

theorem agrees_statements (h : B.Agrees x y) (hx : Takes x (Builds .expression)) :
    B.Agrees (statements x b) (statements y b) := by
  refine agrees_unlessCloser _ h fun first => ?_
  have hmore (n : Nat) : B.Agrees
      (moreStatements x b n >>= fun v => pure (v.1, first :: v.2))
      (moreStatements y b n >>= fun v => pure (v.1, first :: v.2)) :=
    (agrees_moreStatements h n).bind fun _ => agrees_pure _
  exact agrees_bound hmore fun hn => bind_congr_left (moreStatements_succ hx b hn)

/-- Behind the statements of a block, the end of input does not close it. -/
theorem agreesAhead_block (h : B.Agrees x y) (hx : Takes x (Builds .expression)) :
    B.AgreesAhead (block x b) (block y b) := by
  refine agreesAhead_take.bind fun opening => (agrees_statements h hx).bind ?_
  rintro ⟨separated, body⟩ ts
  cases ts with
  | nil =>
    dsimp only
    rw [nextIs_bind, kind_cut_nil]
    exact .breaksOff rfl
  | cons t ts =>
    refine agreesAhead_nextIs_ite (agrees_refuse _ _).ahead ?_ t ts
    exact (agreesAhead_accept _).bind fun closed => agrees_ite (agrees_pure _) (agrees_refuse _ _)

theorem agrees_functionBody (h : B.Agrees x y) (hx : Takes x (Builds .expression)) :
    B.Agrees (functionBody x) (functionBody y) := by
  refine agrees_nextIs_ite (goesOn_punctuation (by decide)) (agreesAhead_block h hx) ?_
  exact agrees_nextIs_ite goesOn_startsExpression h.ahead (agrees_refuse _ _)

/-- A bracket that has closed the parameters leaves no body behind it. -/
theorem functionBody_after : ∃ e rest, functionBody y B.after = .error e rest := by
  have hstops := B.after_stops
  have hbrace : (kind B.after == .punctuation .openBrace) = false := by
    rw [beq_eq_false_iff_ne]
    intro hopen
    rw [hopen] at hstops
    cases hstops
  rw [functionBody, nextIs_bind, hbrace, if_neg (by decide), nextIs_bind, hstops]
  exact ⟨_, _, rfl⟩

theorem agreesAhead_function (h : B.Agrees x y) (hx : Takes x (Builds .expression)) :
    B.AgreesAhead (function x) (function y) := by
  refine agreesAhead_take.bind fun keyword => agrees_functionName.bind fun n ts => ?_
  rcases agreesOrCloses_parameters ts with hagree | ⟨ps, hclosed⟩
  · exact hagree.bind fun ps => (agrees_functionBody h hx).bind fun _ => agrees_pure _
  · obtain ⟨e, rest, hbody⟩ := functionBody_after (B := B) (y := y)
    rw [bind_of_ok hclosed, bind_of_error hbody]
    exact .failed

theorem agrees_operand (h : B.Agrees x y) (hx : Takes x (Builds .expression)) :
    B.Agrees (operand x) (operand y) := by
  refine agrees_peek_bind (fun t => ?_) ?_
  · cases t.shape with
    | integer _ | decimal _ _ | string _ _ | symbol _ =>
      exact agreesAhead_take.bind fun _ => agrees_pure _
    | endOfInput => exact (agrees_refuse _ _).ahead
    | keyword k =>
      cases k with
      | function => exact agreesAhead_function h hx
      | _ => exact (agrees_refuse _ _).ahead
    | punctuation p =>
      cases p with
      | openBrace => exact agreesAhead_block h hx
      | openParen => exact agreesAhead_block h hx
      | _ => exact (agrees_refuse _ _).ahead
  · rw [shape_last, shape_closer]
    cases B.bracket <;> exact .failed

theorem agrees_invoked (h : B.Agrees x y) (hx : Takes x (Builds .expression)) :
    B.Agrees (invoked x) (invoked y) := by
  refine (agrees_operand h hx).bind fun target => ?_
  exact (agreesAhead_take.many (goesOn_punctuation (by decide)) take_consumes).bind
    fun _ => agrees_pure _

theorem agreesAhead_step (h : B.Agrees x y) (hx : Takes x (Builds .expression)) :
    B.AgreesAhead (step x) (step y) := by
  refine agreesAhead_take.bind fun _ => ?_
  refine agrees_nextIs_ite goesOn_startsOperand (Agrees.ahead ?_) (agrees_refuse _ _)
  refine (agrees_invoked h hx).bind fun operator => ?_
  exact ((agrees_invoked h hx).ahead.many goesOn_startsOperand (invoked_consumes hx _)).bind
    fun _ => agrees_pure _

theorem agrees_chained (h : B.Agrees x y) (hx : Takes x (Builds .expression)) :
    B.Agrees (chained x) (chained y) := by
  refine (agrees_invoked h hx).bind fun seed => ?_
  exact ((agreesAhead_step h hx).many (goesOn_punctuation (by decide)) (step_consumes hx)).bind
    fun _ => agrees_pure _

theorem agrees_application (h : B.Agrees x y) (hx : Takes x (Builds .expression)) :
    B.Agrees (application x) (application y) := by
  refine (agrees_chained h hx).bind fun callee => ?_
  exact ((agrees_chained h hx).ahead.many goesOn_startsOperand (chained_consumes hx _)).bind
    fun _ => agrees_pure _

theorem agreesAhead_assignment (h : B.Agrees x y) (k : Keyword) :
    B.AgreesAhead (assignment x k) (assignment y k) := by
  refine agreesAhead_take.bind fun token => (agrees_name _).bind fun bound => ?_
  refine agrees_nextIs_ite goesOn_startsExpression ?_ (agrees_refuse _ _)
  exact (h.bind fun _ => agrees_pure _).ahead

theorem agrees_expressionOver (h : B.Agrees x y) (hx : Takes x (Builds .expression)) :
    B.Agrees (expressionOver x) (expressionOver y) := by
  refine agrees_peek_bind (fun t => ?_) ?_
  · cases t.kind with
    | keyword k =>
      cases k with
      | function => exact (agrees_application h hx).ahead
      | _ => exact agreesAhead_assignment h _
    | _ => exact (agrees_application h hx).ahead
  · rw [Token.kind, shape_last, B.closer_kind]
    exact agrees_application h hx []

theorem agrees_expression (depth : Nat) : B.Agrees (expression depth) (expression depth) := by
  induction depth with
  | zero => exact agrees_refuse _ _
  | succ depth ih => exact agrees_expressionOver ih (expression_takes depth)

/-- **A program is read in the same way up to the border**, unless a block breaks off there. -/
theorem agrees_program (depth : Nat) : B.Agrees (program depth) (program depth) := by
  refine agrees_nextIs_ite goesOn_startsExpression (Agrees.ahead ?_) (agrees_refuse _ _)
  refine (agrees_expression depth).bind fun e ts => ?_
  cases ts with
  | nil =>
    have hended : (kind (B.closed []) == .endOfInput) = false := by
      rw [kind_closed_nil]
      rfl
    have hrefused : (nextIs (· == .endOfInput) >>= fun ended =>
        if ended then pure e else (refuse .trailing : Reader (List Token) Expr)) (B.closed []) =
          .error (.syntactic ⟨.trailing, B.closer, none⟩) (B.closed []) := by
      rw [nextIs_bind, hended]
      rfl
    rw [hrefused]
    exact .failed
  | cons t ts =>
    exact agreesAhead_nextIs_ite (agrees_pure e).ahead (agrees_refuse _ _).ahead t ts

end Productions

end Border

/-! ### Blocks that break off -/

/-- The second token closes the bracket that is the first one. -/
def Closes (o c : Token) : Prop :=
  ∃ b : Bracket, o.kind = .punctuation b.opener ∧ c.kind = .punctuation b.closer

variable {depth : Nat} {us cs rest : List Token} {o last ends : Token} {outer : List Token}
  {e : Expr}

/-- What has an open bracket is no program. -/
theorem not_program_of_unclosed (hopen : unclosed us = o :: outer) (hlast : last.isEnd = true)
    (hus : ∀ t ∈ us, t.isEnd = false) :
    program depth (us ++ [last]) ≠ .ok e rest := by
  intro h
  obtain ⟨used, hts, hbuilds, hrest⟩ := program_takes h
  obtain rfl := eq_of_append_eq hts hbuilds.isEnd hus hlast hrest
  rw [hbuilds.generates.balanced.unclosed_eq_nil] at hopen
  cases hopen

/-- Where all open brackets could be closed, the end of input is refused for want of a statement or
    of the closing bracket. -/
theorem breaksOff_of_closes (hopen : unclosed us = o :: outer) (hlast : last.isEnd = true)
    (hus : ∀ t ∈ us, t.isEnd = false) (hcs : List.Forall₂ Closes (o :: outer) cs)
    (hends : ends.isEnd = true)
    (haccepted : program depth (us ++ cs ++ [ends]) = .ok e rest) :
    ∃ error, program depth (us ++ [last]) = .error error [last] ∧ error.blamesBlock = true := by
  cases hcs with
  | @cons _ c _ closers hfirst hclosers =>
  obtain ⟨b, -, hc⟩ := hfirst
  have hafter : Kind.startsExpression (kind (closers ++ [ends])) = false := by
    cases hclosers with
    | nil =>
      have hkind : kind [ends] = .endOfInput := by simpa [Token.isEnd] using hends
      rw [List.nil_append, hkind]
      rfl
    | cons hfirst _ =>
      obtain ⟨b', -, hcloser⟩ := hfirst
      rw [List.cons_append, kind_cons, hcloser]
      exact goesOn_startsExpression.closer b'
  let B : Border := ⟨last, c, closers ++ [ends], hlast, b, hc, hafter⟩
  have hagree := Border.agrees_program (B := B) depth us
  have hclosed : B.closed us = us ++ c :: closers ++ [ends] := by simp [B, Border.closed]
  rw [hclosed, haccepted] at hagree
  generalize hr : program depth (B.cut us) = r at hagree
  cases hagree with
  | ok => exact absurd hr (not_program_of_unclosed hopen hlast hus)
  | breaksOff he => exact ⟨_, hr, he⟩

/-- **What is reported where a block breaks off** is a matter of the token in front of the end of
    input. -/
theorem refusesWithin_of_closes (hopen : unclosed us = o :: outer) (hlast : last.isEnd = true)
    (hus : ∀ t ∈ us, t.isEnd = false) (hcs : List.Forall₂ Closes (o :: outer) cs)
    (hends : ends.isEnd = true)
    (haccepted : program depth (us ++ cs ++ [ends]) = .ok e rest) :
    ∃ b before inner p, o.kind = .punctuation b.opener ∧ us = before ++ o :: inner ∧
      unclosed before = outer ∧ Balanced inner ∧
      RefusesWithin depth (us ++ [last]) ⟨p, last, none⟩ ∧
      (p = .statement b ∧ AwaitsStatement inner ∨
        p = .unclosed b o.location ∧ ¬ AwaitsStatement inner) := by
  obtain ⟨error, hrefused, herror⟩ := breaksOff_of_closes hopen hlast hus hcs hends haccepted
  obtain ⟨used, hts, hblames⟩ := blamed_program depth (us ++ [last])
  rw [hrefused] at hts
  obtain rfl := List.append_cancel_right hts
  have hwithin {p : Problem} {t : Token} {l : Option String}
      (he : error = .syntactic ⟨p, t, l⟩) : RefusesWithin depth (us ++ [last]) ⟨p, last, none⟩ := by
    subst he
    obtain ⟨before, after, hsplit, hagain⟩ := refusesWithin_of_cons hrefused
    obtain rfl : l = none := sourceLine_eq_none hrefused
    rw [hrefused] at hagain
    cases hagain
    exact ⟨before, [], hsplit, hrefused⟩
  have hsame {before inner : List Token} {o' : Token} {b : Bracket}
      (ho' : o'.kind = .punctuation b.opener) (hinner : Balanced inner)
      (hus : us = before ++ o' :: inner) : o' = o ∧ unclosed before = outer := by
    rw [hus, hinner.unclosed_opened ho'] at hopen
    exact List.cons.inj hopen
  obtain ⟨used, hus'⟩ : ∃ used, us = used := ⟨us, rfl⟩
  have hused : Blames error used [last] := hus' ▸ hblames _ _ hrefused
  cases hused with
  | @statement b before inner _ o' _ _ ho' hinner hawaits =>
    obtain ⟨rfl, houter⟩ := hsame ho' hinner hus'
    exact ⟨b, before, inner, _, ho', hus', houter, hinner, hwithin rfl, Or.inl ⟨rfl, hawaits⟩⟩
  | @unclosed b before inner _ o' _ _ ho' hinner hawaits =>
    obtain ⟨rfl, houter⟩ := hsame ho' hinner hus'
    exact ⟨b, before, inner, _, ho', hus', houter, hinner, hwithin rfl, Or.inr ⟨rfl, hawaits⟩⟩
  | none he =>
    rw [he] at herror
    cases herror

end Juxta.Grammar

/-! ### Texts -/

namespace Juxta.Program

open Grammar

/-- **An unclosed block is reported by its bracket, unless a statement could begin.**  Where the end
    of a text is inside blocks that could all be closed, the end of input is refused.  The innermost
    open bracket is named if a statement has ended there; right behind this bracket, or behind a `;`,
    a statement is missing instead. -/
theorem unclosed_reported_iff {depth : Nat} {text : String} {filename : Option String}
    {us cs rest outer : List Token} {o last ends : Token} {k : Cursor} {e : Expr}
    (h : Scanner.all (.start text.toList filename) = .ok (us ++ [last]) k)
    (hopen : unclosed us = o :: outer) (hcs : List.Forall₂ Closes (o :: outer) cs)
    (hends : ends.isEnd = true) (haccepted : program depth (us ++ cs ++ [ends]) = .ok e rest) :
    ∃ b before inner p line, o.kind = .punctuation b.opener ∧ us = before ++ o :: inner ∧
      unclosed before = outer ∧ Balanced inner ∧
      parseTo depth text filename = .error (.syntactic ⟨p, last, line⟩) ∧
      (p = .unclosed b o.location ↔ ¬ AwaitsStatement inner) ∧
      (p = .statement b ↔ AwaitsStatement inner) := by
  have hscans := Scanner.scans_of_all h
  obtain ⟨us', last', hsplit, hlast, hus⟩ := Scanner.exists_last hscans
  obtain ⟨rfl, hsingle⟩ := List.append_inj' hsplit rfl
  obtain rfl := List.singleton_injective hsingle
  obtain ⟨b, before, inner, p, ho, rfl, houter, hinner, hrefused, hproblem⟩ :=
    refusesWithin_of_closes hopen hlast hus hcs hends haccepted
  have hread := (parseTo_eq_syntactic_iff hscans).mpr ⟨_, hrefused, rfl⟩
  refine ⟨b, before, inner, p, _, ho, rfl, houter, hinner, hread, ?_⟩
  rcases hproblem with ⟨rfl, hawaits⟩ | ⟨rfl, hawaits⟩
  · exact ⟨iff_of_false nofun (not_not_intro hawaits), iff_of_true rfl hawaits⟩
  · exact ⟨iff_of_true rfl hawaits, iff_of_false nofun hawaits⟩

/-- Behind the `;` in a block that only has to be closed, a statement is missing. -/
theorem not_unclosed_reported_separator :
    ∃ us o last ends k e rest line,
      Scanner.all (.start "f \x7b a;".toList none) = .ok (us ++ [last]) k ∧
      unclosed us = [o] ∧ List.Forall₂ Closes [o] [sample (.punctuation .closeBrace)] ∧
      ends.isEnd = true ∧
      program 9 (us ++ [sample (.punctuation .closeBrace)] ++ [ends]) = .ok e rest ∧
      parseTo 9 "f \x7b a;" = .error (.syntactic ⟨.statement .brace, last, line⟩) ∧
      ∀ line, parseTo 9 "f \x7b a;" ≠
        .error (.syntactic ⟨.unclosed .brace o.location, last, line⟩) := by
  let o : Token := ⟨.punctuation .openBrace, ⟨1, 3, 2, 1, none⟩⟩
  let us : List Token := [⟨.symbol "f", ⟨1, 1, 0, 1, none⟩⟩, o, ⟨.symbol "a", ⟨1, 5, 4, 1, none⟩⟩,
    ⟨.punctuation .semicolon, ⟨1, 6, 5, 1, none⟩⟩]
  let last : Token := ⟨.endOfInput, ⟨1, 7, 6, 0, none⟩⟩
  obtain ⟨k, h⟩ : ∃ k, Scanner.all (.start "f \x7b a;".toList none) = .ok (us ++ [last]) k :=
    ⟨_, rfl⟩
  obtain ⟨e, rest, haccepted⟩ : ∃ e rest,
      program 9 (us ++ [sample (.punctuation .closeBrace)] ++ [TokenList.ending]) = .ok e rest :=
    ⟨_, _, rfl⟩
  have hcs : List.Forall₂ Closes [o] [sample (.punctuation .closeBrace)] :=
    .cons ⟨.brace, rfl, rfl⟩ .nil
  obtain ⟨b, before, inner, p, line, ho, hus, -, -, hread, -, hmissing⟩ :=
    unclosed_reported_iff h rfl hcs rfl haccepted
  have hawaits : AwaitsStatement inner := by
    by_cases hnil : inner = []
    · subst hnil
      exact awaitsStatement_nil
    · have hend : AwaitsStatement us := by simp [AwaitsStatement, us, Token.kind, Shape.kind]
      rw [hus, List.append_cons, awaitsStatement_append hnil] at hend
      exact hend
  obtain rfl := hmissing.mpr hawaits
  obtain rfl : b = .brace := by
    cases b with
    | brace => rfl
    | paren => cases ho
  refine ⟨us, o, last, TokenList.ending, k, e, rest, line, h, rfl, hcs, rfl, haccepted, hread,
    fun line' hunclosed => ?_⟩
  rw [hread] at hunclosed
  cases hunclosed

end Juxta.Program
