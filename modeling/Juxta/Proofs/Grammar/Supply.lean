/-
  Juxta/Proofs/Grammar/Supply.lean
  ================================
  **Two supplies in step** — the grammar reads from any supply of tokens.  When another supply
  gives the tokens of a list, the grammar cannot tell the two apart: `agrees_program` follows
  every production on both and keeps the results in step.

    * `Pairing`: which supplies go with which lists, and which failures of the supply end the
      comparison;
    * `Pairing.Agree`: the results of a reader on both.  They are the same value, or the same
      refusal of the token that comes next; or the supply has failed in one of these ways;
    * `Pairing.Agrees`: the results agree wherever the reader starts.

  The bound of a repetition differs between the two supplies, but both exceed the number of
  tokens that can be taken (`TokenList.pending`), and then it makes no difference.

  The first pairing is that of scanning on demand and scanning first: a source scans its text
  only as far as the grammar looks, a list has all tokens from the start
  (`TokenSource.pairing`).
-/
import Juxta.Proofs.Grammar.Derivation
import Juxta.Proofs.Token.Sequence

namespace Juxta

open TokenList

/-! ### Tokens that can be taken -/

namespace TokenList

/-- How many tokens of a list can be taken. -/
def pending (ts : List Token) : Nat := ts.countP (!·.isEnd)

theorem pending_cons {t : Token} (h : t.isEnd = false) (ts : List Token) :
    pending (t :: ts) = pending ts + 1 := by
  simp [pending, h]

theorem pending_append {us : List Token} (h : ∀ t ∈ us, t.isEnd = false)
    (ts : List Token) : pending (us ++ ts) = us.length + pending ts := by
  have hus : us.countP (!·.isEnd) = us.length := List.countP_eq_length.mpr (by simpa using h)
  rw [pending, List.countP_append, hus, pending]

theorem kind_of_pending {ts : List Token} (h : pending ts = 0) : kind ts = .endOfInput := by
  cases ts with
  | nil => rfl
  | cons t ts =>
    have ht : t.isEnd = true := by
      simpa using List.countP_eq_zero.mp h t List.mem_cons_self
    simpa [Token.isEnd] using ht

/-- The tokens after the first one; the end of input stays. -/
def tail : List Token → List Token
  | [] => []
  | t :: ts => if t.isEnd then t :: ts else ts

theorem next_eq (ts : List Token) : TokenList.next ts = .ok (ts.headD ending) (tail ts) := by
  cases ts with
  | nil => rfl
  | cons t ts =>
    rw [TokenList.next, tail]
    cases t.isEnd <;> rfl

end TokenList

theorem Cursor.Scans.pending_le {k : Cursor} {ts : List Token} {f : Option ScanError}
    (h : Scans k ts f) : pending ts ≤ k.rest.length := by
  induction h with
  | last _ ht => simp [pending, ht]
  | fault _ => simp [pending]
  | more hn ht _ ih =>
    have hlt := Scanner.length_rest_lt hn ht
    rw [pending_cons ht]
    omega

namespace Grammar

/-! ### Repetitions whose bound exceeds the tokens -/

section Bounds

variable {α : Type}

theorem Consumes.pending_lt {begins : Kind → Bool} {x : Reader (List Token) α}
    (h : Consumes begins x) {ts rest : List Token} {a : α} (hbegins : begins (kind ts) = true)
    (hx : x ts = .ok a rest) : pending rest < pending ts := by
  obtain ⟨used, rfl, hne, hused⟩ := h hbegins hx
  have hpos : 0 < used.length := List.length_pos_iff.mpr hne
  rw [pending_append hused]
  omega

/-- What no longer changes from some bound on is the same for any two bounds beyond it. -/
theorem eq_of_succ_eq {F : Nat → α} {p : Nat} (h : ∀ n, p ≤ n → F (n + 1) = F n) {n m : Nat}
    (hn : p ≤ n) (hm : p ≤ m) : F n = F m := by
  have hstart : ∀ i, F (p + i) = F p := by
    intro i
    induction i with
    | zero => rfl
    | succ i ih => rw [← Nat.add_assoc, h _ (Nat.le_add_right p i), ih]
  rw [← Nat.add_sub_cancel' hn, ← Nat.add_sub_cancel' hm, hstart, hstart]

theorem manyUpTo_succ {begins : Kind → Bool} {item : Reader (List Token) α}
    (hend : begins .endOfInput = false) (hitem : Consumes begins item) {n : Nat}
    {ts : List Token} (hn : pending ts ≤ n) :
    manyUpTo begins item (n + 1) ts = manyUpTo begins item n ts := by
  induction n generalizing ts with
  | zero =>
    have hdone : begins (kind ts) = false := by rw [kind_of_pending (Nat.le_zero.mp hn), hend]
    rw [manyUpTo_done hdone, manyUpTo_done hdone]
  | succ n ih =>
    cases hbegins : begins (kind ts) with
    | false => rw [manyUpTo_done hbegins, manyUpTo_done hbegins]
    | true =>
      rw [manyUpTo_more hbegins, manyUpTo_more hbegins]
      refine bind_congr fun x mid hx => ?_
      have hlt := hitem.pending_lt hbegins hx
      exact bind_congr_left (ih (by omega))

theorem moreStatements_succ {nested : Reader (List Token) Expr}
    (hn : Takes nested (Builds .expression)) (b : Bracket) {n : Nat} {ts : List Token}
    (hle : pending ts ≤ n) :
    moreStatements nested b (n + 1) ts = moreStatements nested b n ts := by
  induction n generalizing ts with
  | zero =>
    have hdone : kind ts ≠ .punctuation .semicolon := by
      rw [kind_of_pending (Nat.le_zero.mp hle)]
      exact (punctuation_ne_endOfInput .semicolon).symm
    rw [moreStatements_done b hdone, moreStatements_done b hdone]
  | succ n ih =>
    refine bind_congr fun separated mid hseparated => ?_
    rcases accept_eq_ok.mp hseparated with ⟨rfl, t, rfl, ht⟩ | ⟨rfl, rfl, -⟩
    · rw [pending_cons (isEnd_of_punctuation ht)] at hle
      change (nextIs _ >>= _) mid = (nextIs _ >>= _) mid
      rw [nextIs_bind, nextIs_bind]
      cases kind mid == .punctuation b.closer with
      | true => rfl
      | false =>
        refine bind_congr fun first mid' hfirst => ?_
        obtain ⟨used, rfl, hused⟩ := statement_takes hn b hfirst
        rw [pending_append hused.isEnd] at hle
        exact bind_congr_left (ih (by omega))
    · rfl

theorem parametersUpTo_succ {n : Nat} {ts : List Token} (hn : pending ts < n) :
    (parametersUpTo (n + 1) : Reader (List Token) (List String)) ts = parametersUpTo n ts := by
  induction n generalizing ts with
  | zero => omega
  | succ n ih =>
    refine bind_congr fun first mid hfirst => ?_
    obtain ⟨t, rfl, ht⟩ := name_eq_ok.mp hfirst
    refine bind_congr fun closed mid' hclosed => ?_
    rcases accept_eq_ok.mp hclosed with ⟨rfl, c, rfl, hc⟩ | ⟨rfl, rfl, -⟩
    · rfl
    · refine bind_congr fun separated mid'' hseparated => ?_
      rcases accept_eq_ok.mp hseparated with ⟨rfl, c, rfl, hc⟩ | ⟨rfl, rfl, -⟩
      · rw [pending_cons (isEnd_of_shape_eq_symbol ht),
          pending_cons (isEnd_of_punctuation hc)] at hn
        exact bind_congr_left (ih (by omega))
      · rfl

end Bounds

/-! ### Readers that go forward -/

section Forward

variable {α β : Type}

/-- What a computation leaves behind, also when it fails. -/
def remaining {ε σ : Type} : EStateM.Result ε σ α → σ
  | .ok _ s | .error _ s => s

/-- The reader takes tokens off the front of a list, and never the end of input. -/
def Forward (y : Reader (List Token) α) : Prop :=
  ∀ ts, ∃ used, ts = used ++ remaining (y ts) ∧ ∀ t ∈ used, t.isEnd = false

theorem forward_of_remaining {y : Reader (List Token) α} (h : ∀ ts, remaining (y ts) = ts) :
    Forward y := by
  intro ts
  refine ⟨[], ?_, by simp⟩
  rw [h, List.nil_append]

theorem forward_take : Forward take := by
  intro ts
  have htake : remaining ((take : Reader (List Token) Token) ts) = tail ts := by
    change remaining (EStateM.adaptExcept _ TokenList.next ts) = _
    rw [EStateM.adaptExcept, next_eq]
    rfl
  rw [htake]
  cases ts with
  | nil => exact ⟨[], rfl, by simp⟩
  | cons t ts =>
    rw [tail]
    cases ht : t.isEnd with
    | true => exact ⟨[], rfl, by simp⟩
    | false => exact ⟨[t], rfl, by simpa using ht⟩

theorem forward_bind {y : Reader (List Token) α} {k : α → Reader (List Token) β}
    (hy : Forward y) (hk : ∀ a, Forward (k a)) : Forward (y >>= k) := by
  intro ts
  obtain ⟨used, hts, hused⟩ := hy ts
  cases h : y ts with
  | ok a mid =>
    rw [h] at hts
    rw [bind_of_ok h]
    obtain ⟨later, hmid, hlater⟩ := hk a mid
    refine ⟨used ++ later, ?_, List.forall_mem_append.mpr ⟨hused, hlater⟩⟩
    rw [List.append_assoc, ← hmid]
    exact hts
  | error e mid =>
    rw [h] at hts
    rw [bind_of_error h]
    exact ⟨used, hts, hused⟩

end Forward

/-! ### Results in step -/

end Grammar

/-- Which supplies give the tokens of which lists.  A failure is excused when it says nothing
    about the list; the tokens that are left then may play a part. -/
structure Pairing (σ : Type) [TokenSupply σ] where
  Holds : σ → List Token → Prop
  Excuses : ParseError → List Token → Prop
  excuses_suffix : ∀ {e : ParseError} {ts us : List Token},
    Excuses e ts → us <:+ ts → Excuses e us
  pending_le : ∀ {s : σ} {ts : List Token}, Holds s ts → pending ts ≤ TokenSupply.bound s
  peek : ∀ {s : σ} {ts : List Token}, Holds s ts →
    (∃ e s', TokenSupply.peek s = .error e s' ∧ Excuses (.scan e) ts) ∨
      ∃ s', TokenSupply.peek s = .ok (ts.headD ending) s' ∧
        TokenSupply.peek s' = .ok (ts.headD ending) s' ∧ Holds s' ts
  next : ∀ {s : σ} {ts : List Token}, Holds s ts →
    (∃ e s', TokenSupply.next s = .error e s' ∧ Excuses (.scan e) ts) ∨
      ∃ s', TokenSupply.next s = .ok (ts.headD ending) s' ∧ Holds s' (tail ts)

namespace Pairing

variable {σ : Type} [TokenSupply σ]

open Grammar

/-- The results of a reader on a supply and on the list of its tokens. -/
inductive Agree {α : Type} (P : Pairing σ) :
    EStateM.Result ParseError σ α → EStateM.Result ParseError (List Token) α → Prop where
  | ok {a : α} {s : σ} {ts : List Token} : P.Holds s ts → Agree P (.ok a s) (.ok a ts)
  | refused {p : Problem} {t : Token} {l m : Option String} {s : σ} {ts : List Token} :
      t = ts.headD ending → TokenSupply.peek s = .ok t s → P.Holds s ts →
      l = TokenSupply.lineText? s t.location.line →
      Agree P (.error (.syntactic ⟨p, t, l⟩) s) (.error (.syntactic ⟨p, t, m⟩) ts)
  | excused {e : ParseError} {s : σ} {r : EStateM.Result ParseError (List Token) α} :
      P.Excuses e (remaining r) → Agree P (.error e s) r

/-- A reader gives results in step on every supply and the list of its tokens. -/
structure Agrees {α : Type} (P : Pairing σ) (x : Reader σ α) (y : Reader (List Token) α) :
    Prop where
  forward : Forward y
  agree : ∀ {s ts}, P.Holds s ts → P.Agree (x s) (y ts)

end Pairing

namespace Grammar

section Agreement

variable {α β σ : Type} [TokenSupply σ] {P : Pairing σ}

/-- What is excused stays excused, whatever is read from the list. -/
theorem Forward.excuses {y : Reader (List Token) α} (hy : Forward y) {e : ParseError}
    {ts : List Token} (h : P.Excuses e ts) : P.Excuses e (remaining (y ts)) := by
  obtain ⟨used, hts, -⟩ := hy ts
  exact P.excuses_suffix h ⟨used, hts.symm⟩

theorem agrees_bind {x : Reader σ α} {y : Reader (List Token) α} {g : α → Reader σ β}
    {k : α → Reader (List Token) β} (h : P.Agrees x y) (hg : ∀ a, P.Agrees (g a) (k a)) :
    P.Agrees (x >>= g) (y >>= k) := by
  refine ⟨forward_bind h.forward fun a => (hg a).forward, fun {s ts} hs => ?_⟩
  have hagree := h.agree hs
  cases hx : x s with
  | ok a s' =>
    rw [hx] at hagree
    rw [bind_of_ok hx]
    cases hy : y ts with
    | ok b ts' =>
      rw [hy] at hagree
      rw [bind_of_ok hy]
      cases hagree with
      | ok hs' => exact (hg a).agree hs'
    | error e ts' =>
      rw [hy] at hagree
      cases hagree
  | error e s' =>
    rw [hx] at hagree
    rw [bind_of_error hx]
    cases hy : y ts with
    | ok b ts' =>
      rw [hy] at hagree
      rw [bind_of_ok hy]
      cases hagree with
      | excused he => exact .excused ((hg b).forward.excuses he)
    | error e' ts' =>
      rw [hy] at hagree
      rw [bind_of_error hy]
      cases hagree with
      | refused ht hpeek hs' hline => exact .refused ht hpeek hs' hline
      | excused he => exact .excused he

theorem agrees_pure (a : α) : P.Agrees (pure a) (pure a) :=
  ⟨forward_of_remaining fun _ => rfl, fun hs => .ok hs⟩

/-- A supply that is looked at fails, or shows the first of its tokens and keeps it. -/
theorem peek_of_holds {s : σ} {ts : List Token} (h : P.Holds s ts) :
    (∃ e s', (peek : Reader σ Token) s = .error e s' ∧ P.Excuses e ts) ∨
      ∃ s', (peek : Reader σ Token) s = .ok (ts.headD ending) s' ∧
        TokenSupply.peek s' = .ok (ts.headD ending) s' ∧ P.Holds s' ts := by
  change (∃ e s', EStateM.adaptExcept _ TokenSupply.peek s = _ ∧ _) ∨
    ∃ s', EStateM.adaptExcept _ TokenSupply.peek s = _ ∧ _
  rcases P.peek h with ⟨e, s', hpeek, he⟩ | ⟨s', hpeek, hagain, hs'⟩
  · refine Or.inl ⟨.scan e, s', ?_, he⟩
    simp only [EStateM.adaptExcept, hpeek]
  · refine Or.inr ⟨s', ?_, hagain, hs'⟩
    simp only [EStateM.adaptExcept, hpeek]

theorem agrees_peek : P.Agrees peek peek := by
  refine ⟨forward_of_remaining fun _ => rfl, fun {s ts} hs => ?_⟩
  have hlist : (peek : Reader (List Token) Token) ts = .ok (ts.headD ending) ts := rfl
  rw [hlist]
  rcases peek_of_holds hs with ⟨e, s', hpeek, he⟩ | ⟨s', hpeek, -, hs'⟩
  · rw [hpeek]
    exact .excused he
  · rw [hpeek]
    exact .ok hs'

theorem agrees_take : P.Agrees take take := by
  refine ⟨forward_take, fun {s ts} hs => ?_⟩
  have hlist : (take : Reader (List Token) Token) ts = .ok (ts.headD ending) (tail ts) := by
    change EStateM.adaptExcept _ TokenList.next ts = _
    rw [EStateM.adaptExcept, next_eq]
  rcases P.next hs with ⟨e, s', hnext, he⟩ | ⟨s', hnext, hs'⟩
  · have hsupply : (take : Reader σ Token) s = .error (.scan e) s' := by
      change EStateM.adaptExcept _ TokenSupply.next s = _
      simp only [EStateM.adaptExcept, hnext]
    rw [hsupply]
    exact .excused (forward_take.excuses he)
  · have hsupply : (take : Reader σ Token) s = .ok (ts.headD ending) s' := by
      change EStateM.adaptExcept _ TokenSupply.next s = _
      simp only [EStateM.adaptExcept, hnext]
    rw [hsupply, hlist]
    exact .ok hs'

theorem agrees_refuse (p : Problem) : P.Agrees (refuse p : Reader σ α) (refuse p) := by
  refine ⟨forward_of_remaining fun _ => rfl, fun {s ts} hs => ?_⟩
  rcases peek_of_holds hs with ⟨e, s', hpeek, he⟩ | ⟨s', hpeek, hagain, hs'⟩
  · rw [refuse, bind_of_error hpeek]
    exact .excused he
  · rw [refuse, bind_of_ok hpeek]
    exact .refused rfl hagain hs' rfl

theorem agrees_nextIs (p : Kind → Bool) : P.Agrees (nextIs p) (nextIs p) :=
  agrees_bind agrees_peek fun _ => agrees_pure _

theorem agrees_ite {b : Bool} {x y : Reader σ α} {x' y' : Reader (List Token) α}
    (hx : P.Agrees x x') (hy : P.Agrees y y') :
    P.Agrees (if b then x else y) (if b then x' else y') := by
  cases b with
  | true => exact hx
  | false => exact hy

theorem agrees_accept (k : Kind) : P.Agrees (accept k) (accept k) := by
  refine agrees_bind (agrees_nextIs _) fun b => agrees_ite ?_ (agrees_pure _)
  exact agrees_bind agrees_take fun _ => agrees_pure _

theorem agrees_name (p : Problem) : P.Agrees (name p) (name p) := by
  refine agrees_bind agrees_peek fun t => ?_
  cases t.shape with
  | symbol n => exact agrees_bind agrees_take fun _ => agrees_pure _
  | _ => exact agrees_refuse p

theorem agrees_functionName : P.Agrees functionName functionName := by
  refine agrees_bind agrees_peek fun t => ?_
  cases t.shape with
  | symbol n => exact agrees_bind agrees_take fun _ => agrees_pure _
  | _ => exact agrees_pure _

/-- The bounds of the two supplies differ, and make no difference. -/
theorem agrees_bound {x : Nat → Reader σ α} {y : Nat → Reader (List Token) α}
    (h : ∀ n, P.Agrees (x n) (y n))
    (hy : ∀ {n ts}, pending ts ≤ n → y (n + 1) ts = y n ts) :
    P.Agrees (get >>= fun s => x (TokenSupply.bound s))
      (get >>= fun ts => y (TokenSupply.bound ts)) := by
  refine ⟨fun ts => ?_, fun {s ts} hs => ?_⟩
  · rw [get_bind]
    exact (h _).forward ts
  · rw [get_bind, get_bind]
    have hbound : y (TokenSupply.bound s) ts = y (TokenSupply.bound ts) ts :=
      eq_of_succ_eq (F := fun n => y n ts) (fun _ hn => hy hn) (P.pending_le hs)
        List.countP_le_length
    rw [← hbound]
    exact (h _).agree hs

theorem agrees_manyUpTo {begins : Kind → Bool} {x : Reader σ α} {y : Reader (List Token) α}
    (h : P.Agrees x y) (n : Nat) : P.Agrees (manyUpTo begins x n) (manyUpTo begins y n) := by
  induction n with
  | zero => exact agrees_pure _
  | succ n ih =>
    refine agrees_bind (agrees_nextIs _) fun b => agrees_ite ?_ (agrees_pure _)
    exact agrees_bind h fun _ => agrees_bind ih fun _ => agrees_pure _

theorem agrees_many {begins : Kind → Bool} {x : Reader σ α} {y : Reader (List Token) α}
    (h : P.Agrees x y) (hend : begins .endOfInput = false) (hy : Consumes begins y) :
    P.Agrees (many begins x) (many begins y) :=
  agrees_bound (fun n => agrees_manyUpTo h n) fun hn => manyUpTo_succ hend hy hn

end Agreement

/-! ### Productions in step -/

section Productions

variable {σ : Type} [TokenSupply σ] {P : Pairing σ}

theorem agrees_parametersUpTo (n : Nat) :
    P.Agrees (parametersUpTo n) (parametersUpTo n) := by
  induction n with
  | zero => exact agrees_pure _
  | succ n ih =>
    refine agrees_bind (agrees_name _) fun first => ?_
    refine agrees_bind (agrees_accept _) fun closed => agrees_ite (agrees_pure _) ?_
    refine agrees_bind (agrees_accept _) fun separated => agrees_ite ?_ (agrees_refuse _)
    exact agrees_bind ih fun _ => agrees_pure _

theorem agrees_parameters : P.Agrees parameters parameters := by
  refine agrees_bind (agrees_accept _) fun opened => agrees_ite ?_ (agrees_pure _)
  refine agrees_bind (agrees_accept _) fun closed => agrees_ite (agrees_pure _) ?_
  exact agrees_bound (fun n => agrees_parametersUpTo (n + 1))
    fun hn => parametersUpTo_succ (Nat.lt_succ_of_le hn)

variable {x : Reader σ Expr} {y : Reader (List Token) Expr}

theorem agrees_statement (h : P.Agrees x y) (b : Bracket) :
    P.Agrees (statement x b) (statement y b) :=
  agrees_bind (agrees_nextIs _) fun _ => agrees_ite h (agrees_refuse _)

theorem agrees_moreStatements (h : P.Agrees x y) (b : Bracket) (n : Nat) :
    P.Agrees (moreStatements x b n) (moreStatements y b n) := by
  induction n with
  | zero => exact agrees_pure _
  | succ n ih =>
    refine agrees_bind (agrees_accept _) fun separated => agrees_ite ?_ (agrees_pure _)
    refine agrees_bind (agrees_nextIs _) fun closed => agrees_ite (agrees_pure _) ?_
    refine agrees_bind (agrees_statement h b) fun first => ?_
    exact agrees_bind ih fun _ => agrees_pure _

theorem agrees_statements (h : P.Agrees x y) (hy : Takes y (Builds .expression)) (b : Bracket) :
    P.Agrees (statements x b) (statements y b) := by
  refine agrees_bind (agrees_nextIs _) fun closed => agrees_ite (agrees_pure _) ?_
  refine agrees_bind (agrees_statement h b) fun first => ?_
  have hmore : ∀ n, P.Agrees
      (moreStatements x b n >>= fun v => pure (v.1, first :: v.2))
      (moreStatements y b n >>= fun v => pure (v.1, first :: v.2)) :=
    fun n => agrees_bind (agrees_moreStatements h b n) fun _ => agrees_pure _
  exact agrees_bound hmore fun hn => bind_congr_left (moreStatements_succ hy b hn)

theorem agrees_block (h : P.Agrees x y) (hy : Takes y (Builds .expression)) (b : Bracket) :
    P.Agrees (block x b) (block y b) := by
  refine agrees_bind agrees_take fun opening => ?_
  refine agrees_bind (agrees_statements h hy b) fun _ => ?_
  refine agrees_bind (agrees_nextIs _) fun ended => agrees_ite (agrees_refuse _) ?_
  exact agrees_bind (agrees_accept _) fun closed => agrees_ite (agrees_pure _) (agrees_refuse _)

theorem agrees_functionBody (h : P.Agrees x y) (hy : Takes y (Builds .expression)) :
    P.Agrees (functionBody x) (functionBody y) := by
  refine agrees_bind (agrees_nextIs _) fun braces => agrees_ite (agrees_block h hy .brace) ?_
  exact agrees_bind (agrees_nextIs _) fun _ => agrees_ite h (agrees_refuse _)

theorem agrees_function (h : P.Agrees x y) (hy : Takes y (Builds .expression)) :
    P.Agrees (function x) (function y) := by
  refine agrees_bind agrees_take fun keyword => ?_
  refine agrees_bind agrees_functionName fun n => ?_
  refine agrees_bind agrees_parameters fun ps => ?_
  exact agrees_bind (agrees_functionBody h hy) fun _ => agrees_pure _

theorem agrees_operand (h : P.Agrees x y) (hy : Takes y (Builds .expression)) :
    P.Agrees (operand x) (operand y) := by
  refine agrees_bind agrees_peek fun t => ?_
  cases t.shape with
  | integer _ | decimal _ _ | string _ _ | symbol _ =>
    exact agrees_bind agrees_take fun _ => agrees_pure _
  | endOfInput => exact agrees_refuse _
  | keyword k =>
    cases k with
    | function => exact agrees_function h hy
    | _ => exact agrees_refuse _
  | punctuation p =>
    cases p with
    | openBrace => exact agrees_block h hy .brace
    | openParen => exact agrees_block h hy .paren
    | _ => exact agrees_refuse _

theorem agrees_invoked (h : P.Agrees x y) (hy : Takes y (Builds .expression)) :
    P.Agrees (invoked x) (invoked y) := by
  refine agrees_bind (agrees_operand h hy) fun target => ?_
  exact agrees_bind (agrees_many agrees_take rfl take_consumes) fun _ => agrees_pure _

theorem agrees_step (h : P.Agrees x y) (hy : Takes y (Builds .expression)) :
    P.Agrees (step x) (step y) := by
  refine agrees_bind agrees_take fun _ => ?_
  refine agrees_bind (agrees_nextIs _) fun _ => agrees_ite ?_ (agrees_refuse _)
  refine agrees_bind (agrees_invoked h hy) fun p => ?_
  exact agrees_bind (agrees_many (agrees_invoked h hy) rfl (invoked_consumes hy _))
    fun _ => agrees_pure _

theorem agrees_chained (h : P.Agrees x y) (hy : Takes y (Builds .expression)) :
    P.Agrees (chained x) (chained y) := by
  refine agrees_bind (agrees_invoked h hy) fun seed => ?_
  exact agrees_bind (agrees_many (agrees_step h hy) rfl (step_consumes hy)) fun _ => agrees_pure _

theorem agrees_application (h : P.Agrees x y) (hy : Takes y (Builds .expression)) :
    P.Agrees (application x) (application y) := by
  refine agrees_bind (agrees_chained h hy) fun callee => ?_
  exact agrees_bind (agrees_many (agrees_chained h hy) rfl (chained_consumes hy _))
    fun _ => agrees_pure _

theorem agrees_assignment (h : P.Agrees x y) (k : Keyword) :
    P.Agrees (assignment x k) (assignment y k) := by
  refine agrees_bind agrees_take fun token => ?_
  refine agrees_bind (agrees_name _) fun bound => ?_
  refine agrees_bind (agrees_nextIs _) fun _ => agrees_ite ?_ (agrees_refuse _)
  exact agrees_bind h fun _ => agrees_pure _

theorem agrees_expressionOver (h : P.Agrees x y) (hy : Takes y (Builds .expression)) :
    P.Agrees (expressionOver x) (expressionOver y) := by
  refine agrees_bind agrees_peek fun t => ?_
  cases t.kind with
  | keyword k =>
    cases k with
    | function => exact agrees_application h hy
    | _ => exact agrees_assignment h _
  | _ => exact agrees_application h hy

theorem agrees_expression (depth : Nat) : P.Agrees (expression depth) (expression depth) := by
  induction depth with
  | zero => exact agrees_refuse _
  | succ depth ih => exact agrees_expressionOver ih (expression_takes depth)

/-- The list may be read to a greater depth, if it is excused that the reader of the supply
    refuses to nest so deeply. -/
theorem agrees_expression_of_le (h : ∀ t l ts, P.Excuses (.syntactic ⟨.nesting, t, l⟩) ts)
    {depth depth' : Nat} (hle : depth ≤ depth') :
    P.Agrees (expression depth) (expression depth') := by
  induction depth generalizing depth' with
  | zero =>
    have hforward := (agrees_expression (P := P) depth').forward
    refine ⟨hforward, fun {s ts} hs => ?_⟩
    rcases peek_of_holds hs with ⟨e, s', hpeek, he⟩ | ⟨s', hpeek, -, -⟩
    · rw [expression, refuse, bind_of_error hpeek]
      exact .excused (hforward.excuses he)
    · rw [expression, refuse, bind_of_ok hpeek]
      exact .excused (h _ _ _)
  | succ depth ih =>
    obtain ⟨more, rfl⟩ := Nat.exists_eq_add_of_le' hle
    exact agrees_expressionOver (ih (Nat.le_add_left depth more)) (expression_takes _)

theorem agrees_programOver {depth depth' : Nat}
    (h : P.Agrees (expression depth) (expression depth')) :
    P.Agrees (program depth) (program depth') := by
  refine agrees_bind (agrees_nextIs _) fun _ => agrees_ite ?_ (agrees_refuse _)
  refine agrees_bind h fun e => ?_
  exact agrees_bind (agrees_nextIs _) fun _ => agrees_ite (agrees_pure _) (agrees_refuse _)

/-- **A program read from a supply is the program read from its tokens.** -/
theorem agrees_program (depth : Nat) : P.Agrees (program depth) (program depth) :=
  agrees_programOver (agrees_expression depth)

end Productions

end Grammar

/-! ### What a source holds -/

namespace TokenSource

/-- The tokens that a source will give, and the fault after them. -/
inductive Holds : TokenSource → List Token → Option ScanError → Prop where
  | waiting {k : Cursor} {ts : List Token} {f : Option ScanError} :
      k.Scans ts f → Holds ⟨k, none⟩ ts f
  | looked {k : Cursor} {t : Token} {ts : List Token} {f : Option ScanError} :
      t.isEnd = false → k.Scans ts f → Holds ⟨k, some t⟩ (t :: ts) f
  | ended {k : Cursor} {t : Token} : t.isEnd = true → Holds ⟨k, some t⟩ [t] none

variable {s : TokenSource} {ts : List Token} {f : Option ScanError}

theorem Holds.pending_le (h : s.Holds ts f) : pending ts ≤ TokenSupply.bound s := by
  cases h with
  | waiting hs => exact Nat.le_succ_of_le hs.pending_le
  | looked ht hs =>
    rw [pending_cons ht]
    exact Nat.succ_le_succ hs.pending_le
  | ended ht => simp [pending, ht]

/-- A source that is looked at meets its fault, or keeps the first of its tokens at hand. -/
theorem Holds.peek (h : s.Holds ts f) :
    (∃ e s', f = some e ∧ TokenSource.peek s = .error e s') ∨
      ∃ s', TokenSource.peek s = .ok (ts.headD ending) s' ∧
        s'.lookahead = some (ts.headD ending) ∧ s'.Holds ts f := by
  cases h with
  | @waiting k ts f hk =>
    cases hk with
    | @last _ k' t hn ht =>
      have hpeek : TokenSource.peek ⟨k, none⟩ = .ok t ⟨k', some t⟩ := by
        simp only [TokenSource.peek, hn]
      exact Or.inr ⟨_, hpeek, rfl, .ended ht⟩
    | @fault _ k' e hn =>
      have hpeek : TokenSource.peek ⟨k, none⟩ = .error e ⟨k', none⟩ := by
        simp only [TokenSource.peek, hn]
      exact Or.inl ⟨e, _, rfl, hpeek⟩
    | @more _ k' t ts _ hn ht hk' =>
      have hpeek : TokenSource.peek ⟨k, none⟩ = .ok t ⟨k', some t⟩ := by
        simp only [TokenSource.peek, hn]
      exact Or.inr ⟨_, hpeek, rfl, .looked ht hk'⟩
  | looked ht hk => exact Or.inr ⟨_, rfl, rfl, .looked ht hk⟩
  | ended ht => exact Or.inr ⟨_, rfl, rfl, .ended ht⟩

theorem peek_of_lookahead {t : Token} (h : s.lookahead = some t) :
    TokenSource.peek s = .ok t s := by
  rw [TokenSource.peek, h]

theorem lookahead_of_peek {s' : TokenSource} {t : Token} (h : TokenSource.peek s = .ok t s') :
    s'.lookahead = some t := by
  rw [TokenSource.peek] at h
  cases hlook : s.lookahead with
  | some u =>
    rw [hlook] at h
    cases h
    exact hlook
  | none =>
    rw [hlook] at h
    cases hnext : Scanner.next s.cursor with
    | ok u k =>
      rw [hnext] at h
      cases h
      rfl
    | error e k =>
      rw [hnext] at h
      cases h

theorem next_of_peek {s' : TokenSource} {t : Token} (h : TokenSource.peek s = .ok t s') :
    TokenSource.next s = .ok t (if t.isEnd then s' else { s' with lookahead := none }) := by
  rw [TokenSource.next, Grammar.bind_of_ok h]
  cases t.isEnd <;> rfl

theorem Holds.next (h : s.Holds ts f) :
    (∃ e s', f = some e ∧ TokenSource.next s = .error e s') ∨
      ∃ s', TokenSource.next s = .ok (ts.headD ending) s' ∧ s'.Holds (tail ts) f := by
  rcases h.peek with ⟨e, s', hf, hpeek⟩ | ⟨s', hpeek, hahead, hs'⟩
  · exact Or.inl ⟨e, s', hf, by rw [TokenSource.next, Grammar.bind_of_error hpeek]⟩
  · refine Or.inr ⟨_, next_of_peek hpeek, ?_⟩
    cases hs' with
    | waiting hk => cases hahead
    | looked ht hk =>
      cases hahead
      rw [List.headD_cons, tail, ht]
      exact .waiting hk
    | ended ht =>
      cases hahead
      rw [List.headD_cons, tail, ht]
      exact .ended ht

/-- A source meets its fault behind the last of its tokens. -/
theorem Holds.eq_nil_of_peek (h : s.Holds ts f) {e : ScanError} {s' : TokenSource}
    (hpeek : TokenSource.peek s = .error e s') : ts = [] := by
  cases h with
  | waiting hk =>
    cases hk with
    | fault => rfl
    | last hn | more hn =>
      simp only [TokenSource.peek, hn] at hpeek
      cases hpeek
  | looked | ended => cases hpeek

theorem Holds.eq_nil_of_next (h : s.Holds ts f) {e : ScanError} {s' : TokenSource}
    (hnext : TokenSource.next s = .error e s') : ts = [] := by
  cases hpeek : TokenSource.peek s with
  | ok t k =>
    rw [next_of_peek hpeek] at hnext
    cases hnext
  | error e k => exact h.eq_nil_of_peek hpeek

/-- **Scanning on demand and scanning first**: sources and the lists of their tokens.  It is
    excused that a source meets the fault behind its tokens, when none of them is left. -/
def pairing (f : Option ScanError) : Pairing TokenSource where
  Holds s ts := s.Holds ts f
  Excuses e ts := ∃ fault, f = some fault ∧ e = .scan fault ∧ ts = []
  excuses_suffix := by
    rintro e ts us ⟨fault, hf, he, rfl⟩ hus
    exact ⟨fault, hf, he, List.suffix_nil.mp hus⟩
  pending_le := Holds.pending_le
  peek := by
    intro s ts hs
    rcases hs.peek with ⟨e, s', hf, hpeek⟩ | ⟨s', hpeek, hahead, hs'⟩
    · exact Or.inl ⟨e, s', hpeek, e, hf, rfl, hs.eq_nil_of_peek hpeek⟩
    · exact Or.inr ⟨s', hpeek, peek_of_lookahead hahead, hs'⟩
  next := by
    intro s ts hs
    rcases hs.next with ⟨e, s', hf, hnext⟩ | ⟨s', hnext, hs'⟩
    · exact Or.inl ⟨e, s', hnext, e, hf, rfl, hs.eq_nil_of_next hnext⟩
    · exact Or.inr ⟨s', hnext, hs'⟩

end TokenSource

end Juxta
