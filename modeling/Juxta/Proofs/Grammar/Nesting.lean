/-
  Juxta/Proofs/Grammar/Nesting.lean
  =================================
  **How deeply the grammar goes** — where the grammar reads an expression inside another one, a
  bracket, a value or a body has begun and not ended, and no more than two of them are for each
  expression around it.  Repetitions nest nothing.

  `Keeps lo hi S ts r post` says of the result `r` of reading from `ts`, with `S` open: never are
  more than `hi` open behind a token that is taken; where the reader succeeds, what is open then
  and the tokens that are left satisfy `post`; and where it refuses to nest any deeper, at least
  `lo - 1` are open.

  An expression may leave values open (`Ended`), and then the next token is none that could go on
  with them: it closes them, or nothing can be done with it.
-/
import Juxta.Grammar.Nesting
import Juxta.Proofs.Grammar.Context
import Juxta.Proofs.Grammar.Demand

namespace Juxta.Grammar

open TokenList

/-! ### The stack -/

section Stack

variable {S : List Unfinished} {k : Kind} {n : Nat}

@[simp] theorem height_nil : height [] = 0 := rfl

@[simp] theorem height_cons (i : Unfinished) (S : List Unfinished) :
    height (i :: S) = i.weight + height S := rfl

@[simp] theorem advanceAll_nil (S : List Unfinished) : advanceAll S [] = S := rfl

@[simp] theorem advanceAll_cons (S : List Unfinished) (t : Token) (ts : List Token) :
    advanceAll S (t :: ts) = advanceAll (advance t.kind S) ts := rfl

@[simp] theorem advanceAll_append (S : List Unfinished) (us vs : List Token) :
    advanceAll S (us ++ vs) = advanceAll (advanceAll S us) vs :=
  List.foldl_append

/-- No binding and no function has just begun. -/
def Settled (S : List Unfinished) : Prop := ∀ i ∈ S.head?, i.isHeading = false

theorem settled_cons {i : Unfinished} (h : i.isHeading = false) (S : List Unfinished) :
    Settled (i :: S) := by
  simpa [Settled] using h

theorem Settled.values (h : Settled S) (n : Nat) : Settled (List.replicate n .value ++ S) := by
  cases n with
  | zero => exact h
  | succ n => exact settled_cons rfl _

theorem Settled.advance_eq (h : Settled S) (k : Kind) : advance k S = inside k S := by
  cases S with
  | nil => rfl
  | cons i S =>
    have hi : i.isHeading = false := h i (by simp)
    cases i with
    | bracket | value | braced => rfl
    | _ => cases hi

/-- A block ends the values in it. -/
theorem dropValues_values {i : Unfinished} (h : i ≠ .value) (n : Nat) (S : List Unfinished) :
    dropValues (List.replicate n .value ++ i :: S) = i :: S := by
  induction n with
  | zero => simp [dropValues, h]
  | succ n ih => simpa [List.replicate_succ, dropValues] using ih

/-- What a block puts on the stack: its bracket, or a whole body of a function. -/
def Unfinished.IsBlock (i : Unfinished) : Prop := i = .bracket ∨ i = .braced

variable {i : Unfinished}

theorem Unfinished.IsBlock.settled (h : i.IsBlock) (S : List Unfinished) : Settled (i :: S) := by
  rcases h with rfl | rfl
  · exact settled_cons rfl S
  · exact settled_cons rfl S

theorem Unfinished.IsBlock.ne_value (h : i.IsBlock) : i ≠ .value := by
  rcases h with rfl | rfl <;> decide

theorem Unfinished.IsBlock.advance_semicolon (h : i.IsBlock) (n : Nat) (S : List Unfinished) :
    advance (.punctuation .semicolon) (List.replicate n .value ++ i :: S) = i :: S := by
  rw [((h.settled S).values n).advance_eq]
  exact dropValues_values h.ne_value n S

theorem Unfinished.IsBlock.advance_closer (h : i.IsBlock) (b : Bracket) (n : Nat)
    (S : List Unfinished) :
    advance (.punctuation b.closer) (List.replicate n .value ++ i :: S) = S := by
  rw [((h.settled S).values n).advance_eq]
  have hdrop := congrArg List.tail (dropValues_values h.ne_value n S)
  cases b with
  | paren => exact hdrop
  | brace => exact hdrop

/-- The stack stays below the bound behind each of the tokens. -/
def Below (hi : Nat) (S : List Unfinished) : List Token → Prop
  | [] => True
  | t :: ts => height (advance t.kind S) ≤ hi ∧ Below hi (advance t.kind S) ts

theorem below_append {hi : Nat} {us vs : List Token} :
    Below hi S (us ++ vs) ↔ Below hi S us ∧ Below hi (advanceAll S us) vs := by
  induction us generalizing S with
  | nil => simp [Below]
  | cons t us ih => simp [Below, ih, and_assoc]

theorem Below.height_le {hi : Nat} {us : List Token} (h : Below hi S us) (hS : height S ≤ hi)
    {vs : List Token} (hvs : vs <+: us) : height (advanceAll S vs) ≤ hi := by
  obtain ⟨ws, rfl⟩ := hvs
  replace h := (below_append.mp h).1
  induction vs generalizing S with
  | nil => exact hS
  | cons t vs ih => exact ih h.1 h.2

end Stack

/-! ### Where repetitions end -/

section Ends

variable {α : Type} {begins : Kind → Bool} {x : Reader (List Token) α} {ts rest : List Token}
  {xs : List α}

/-- A repetition ends where no other item begins. -/
theorem many_stops (hend : begins .endOfInput = false) (hx : Consumes begins x)
    (h : many begins x ts = .ok xs rest) : begins (kind rest) = false := by
  have hmany := Many.of_manyUpTo hend hx List.countP_le_length h
  clear h
  induction hmany with
  | done hbegins => exact hbegins
  | more _ _ _ ih => exact ih

/-- What holds where an item ends, holds where a repetition ends. -/
theorem many_leaves (hend : begins .endOfInput = false) (hx : Consumes begins x)
    {P : List Token → Prop} (hitem : ∀ {us a vs}, x us = .ok a vs → P vs) (hstart : P ts)
    (h : many begins x ts = .ok xs rest) : P rest := by
  have hmany := Many.of_manyUpTo hend hx List.countP_le_length h
  clear h
  induction hmany with
  | done => exact hstart
  | more _ hfirst _ ih => exact ih (hitem hfirst)

variable {nested : Reader (List Token) Expr} (hn : Takes nested (Builds .expression))

theorem invoked_leaves_bang {e : Expr} (h : invoked nested ts = .ok e rest) :
    kind rest ≠ .punctuation .bang := by
  obtain ⟨target, mid, -, h⟩ := bind_eq_ok.mp h
  obtain ⟨marks, mid', hmarks, h⟩ := bind_eq_ok.mp h
  obtain ⟨-, rfl⟩ := pure_eq_ok.mp h
  simpa using many_stops rfl take_consumes hmarks

include hn

theorem step_leaves_bang {s : Step} (h : step nested ts = .ok s rest) :
    kind rest ≠ .punctuation .bang := by
  obtain ⟨mark, mid, -, h⟩ := bind_eq_ok.mp h
  rw [nextIs_bind] at h
  split at h
  · obtain ⟨operator, mid', hoperator, h⟩ := bind_eq_ok.mp h
    obtain ⟨extra, mid'', hextra, h⟩ := bind_eq_ok.mp h
    obtain ⟨-, rfl⟩ := pure_eq_ok.mp h
    exact many_leaves rfl (invoked_consumes hn _) invoked_leaves_bang
      (invoked_leaves_bang hoperator) hextra
  · exact absurd h (refuse_ne_ok _ _ _ _)

theorem chained_leaves_marks {e : Expr} (h : chained nested ts = .ok e rest) :
    kind rest ≠ .punctuation .bang ∧ kind rest ≠ .punctuation .backtick := by
  obtain ⟨seed, mid, hseed, h⟩ := bind_eq_ok.mp h
  obtain ⟨steps, mid', hsteps, h⟩ := bind_eq_ok.mp h
  obtain ⟨-, rfl⟩ := pure_eq_ok.mp h
  constructor
  · exact many_leaves rfl (step_consumes hn) (step_leaves_bang hn) (invoked_leaves_bang hseed)
      hsteps
  · simpa using many_stops rfl (step_consumes hn) hsteps

/-- **Calls, chains and marks go on as long as they can.** -/
theorem application_leaves {e : Expr} (h : application nested ts = .ok e rest) : Stops rest := by
  obtain ⟨callee, mid, hcallee, h⟩ := bind_eq_ok.mp h
  obtain ⟨arguments, mid', harguments, h⟩ := bind_eq_ok.mp h
  obtain ⟨-, rfl⟩ := pure_eq_ok.mp h
  have hmarks := many_leaves rfl (chained_consumes hn _) (chained_leaves_marks hn)
    (chained_leaves_marks hn hcallee) harguments
  exact ⟨many_stops rfl (chained_consumes hn _) harguments, hmarks.1, hmarks.2⟩

end Ends

/-! ### Reading with something open -/

section Keeping

variable {α β : Type} {lo hi : Nat} {S : List Unfinished} {ts : List Token} {k : Kind}
  {P Q : List Unfinished → List Token → Prop}

/-- What reading from `ts` with `S` open comes to, keeps the number of what is open within the
    bounds. -/
def Keeps (lo hi : Nat) (S : List Unfinished) (ts : List Token)
    (r : EStateM.Result ParseError (List Token) α)
    (post : List Unfinished → List Token → Prop) : Prop :=
  ∃ used, ts = used ++ remaining r ∧ Below hi S used ∧
    (∀ a rest, r = .ok a rest → post (advanceAll S used) rest) ∧
    ∀ t l rest, r = .error (.syntactic ⟨.nesting, t, l⟩) rest →
      lo ≤ height (advanceAll S used) + 1

theorem keeps_pure {a : α} (h : P S ts) :
    Keeps lo hi S ts ((pure a : Reader (List Token) α) ts) P := by
  refine ⟨[], rfl, trivial, ?_, ?_⟩
  · rintro _ _ ⟨⟩
    exact h
  · rintro _ _ _ ⟨⟩

theorem keeps_refuse {p : Problem} (h : p = .nesting → lo ≤ height S + 1) :
    Keeps lo hi S ts ((refuse p : Reader (List Token) α) ts) P := by
  refine ⟨[], rfl, trivial, ?_, ?_⟩
  · rintro _ _ ⟨⟩
  · intro t l rest hrefused
    change EStateM.Result.error _ ts = _ at hrefused
    cases hrefused
    exact h rfl

theorem Keeps.cons {r : EStateM.Result ParseError (List Token) α} {t : Token}
    (ht : height (advance t.kind S) ≤ hi) (h : Keeps lo hi (advance t.kind S) ts r P) :
    Keeps lo hi S (t :: ts) r P := by
  obtain ⟨used, rfl, hused, hok, herror⟩ := h
  exact ⟨t :: used, rfl, ⟨ht, hused⟩, hok, herror⟩

theorem Keeps.bind {x : Reader (List Token) α} {f : α → Reader (List Token) β}
    (hx : Keeps lo hi S ts (x ts) Q)
    (hf : ∀ a S' rest, x ts = .ok a rest → Q S' rest → Keeps lo hi S' rest (f a rest) P) :
    Keeps lo hi S ts ((x >>= f) ts) P := by
  obtain ⟨us, hts, hus, hok, herror⟩ := hx
  cases h : x ts with
  | ok a mid =>
    obtain ⟨vs, hmid, hvs, hok', herror'⟩ := hf a _ mid h (hok a mid h)
    rw [h] at hts
    rw [bind_of_ok h]
    refine ⟨us ++ vs, ?_, below_append.mpr ⟨hus, hvs⟩, ?_, ?_⟩
    · rw [List.append_assoc, ← hmid]
      exact hts
    · simpa using hok'
    · simpa using herror'
  | error e mid =>
    rw [h] at hts
    rw [bind_of_error h]
    refine ⟨us, hts, hus, ?_, ?_⟩
    · rintro _ _ ⟨⟩
    · rintro t l _ ⟨⟩
      exact herror t l mid h

theorem Keeps.mono {r : EStateM.Result ParseError (List Token) α} (h : Keeps lo hi S ts r Q)
    (hweaken : ∀ S' rest, Q S' rest → P S' rest) : Keeps lo hi S ts r P := by
  obtain ⟨used, hts, hused, hok, herror⟩ := h
  exact ⟨used, hts, hused, fun a rest hr => hweaken _ _ (hok a rest hr), herror⟩

theorem keeps_take (hk : kind ts = k) (hend : k ≠ .endOfInput)
    (hroom : height (advance k S) ≤ hi) :
    Keeps lo hi S ts ((take : Reader (List Token) Token) ts) fun S' _ => S' = advance k S := by
  obtain ⟨t, us, rfl, -, ht⟩ := exists_cons_of_kind (p := (· == k)) (by simpa using hend.symm)
    (beq_iff_eq.mpr hk)
  subst hk
  rw [take_cons ht]
  exact Keeps.cons hroom (keeps_pure rfl)

theorem keeps_nextIs {p : Kind → Bool} {x y : Reader (List Token) α}
    (hyes : p (kind ts) = true → Keeps lo hi S ts (x ts) P)
    (hno : p (kind ts) = false → Keeps lo hi S ts (y ts) P) :
    Keeps lo hi S ts ((nextIs p >>= fun b => if b then x else y) ts) P := by
  rw [nextIs_bind]
  cases h : p (kind ts) with
  | true => exact hyes h
  | false => exact hno h

theorem keeps_accept {q : Punctuation} {x y : Reader (List Token) α}
    (hyes : ∀ t rest, ts = t :: rest → t.kind = .punctuation q →
      height (advance t.kind S) ≤ hi ∧ Keeps lo hi (advance t.kind S) rest (x rest) P)
    (hno : kind ts ≠ .punctuation q → Keeps lo hi S ts (y ts) P) :
    Keeps lo hi S ts ((accept (.punctuation q) >>= fun b => if b then x else y) ts) P := by
  by_cases h : kind ts = .punctuation q
  · obtain ⟨t, us, rfl, -, -⟩ := exists_cons_of_kind (p := (· == .punctuation q)) rfl
      (beq_iff_eq.mpr h)
    rw [kind_cons] at h
    have hrest := hyes t us rfl h
    rw [bind_of_ok (accept_cons h us)]
    exact Keeps.cons hrest.1 hrest.2
  · rw [bind_of_ok (accept_of_ne h)]
    exact hno h

theorem keeps_name {p : Problem} (hp : p ≠ .nesting) (hroom : height (advance .symbol S) ≤ hi) :
    Keeps lo hi S ts ((name p : Reader (List Token) String) ts)
      fun S' rest => S' = advance .symbol S ∧ rest.length < ts.length := by
  cases ts with
  | nil => exact keeps_refuse fun hnesting => absurd hnesting hp
  | cons t ts =>
    by_cases h : t.kind = .symbol
    · obtain ⟨n, hn⟩ := exists_shape_of_kind h
      rw [name_cons hn]
      refine Keeps.cons (by rwa [h]) (keeps_pure ⟨by rw [h], by simp⟩)
    · rw [name, peek_bind]
      cases hs : t.shape with
      | symbol n => exact absurd (by rw [Token.kind, hs]; rfl) h
      | _ =>
        simp only [List.headD_cons, hs]
        exact keeps_refuse fun hnesting => absurd hnesting hp

theorem keeps_many {begins : Kind → Bool} {item : Reader (List Token) α}
    (hitem : ∀ S ts, P S ts → begins (kind ts) = true → Keeps lo hi S ts (item ts) P)
    (h : P S ts) : Keeps lo hi S ts (many begins item ts) P := by
  rw [many, get_bind]
  generalize TokenSupply.bound ts = n
  induction n generalizing S ts with
  | zero => exact keeps_pure h
  | succ n ih =>
    apply keeps_nextIs
    · intro hbegins
      apply (hitem S ts h hbegins).bind
      intro a S' rest _ hS'
      apply (ih hS').bind
      intro later S'' rest' _ hS''
      exact keeps_pure hS''
    · intro _
      exact keeps_pure h

end Keeping

/-! ### Productions -/

/-- There is room for `d` expressions inside each other. -/
structure Room (lo hi : Nat) (S : List Unfinished) (d : Nat) : Prop where
  low : lo ≤ height S + d
  high : height S + 2 * d ≤ hi

/-- An expression comes next with `S` open.  What begins with it has not been put on the stack
    yet, if it comes behind a name or behind parameters. -/
structure Before (S S₀ : List Unfinished) (ts : List Token) : Prop where
  settled : Settled S
  advance_eq : advance (kind ts) S₀ = inside (kind ts) S
  height_le : height S ≤ height S₀ + 1

/-- An expression has ended, with values left open that go no further. -/
def Ended (S S' : List Unfinished) (rest : List Token) : Prop :=
  (∃ n, S' = List.replicate n .value ++ S) ∧ Stops rest

/-- An operand has ended, which may go on unless values are left open. -/
def Rests (S S' : List Unfinished) (rest : List Token) : Prop := S' = S ∨ Ended S S' rest

/-- The reader of a nested expression goes on for `d` expressions inside each other. -/
def Nests (lo hi d : Nat) (x : Reader (List Token) Expr) : Prop :=
  ∀ ⦃S S₀ ts⦄, Before S S₀ ts → Room lo hi S d → Keeps lo hi S₀ ts (x ts) (Ended S)

section Productions

variable {lo hi d : Nat} {S S₀ S' : List Unfinished} {ts rest : List Token} {i : Unfinished}

theorem Room.push (h : Room lo hi S (d + 1)) (hpos : 0 < i.weight) (hle : i.weight ≤ 2) :
    Room lo hi (i :: S) d := by
  have hlow := h.low
  have hhigh := h.high
  constructor
  · simp only [height_cons]
    omega
  · simp only [height_cons]
    omega

theorem Room.height_le (h : Room lo hi S (d + 1)) : height S + 2 ≤ hi := by
  have hhigh := h.high
  omega

theorem Unfinished.IsBlock.room (hi' : i.IsBlock) (h : Room lo hi S (d + 1)) :
    Room lo hi (i :: S) d ∧ height (i :: S) ≤ hi := by
  have hheight := h.height_le
  rcases hi' with rfl | rfl
  · exact ⟨h.push (by decide) (by decide), by simp [Unfinished.weight]; omega⟩
  · exact ⟨h.push (by decide) (by decide), by simp [Unfinished.weight]; omega⟩

theorem Settled.before (h : Settled S) (ts : List Token) : Before S S ts :=
  ⟨h, h.advance_eq _, Nat.le_succ _⟩

theorem Rests.eq_of_goes_on (h : Rests S S' rest) (hgo : ¬ Stops rest) : S' = S := by
  rcases h with h | ⟨-, hstops⟩
  · exact h
  · exact absurd hstops hgo

theorem Rests.ended (h : Rests S S' rest) (hstops : Stops rest) : Ended S S' rest := by
  rcases h with rfl | h
  · exact ⟨⟨0, rfl⟩, hstops⟩
  · exact h

theorem Ended.of_value (h : Ended (.value :: S) S' rest) : Ended S S' rest := by
  obtain ⟨⟨n, rfl⟩, hstops⟩ := h
  refine ⟨⟨n + 1, ?_⟩, hstops⟩
  rw [List.replicate_succ', List.append_assoc]
  rfl

variable {nested : Reader (List Token) Expr} (hn : Nests lo hi d nested)
include hn

/-! #### Blocks -/

theorem keeps_statement (hS : Settled S) (hroom : Room lo hi S d) (b : Bracket) :
    Keeps lo hi S ts (statement nested b ts) (Ended S) := by
  apply keeps_nextIs
  · intro _
    exact hn (hS.before ts) hroom
  · intro _
    exact keeps_refuse nofun

theorem keeps_moreStatements (hblock : i.IsBlock) (hroom : Room lo hi S (d + 1)) (b : Bracket)
    (n m : Nat) :
    Keeps lo hi (List.replicate m .value ++ i :: S) ts (moreStatements nested b n ts)
      fun S' _ => ∃ m', S' = List.replicate m' .value ++ i :: S := by
  induction n generalizing m ts with
  | zero => exact keeps_pure ⟨m, rfl⟩
  | succ n ih =>
    apply keeps_accept
    · intro t rest _ ht
      rw [ht, hblock.advance_semicolon]
      refine ⟨(hblock.room hroom).2, ?_⟩
      apply keeps_nextIs
      · intro _
        exact keeps_pure ⟨0, rfl⟩
      · intro _
        apply (keeps_statement hn (hblock.settled S) (hblock.room hroom).1 b).bind
        rintro first S' rest' - ⟨⟨m', rfl⟩, -⟩
        apply (ih m').bind
        intro later S' rest'' _ hS'
        exact keeps_pure hS'
    · intro _
      exact keeps_pure ⟨m, rfl⟩

theorem keeps_statements (hblock : i.IsBlock) (hroom : Room lo hi S (d + 1)) (b : Bracket) :
    Keeps lo hi (i :: S) ts (statements nested b ts)
      fun S' _ => ∃ m, S' = List.replicate m .value ++ i :: S := by
  apply keeps_nextIs
  · intro _
    exact keeps_pure ⟨0, rfl⟩
  · intro _
    apply (keeps_statement hn (hblock.settled S) (hblock.room hroom).1 b).bind
    rintro first S' rest - ⟨⟨m, rfl⟩, -⟩
    rw [get_bind]
    apply (keeps_moreStatements hn hblock hroom b _ m).bind
    intro later S' rest' _ hS'
    exact keeps_pure hS'

/-- A block ends what has begun in it. -/
theorem keeps_block {b : Bracket} (hkind : kind ts = .punctuation b.opener)
    (hopen : advance (.punctuation b.opener) S₀ = i :: S) (hblock : i.IsBlock)
    (hroom : Room lo hi S (d + 1)) :
    Keeps lo hi S₀ ts (block nested b ts) fun S' _ => S' = S := by
  have hheight := (hblock.room hroom).2
  rw [← hopen] at hheight
  apply (keeps_take hkind (punctuation_ne_endOfInput _) hheight).bind
  rintro opening S' mid - rfl
  rw [hopen]
  apply (keeps_statements hn hblock hroom b).bind
  rintro ⟨separated, body⟩ S' rest - ⟨m, rfl⟩
  apply keeps_nextIs
  · intro _
    exact keeps_refuse nofun
  · intro _
    apply keeps_accept
    · intro t rest' _ ht
      rw [ht, hblock.advance_closer]
      exact ⟨Nat.le_of_add_right_le hroom.height_le, keeps_pure rfl⟩
    · intro _
      exact keeps_refuse nofun

/-! #### Functions -/

/-- The body of a function comes next. -/
def AwaitsBody (S S' : List Unfinished) (rest : List Token) : Prop :=
  advance (kind rest) S' = insideBody (kind rest) S ∧ height S ≤ height S'

omit hn in
theorem keeps_functionName (hheight : height S ≤ hi) :
    Keeps lo hi (.function :: S) ts (functionName ts) fun S' rest =>
      S' = .named :: S ∨ S' = .function :: S ∧ kind rest ≠ .symbol := by
  by_cases h : kind ts = .symbol
  · obtain ⟨t, n, us, rfl, hn⟩ := exists_cons_of_kind_symbol h
    rw [kind_cons] at h
    rw [functionName_cons hn]
    apply Keeps.cons
    · simpa [h, advance, Unfinished.weight] using hheight
    · apply keeps_pure
      left
      simp [h, advance]
  · rw [functionName_of_ne h]
    exact keeps_pure (Or.inr ⟨rfl, h⟩)

omit hn in
theorem keeps_parametersUpTo (hheight : height S + 1 ≤ hi) {n : Nat} (hlen : ts.length < n) :
    Keeps lo hi (.parameters :: S) ts (parametersUpTo n ts) fun S' _ => S' = .signed :: S := by
  induction n generalizing ts with
  | zero => omega
  | succ n ih =>
    have hroom : height (.parameters :: S) ≤ hi := by
      simp [Unfinished.weight]
      omega
    have hname : Keeps lo hi (.parameters :: S) ts (name .parameterName ts) fun S' rest =>
        S' = .parameters :: S ∧ rest.length < ts.length := keeps_name nofun hroom
    apply hname.bind
    rintro first S' mid - ⟨rfl, hmid⟩
    apply keeps_accept
    · intro t rest _ ht
      rw [ht]
      exact ⟨by simp [advance, Unfinished.weight]; omega, keeps_pure rfl⟩
    · intro _
      apply keeps_accept
      · intro t rest hrest ht
        rw [ht]
        refine ⟨hroom, ?_⟩
        rw [hrest, List.length_cons] at hmid
        apply (ih (by omega)).bind
        intro later S' rest' _ hS'
        exact keeps_pure hS'
      · intro _
        exact keeps_refuse nofun

omit hn in
theorem keeps_parameters (hheight : height S + 1 ≤ hi)
    (h : S' = .named :: S ∨ S' = .function :: S ∧ kind ts ≠ .symbol) :
    Keeps lo hi S' ts (parameters ts) (AwaitsBody S) := by
  have hopen : advance (.punctuation .openParen) S' = .parameters :: S := by
    rcases h with rfl | ⟨rfl, -⟩ <;> rfl
  have hroom : height (.parameters :: S) ≤ hi := by
    simp [Unfinished.weight]
    omega
  have hawaits (us : List Token) : AwaitsBody S (.signed :: S) us :=
    ⟨rfl, by simp [Unfinished.weight]⟩
  apply keeps_accept
  · intro t rest _ ht
    rw [ht, hopen]
    refine ⟨hroom, ?_⟩
    apply keeps_accept
    · intro t' rest' _ ht'
      rw [ht']
      refine ⟨by simp [advance, Unfinished.weight]; omega, keeps_pure (hawaits _)⟩
    · intro _
      rw [get_bind]
      exact (keeps_parametersUpTo hheight (Nat.lt_succ_self _)).mono
        fun _ rest' hS' => hS' ▸ hawaits rest'
  · intro hparen
    apply keeps_pure
    rcases h with rfl | ⟨rfl, hsymbol⟩
    · exact ⟨by simp [advance, hparen], by simp [Unfinished.weight]⟩
    · exact ⟨by simp [advance, hparen, hsymbol], by simp [Unfinished.weight]⟩

theorem keeps_functionBody (hroom : Room lo hi S (d + 1))
    (h : AwaitsBody S S₀ ts) : Keeps lo hi S₀ ts (functionBody nested ts) (Rests S) := by
  obtain ⟨hadvance, hheight⟩ := h
  apply keeps_nextIs
  · intro hbrace
    have hkind : kind ts = .punctuation .openBrace := by simpa using hbrace
    have hopen : advance (.punctuation Bracket.brace.opener) S₀ = .braced :: S := by
      rw [hkind] at hadvance
      exact hadvance
    exact (keeps_block hn hkind hopen (Or.inr rfl) hroom).mono fun S' rest hS' => Or.inl hS'
  · intro hbrace
    have hkind : kind ts ≠ .punctuation .openBrace := by simpa using hbrace
    apply keeps_nextIs
    · intro _
      have hbefore : Before (.value :: S) S₀ ts := by
        refine ⟨settled_cons rfl S, ?_, by simp [Unfinished.weight]; omega⟩
        rw [hadvance, insideBody, if_neg hkind]
      exact (hn hbefore (hroom.push (by decide) (by decide))).mono
        fun S' rest hS' => Or.inr hS'.of_value
    · intro _
      exact keeps_refuse nofun

/-- A function without braces leaves its body open. -/
theorem keeps_function (hbefore : Before S S₀ ts) (hroom : Room lo hi S (d + 1))
    (hkind : kind ts = .keyword .function) :
    Keeps lo hi S₀ ts (function nested ts) (Rests S) := by
  have hheight := hroom.height_le
  have hadvance : advance (.keyword .function) S₀ = .function :: S := by
    have h := hbefore.advance_eq
    rw [hkind] at h
    exact h
  have htake : height (advance (.keyword .function) S₀) ≤ hi := by
    rw [hadvance]
    simp [Unfinished.weight]
    omega
  apply (keeps_take hkind (keyword_ne_endOfInput _) htake).bind
  rintro keyword S' mid - rfl
  rw [hadvance]
  apply (keeps_functionName (by omega)).bind
  intro n S' mid' _ hS'
  apply (keeps_parameters (by omega) hS').bind
  intro params S' mid'' _ hS'
  apply (keeps_functionBody hn hroom hS').bind
  intro body S' rest _ hS'
  exact keeps_pure hS'

/-! #### Operands -/

theorem keeps_operand (hbefore : Before S S₀ ts) (hroom : Room lo hi S (d + 1)) :
    Keeps lo hi S₀ ts (operand nested ts) (Rests S) := by
  have hheight := hroom.height_le
  have hadvance := hbefore.advance_eq
  -- A literal and a symbol leave open what is open before them.
  have hword (e : Expr) {k : Kind} (hkind : kind ts = k) (hinside : inside k S = S)
      (hend : k ≠ .endOfInput) :
      Keeps lo hi S₀ ts ((take >>= fun _ => pure e) ts) (Rests S) := by
    rw [hkind, hinside] at hadvance
    apply (keeps_take hkind hend (by rw [hadvance]; omega)).bind
    rintro t S' rest - rfl
    rw [hadvance]
    exact keeps_pure (Or.inl rfl)
  have hbracket (b : Bracket) (hkind : kind ts = .punctuation b.opener) :
      Keeps lo hi S₀ ts (block nested b ts) (Rests S) := by
    have hopen : advance (.punctuation b.opener) S₀ = .bracket :: S := by
      rw [hkind] at hadvance
      rw [hadvance]
      cases b <;> rfl
    exact (keeps_block hn hkind hopen (Or.inl rfl) hroom).mono fun S' rest hS' => Or.inl hS'
  have hrefuse : Keeps lo hi S₀ ts ((refuse .operand : Reader (List Token) Expr) ts) (Rests S) :=
    keeps_refuse fun hnesting => by cases hnesting
  rw [operand, peek_bind]
  cases hs : (ts.headD ending).shape with
  | integer digits => exact hword (k := .integer) _ (congrArg Shape.kind hs) rfl (by decide)
  | decimal whole fraction => exact hword (k := .decimal) _ (congrArg Shape.kind hs) rfl (by decide)
  | string mark body => exact hword (k := .string) _ (congrArg Shape.kind hs) rfl (by decide)
  | symbol n => exact hword (k := .symbol) _ (congrArg Shape.kind hs) rfl (by decide)
  | endOfInput => exact hrefuse
  | keyword k =>
    cases k with
    | function => exact keeps_function hn hbefore hroom (congrArg Shape.kind hs)
    | binding => exact hrefuse
    | recursiveBinding => exact hrefuse
  | punctuation p =>
    cases p with
    | openBrace => exact hbracket .brace (congrArg Shape.kind hs)
    | openParen => exact hbracket .paren (congrArg Shape.kind hs)
    | _ => exact hrefuse

/-- Marks are put on operands that leave nothing open. -/
theorem keeps_invoked (hbefore : Before S S₀ ts) (hroom : Room lo hi S (d + 1)) :
    Keeps lo hi S₀ ts (invoked nested ts) (Rests S) := by
  apply (keeps_operand hn hbefore hroom).bind
  intro target S' mid _ hS'
  have hmarks : Keeps lo hi S' mid (many (· == .punctuation .bang) take mid) (Rests S) := by
    refine keeps_many ?_ hS'
    intro S'' us hS'' hbang
    have hkind : kind us = .punctuation .bang := by simpa using hbang
    obtain rfl := hS''.eq_of_goes_on fun hstops => hstops.bang hkind
    have hadvance := hbefore.settled.advance_eq (.punctuation .bang)
    have hheight : height (advance (.punctuation .bang) S'') ≤ hi := by
      rw [hadvance]
      exact Nat.le_of_add_right_le hroom.height_le
    exact (keeps_take hkind (punctuation_ne_endOfInput _) hheight).mono
      fun _ _ heq => Or.inl (heq.trans hadvance)
  apply hmarks.bind
  intro marks S'' rest _ hS''
  exact keeps_pure hS''

theorem keeps_step (hS : Settled S) (hroom : Room lo hi S (d + 1))
    (hkind : kind ts = .punctuation .backtick) :
    Keeps lo hi S ts (step nested ts) (Rests S) := by
  have hadvance := hS.advance_eq (.punctuation .backtick)
  have hheight : height (advance (.punctuation .backtick) S) ≤ hi := by
    rw [hadvance]
    exact Nat.le_of_add_right_le hroom.height_le
  apply (keeps_take hkind (punctuation_ne_endOfInput _) hheight).bind
  rintro mark S' mid - rfl
  rw [hadvance]
  apply keeps_nextIs
  · intro _
    apply (keeps_invoked hn (hS.before mid) hroom).bind
    intro operator S' mid' _ hS'
    have hextra : Keeps lo hi S' mid' (many Kind.startsOperand (invoked nested) mid') (Rests S) := by
      refine keeps_many ?_ hS'
      intro S'' us hS'' hstart
      obtain rfl := hS''.eq_of_goes_on fun hstops => by simp [hstops.operand] at hstart
      exact keeps_invoked hn (hS.before us) hroom
    apply hextra.bind
    intro extra S'' rest _ hS''
    exact keeps_pure hS''
  · intro _
    exact keeps_refuse nofun

theorem keeps_chained (hbefore : Before S S₀ ts) (hroom : Room lo hi S (d + 1)) :
    Keeps lo hi S₀ ts (chained nested ts) (Rests S) := by
  apply (keeps_invoked hn hbefore hroom).bind
  intro seed S' mid _ hS'
  have hsteps : Keeps lo hi S' mid (many (· == .punctuation .backtick) (step nested) mid)
      (Rests S) := by
    refine keeps_many ?_ hS'
    intro S'' us hS'' hbacktick
    have hkind : kind us = .punctuation .backtick := by simpa using hbacktick
    obtain rfl := hS''.eq_of_goes_on fun hstops => hstops.backtick hkind
    exact keeps_step hn hbefore.settled hroom hkind
  apply hsteps.bind
  intro steps S'' rest _ hS''
  exact keeps_pure hS''

/-- Calls, chains and marks nest nothing, however many of them there are. -/
theorem keeps_application (htakes : Takes nested (Builds .expression)) (hbefore : Before S S₀ ts)
    (hroom : Room lo hi S (d + 1)) :
    Keeps lo hi S₀ ts (application nested ts) (Ended S) := by
  have hrests : Keeps lo hi S₀ ts (application nested ts) (Rests S) := by
    apply (keeps_chained hn hbefore hroom).bind
    intro callee S' mid _ hS'
    have harguments : Keeps lo hi S' mid (many Kind.startsOperand (chained nested) mid)
        (Rests S) := by
      refine keeps_many ?_ hS'
      intro S'' us hS'' hstart
      obtain rfl := hS''.eq_of_goes_on fun hstops => by simp [hstops.operand] at hstart
      exact keeps_chained hn (hbefore.settled.before us) hroom
    apply harguments.bind
    intro arguments S'' rest _ hS''
    exact keeps_pure hS''
  obtain ⟨used, hts, hused, hok, herror⟩ := hrests
  exact ⟨used, hts, hused, fun e rest h => (hok e rest h).ended (application_leaves htakes h),
    herror⟩

/-! #### Expressions -/

theorem keeps_assignment (hbefore : Before S S₀ ts) (hroom : Room lo hi S (d + 1)) {k : Keyword}
    (hk : k ≠ .function) (hkind : kind ts = .keyword k) :
    Keeps lo hi S₀ ts (assignment nested k ts) (Ended S) := by
  have hheight : height S ≤ hi := Nat.le_of_add_right_le hroom.height_le
  have hadvance : advance (.keyword k) S₀ = .binding :: S := by
    have h := hbefore.advance_eq
    rw [hkind] at h
    rw [h]
    cases k with
    | function => exact absurd rfl hk
    | binding | recursiveBinding => rfl
  have htake : height (advance (.keyword k) S₀) ≤ hi := by simpa [hadvance, Unfinished.weight]
  apply (keeps_take hkind (keyword_ne_endOfInput k) htake).bind
  rintro token S' mid - rfl
  rw [hadvance]
  have hname : height (advance .symbol (.binding :: S)) ≤ hi := by
    simpa [advance, Unfinished.weight]
  have hbound : Keeps lo hi (.binding :: S) mid (name (.nameAfter k) mid) fun S' rest =>
      S' = .bound :: S ∧ rest.length < mid.length := keeps_name nofun hname
  apply hbound.bind
  rintro n S' mid' - ⟨rfl, -⟩
  apply keeps_nextIs
  · intro _
    have hvalue : Before (.value :: S) (.bound :: S) mid' :=
      ⟨settled_cons rfl S, rfl, by simp [Unfinished.weight]; omega⟩
    apply (hn hvalue (hroom.push (by decide) (by decide))).bind
    intro value S' rest _ hS'
    exact keeps_pure hS'.of_value
  · intro _
    exact keeps_refuse nofun

theorem nests_expressionOver (htakes : Takes nested (Builds .expression)) :
    Nests lo hi (d + 1) (expressionOver nested) := by
  intro S S₀ ts hbefore hroom
  by_cases hbinding : ∃ k, k ≠ .function ∧ kind ts = .keyword k
  · obtain ⟨k, hk, hkind⟩ := hbinding
    rw [expressionOver_binding hk hkind]
    exact keeps_assignment hn hbefore hroom hk hkind
  · rw [expressionOver_application fun k hk hkind => hbinding ⟨k, hk, hkind⟩]
    exact keeps_application hn htakes hbefore hroom

omit hn in
/-- **Each expression inside another one opens something, and no more than two things.** -/
theorem nests_expression (depth : Nat) : Nests lo hi depth (expression depth) := by
  induction depth with
  | zero =>
    intro S S₀ ts hbefore hroom
    have hlow := hroom.low
    have hheight := hbefore.height_le
    exact keeps_refuse fun _ => by omega
  | succ depth ih => exact nests_expressionOver ih (expression_takes depth)

omit hn in
theorem keeps_program (depth : Nat) (ts : List Token) :
    Keeps depth (2 * depth) [] ts (program depth ts) (Ended []) := by
  have hbefore : Before [] [] ts := Settled.before (by simp [Settled]) ts
  have hroom : Room depth (2 * depth) [] depth := ⟨by simp, by simp⟩
  apply keeps_nextIs
  · intro _
    apply (nests_expression depth hbefore hroom).bind
    intro e S' rest _ hS'
    apply keeps_nextIs
    · intro _
      exact keeps_pure hS'
    · intro _
      exact keeps_refuse nofun
  · intro _
    exact keeps_refuse nofun

end Productions

end Juxta.Grammar
