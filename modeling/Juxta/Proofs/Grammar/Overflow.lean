/-
  Juxta/Proofs/Grammar/Overflow.lean
  ==================================
  **Where a reader does not go** — a reader that refuses something as nested too deeply refuses
  the whole in which it stands: the refusal passes through each sequence (`NestsOut.bind`), and
  through repetitions that have read other items before (`Jams`).

  What has been read in front of it is left open; it only has to be read.
-/
import Juxta.Proofs.Grammar.Statements

namespace Juxta.Grammar

open TokenList

variable {α β : Type} {nested : Reader (List Token) Expr} {ts mid rest : List Token}

/-! ### Refusals -/

/-- Something has been refused as nested too deeply. -/
def NestsOut (r : EStateM.Result ParseError (List Token) α) : Prop :=
  ∃ t l rest, r = .error (.syntactic ⟨.nesting, t, l⟩) rest

/-- Whatever comes behind the tokens, something in them is refused as nested too deeply. -/
def Overflows (x : Reader (List Token) α) (ts : List Token) : Prop :=
  ∀ rest, NestsOut (x (ts ++ rest))

theorem nestsOut_refuse (ts : List Token) :
    NestsOut ((refuse .nesting : Reader (List Token) α) ts) := ⟨_, _, _, rfl⟩

theorem NestsOut.bind {x : Reader (List Token) α} (h : NestsOut (x ts))
    (f : α → Reader (List Token) β) : NestsOut ((x >>= f) ts) := by
  obtain ⟨t, l, rest, h⟩ := h
  exact ⟨t, l, rest, bind_of_error h⟩

theorem nestsOut_bind_of_ok {x : Reader (List Token) α} {a : α} (h : x ts = .ok a mid)
    {f : α → Reader (List Token) β} (hf : NestsOut (f a mid)) : NestsOut ((x >>= f) ts) := by
  rwa [bind_of_ok h]

/-! ### Repetitions -/

/-- After some items that are read, the next one is refused as nested too deeply. -/
inductive Jams (begins : Kind → Bool) (item : Reader (List Token) α) : List Token → Prop where
  | here {ts : List Token} : begins (kind ts) = true → NestsOut (item ts) → Jams begins item ts
  | later {ts mid : List Token} {a : α} :
      begins (kind ts) = true → item ts = .ok a mid → Jams begins item mid → Jams begins item ts

section Repetitions

variable {begins : Kind → Bool} {item : Reader (List Token) α}

theorem Jams.begins_kind (h : Jams begins item ts) : begins (kind ts) = true := by
  cases h with
  | here hbegins | later hbegins => exact hbegins

theorem Jams.manyUpTo (h : Jams begins item ts) (hend : begins .endOfInput = false)
    (hitem : Consumes begins item) {n : Nat} (hn : ts.length ≤ n) :
    NestsOut (manyUpTo begins item n ts) := by
  induction h generalizing n with
  | here hbegins hdeep =>
    obtain ⟨t, us, rfl, -, -⟩ := exists_cons_of_kind hend hbegins
    cases n with
    | zero => cases hn
    | succ n =>
      rw [manyUpTo_more hbegins]
      exact hdeep.bind _
  | later hbegins hread _ ih =>
    have hlt := hitem.length_lt hbegins hread
    cases n with
    | zero => omega
    | succ n =>
      rw [manyUpTo_more hbegins]
      exact nestsOut_bind_of_ok hread ((ih (by omega)).bind _)

/-- A repetition is refused with any of its items. -/
theorem Jams.many (h : Jams begins item ts) (hend : begins .endOfInput = false)
    (hitem : Consumes begins item) : NestsOut (many begins item ts) := by
  rw [Grammar.many, get_bind]
  exact h.manyUpTo hend hitem (Nat.le_refl _)

end Repetitions

/-! ### Calls, chains and marks -/

theorem nestsOut_invoked (h : NestsOut (operand nested ts)) : NestsOut (invoked nested ts) :=
  h.bind _

theorem nestsOut_step {t : Token} (ht : t.kind = .punctuation .backtick)
    (hstart : Kind.startsOperand (kind ts) = true)
    (h : NestsOut ((invoked nested >>= fun operator =>
      many Kind.startsOperand (invoked nested) >>= fun extra => pure (.mk operator extra) :
        Reader (List Token) Step) ts)) : NestsOut (step nested (t :: ts)) := by
  rw [step, bind_of_ok (take_cons (isEnd_of_punctuation ht) ts), nextIs_bind, hstart, if_pos rfl]
  exact h

theorem nestsOut_chained (h : NestsOut (invoked nested ts)) : NestsOut (chained nested ts) :=
  h.bind _

theorem nestsOut_application (h : NestsOut (chained nested ts)) :
    NestsOut (application nested ts) := h.bind _

/-! ### Blocks -/

theorem nestsOut_statement {b : Bracket} (hstart : Kind.startsExpression (kind ts) = true)
    (h : NestsOut (nested ts)) : NestsOut (statement nested b ts) := by
  rwa [statement, nextIs_bind, hstart, if_pos rfl]

theorem nestsOut_block {b : Bracket} {t : Token} (ht : t.kind = .punctuation b.opener)
    (h : NestsOut (statements nested b ts)) : NestsOut (block nested b (t :: ts)) := by
  rw [block, bind_of_ok (take_cons (isEnd_of_punctuation ht) ts)]
  exact h.bind _

end Juxta.Grammar
