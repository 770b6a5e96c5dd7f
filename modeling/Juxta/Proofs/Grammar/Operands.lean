/-
  Juxta/Proofs/Grammar/Operands.lean
  ==================================
  **Operands one after another** — an operand whose tokens are read in front of anything
  (`ReadsOperand`) can be followed by whatever the grammar puts behind an operand.  From such
  operands the whole level of calls and chains is put together: extra arguments of a step, steps
  of a chain, and arguments of a call, the last of which may go on with steps
  (`exists_application_of_operands`).

  Nothing is said here about where the operands come from: they may be the text of a tree, or
  texts that have been read by themselves.
-/
import Juxta.Proofs.Expr.Nodes
import Juxta.Proofs.Grammar.Context
import Juxta.Proofs.Grammar.Greedy

namespace Juxta.Grammar

open TokenList

theorem ne_of_startsOperand {k : Kind} (h : k.startsOperand = true) :
    k ≠ .punctuation .bang ∧ k ≠ .punctuation .backtick := by
  constructor <;> rintro rfl <;> cases h

variable {nested : Reader (List Token) Expr} {ts us vs ws rest : List Token} {e : Expr}
  {xs : List Expr} {ss : List Step}

/-! ### One operand -/

/-- The tokens are those of what is called without arguments and the marks behind it, and are
    read as the tree in front of anything. -/
def ReadsOperand (nested : Reader (List Token) Expr) (ts : List Token) (e : Expr) : Prop :=
  ∃ us marks, ts = us ++ marks ∧ (∀ t ∈ marks, t.kind = .punctuation .bang) ∧
    ∀ rest, ∃ b, operand nested (us ++ rest) = .ok b rest ∧
      (marks.foldl (fun e _ => .invocation e e.location) b).unlocated = e.unlocated

theorem ReadsOperand.of_operand
    (h : ∀ rest, ∃ b, operand nested (ts ++ rest) = .ok b rest ∧ b.unlocated = e.unlocated) :
    ReadsOperand nested ts e :=
  ⟨ts, [], (List.append_nil ts).symm, List.forall_mem_nil _, h⟩

theorem ReadsOperand.invocation (h : ReadsOperand nested ts e) {t : Token}
    (ht : t.kind = .punctuation .bang) (l : Option Location) :
    ReadsOperand nested (ts ++ [t]) (.invocation e l) := by
  obtain ⟨us, marks, rfl, hmarks, hread⟩ := h
  refine ⟨us, marks ++ [t], List.append_assoc us marks [t], ?_, fun rest => ?_⟩
  · exact List.forall_mem_append.mpr ⟨hmarks, by simpa using ht⟩
  · obtain ⟨b, hb, hsame⟩ := hread rest
    refine ⟨b, hb, ?_⟩
    simp only [List.foldl_append, List.foldl_cons, List.foldl_nil, Expr.unlocated, hsame]

theorem ReadsOperand.startsOperand (h : ReadsOperand nested ts e) (rest : List Token) :
    Kind.startsOperand (kind (ts ++ rest)) = true := by
  obtain ⟨us, marks, rfl, -, hread⟩ := h
  obtain ⟨b, hb, -⟩ := hread (marks ++ rest)
  rw [List.append_assoc]
  exact startsOperand_of_operand_eq_ok hb

theorem many_marks {marks : List Token} (h : ∀ t ∈ marks, t.kind = .punctuation .bang)
    (hrest : kind rest ≠ .punctuation .bang) :
    Many (· == .punctuation .bang) take (marks ++ rest) marks rest := by
  induction marks with
  | nil => exact .done (beq_eq_false_iff_ne.mpr hrest)
  | cons t marks ih =>
    obtain ⟨ht, hmarks⟩ := List.forall_mem_cons.mp h
    have hbegins : (kind (t :: (marks ++ rest)) == .punctuation .bang) = true := by
      rw [kind_cons, ht, beq_self_eq_true]
    exact .more hbegins (take_cons (isEnd_of_punctuation ht) _) (ih hmarks)

/-- An operand is read in front of anything but a mark. -/
theorem ReadsOperand.exists_invoked (h : ReadsOperand nested ts e)
    (hrest : kind rest ≠ .punctuation .bang) :
    ∃ e', invoked nested (ts ++ rest) = .ok e' rest ∧ e'.unlocated = e.unlocated := by
  obtain ⟨us, marks, rfl, hmarks, hread⟩ := h
  obtain ⟨b, hb, hsame⟩ := hread (marks ++ rest)
  refine ⟨_, ?_, hsame⟩
  rw [List.append_assoc]
  exact invoked_eq_ok hb (many_marks hmarks hrest)

/-! ### Extra arguments and steps -/

/-- Operands one after another. -/
inductive ReadsOperands (nested : Reader (List Token) Expr) : List Token → List Expr → Prop where
  | nil : ReadsOperands nested [] []
  | cons {us vs : List Token} {x : Expr} {xs : List Expr} :
      ReadsOperand nested us x → ReadsOperands nested vs xs →
      ReadsOperands nested (us ++ vs) (x :: xs)

theorem ReadsOperands.kind_ne_bang (h : ReadsOperands nested ts xs)
    (hrest : kind rest ≠ .punctuation .bang) : kind (ts ++ rest) ≠ .punctuation .bang := by
  cases h with
  | nil => exact hrest
  | @cons us vs _ _ hx _ =>
    rw [List.append_assoc]
    exact (ne_of_startsOperand (hx.startsOperand (vs ++ rest))).1

theorem ReadsOperands.exists_many_invoked (h : ReadsOperands nested ts xs)
    (hoperand : Kind.startsOperand (kind rest) = false)
    (hbang : kind rest ≠ .punctuation .bang) :
    ∃ xs', Many Kind.startsOperand (invoked nested) (ts ++ rest) xs' rest ∧
      xs'.map Expr.unlocated = xs.map Expr.unlocated := by
  induction h with
  | nil => exact ⟨[], .done hoperand, rfl⟩
  | @cons us vs x xs hx hxs ih =>
    obtain ⟨xs', hmany, hsame⟩ := ih
    obtain ⟨x', hx', hsame'⟩ := hx.exists_invoked (hxs.kind_ne_bang hbang)
    refine ⟨x' :: xs', ?_, by simp [hsame, hsame']⟩
    rw [List.append_assoc]
    exact .more (hx.startsOperand (vs ++ rest)) hx' hmany

theorem ReadsOperands.exists_concat (h : ReadsOperands nested ts (xs ++ [e])) :
    ∃ us vs, ts = us ++ vs ∧ ReadsOperands nested us xs ∧ ReadsOperand nested vs e := by
  induction xs generalizing ts with
  | nil =>
    cases h with
    | @cons us vs _ _ he hnil =>
      cases hnil
      exact ⟨[], us, List.append_nil us, .nil, he⟩
  | cons x xs ih =>
    cases h with
    | @cons us _ _ _ hx hxs =>
      obtain ⟨vs, ws, rfl, hvs, hws⟩ := ih hxs
      exact ⟨us ++ vs, ws, (List.append_assoc us vs ws).symm, .cons hx hvs, hws⟩

/-- Steps one after another: a backtick, the operator, and operands. -/
inductive ReadsSteps (nested : Reader (List Token) Expr) : List Token → List Step → Prop where
  | nil : ReadsSteps nested [] []
  | cons {t : Token} {us vs ws : List Token} {p : Expr} {xs : List Expr} {ss : List Step} :
      t.kind = .punctuation .backtick → ReadsOperand nested us p → ReadsOperands nested vs xs →
      ReadsSteps nested ws ss → ReadsSteps nested (t :: (us ++ vs) ++ ws) (.mk p xs :: ss)

/-- Behind an operand nothing but a step goes on. -/
theorem ReadsSteps.kind_ne (h : ReadsSteps nested ts ss) (hrest : Stops rest) :
    Kind.startsOperand (kind (ts ++ rest)) = false ∧ kind (ts ++ rest) ≠ .punctuation .bang := by
  cases h with
  | nil => exact ⟨hrest.operand, hrest.bang⟩
  | @cons t us vs ws _ _ _ ht _ _ _ =>
    have hkind : kind (t :: (us ++ vs) ++ ws ++ rest) = .punctuation .backtick := ht
    rw [hkind]
    decide

section Readers

variable (hn : Takes nested (Builds .expression))
include hn

theorem ReadsSteps.exists_many_step (h : ReadsSteps nested ts ss) (hrest : Stops rest) :
    ∃ ss', Many (· == .punctuation .backtick) (step nested) (ts ++ rest) ss' rest ∧
      ss'.map Expr.unlocatedStep = ss.map Expr.unlocatedStep := by
  induction h with
  | nil => exact ⟨[], .done (beq_eq_false_iff_ne.mpr hrest.backtick), rfl⟩
  | @cons t us vs ws p xs ss ht hp hxs hss ih =>
    obtain ⟨ss', hmany, hsame⟩ := ih
    -- The next token is a backtick or stops.
    obtain ⟨hoperand, hbang⟩ := hss.kind_ne hrest
    obtain ⟨xs', hxs', hsame'⟩ := hxs.exists_many_invoked hoperand hbang
    obtain ⟨p', hp', hsame''⟩ := hp.exists_invoked (hxs.kind_ne_bang hbang)
    have hstart := hp.startsOperand (vs ++ (ws ++ rest))
    refine ⟨.mk p' xs' :: ss', ?_, ?_⟩
    · rw [List.cons_append, List.cons_append, List.append_assoc, List.append_assoc]
      have hbegins :
          (kind (t :: (us ++ (vs ++ (ws ++ rest)))) == .punctuation .backtick) = true := by
        rw [kind_cons, ht, beq_self_eq_true]
      exact .more hbegins (step_eq_ok hn ht hstart hp' hxs') hmany
    · simp only [List.map_cons, hsame, Expr.unlocatedStep, Step.operator, Step.extra, hsame',
        hsame'']

/-! ### Chains and calls -/

theorem chained_of_invoked (h : invoked nested ts = .ok e rest)
    (hrest : kind rest ≠ .punctuation .backtick) : chained nested ts = .ok e rest :=
  chained_eq_ok hn h (.done (beq_eq_false_iff_ne.mpr hrest))

theorem application_of_chained (h : chained nested ts = .ok e rest)
    (hrest : Kind.startsOperand (kind rest) = false) : application nested ts = .ok e rest :=
  application_eq_ok hn h (.done hrest)

theorem application_of_invoked (h : invoked nested ts = .ok e rest) (hrest : Stops rest) :
    application nested ts = .ok e rest :=
  application_of_chained hn (chained_of_invoked hn h hrest.backtick) hrest.operand

theorem application_of_operand (h : operand nested ts = .ok e rest) (hrest : Stops rest) :
    application nested ts = .ok e rest := by
  have hmarks : Many (· == .punctuation .bang) take rest [] rest :=
    .done (beq_eq_false_iff_ne.mpr hrest.bang)
  exact application_of_invoked hn (invoked_eq_ok h hmarks) hrest

theorem ReadsOperand.exists_chained (h : ReadsOperand nested us e) (hss : ReadsSteps nested vs ss)
    (hrest : Stops rest) :
    ∃ e', chained nested (us ++ (vs ++ rest)) = .ok e' rest ∧
      e'.unlocated = (chainOf e ss).unlocated := by
  obtain ⟨ss', hmany, hsame⟩ := hss.exists_many_step hn hrest
  obtain ⟨e', he', hsame'⟩ := h.exists_invoked (hss.kind_ne hrest).2
  refine ⟨chainOf e' ss', chained_eq_ok hn he' hmany, ?_⟩
  rw [chainOf_unlocated, chainOf_unlocated, hsame, hsame']

/-- Operands in front of arguments are arguments. -/
theorem ReadsOperands.exists_many_chained (h : ReadsOperands nested us xs) {ys : List Expr}
    (hys : Many Kind.startsOperand (chained nested) vs ys rest)
    (hstart : Kind.startsOperand (kind vs) = true) :
    ∃ xs', Many Kind.startsOperand (chained nested) (us ++ vs) (xs' ++ ys) rest ∧
      xs'.map Expr.unlocated = xs.map Expr.unlocated ∧
      Kind.startsOperand (kind (us ++ vs)) = true := by
  induction h with
  | nil => exact ⟨[], hys, rfl, hstart⟩
  | @cons us₁ us₂ x xs hx _ ih =>
    obtain ⟨xs', hmany, hsame, hnext⟩ := ih
    obtain ⟨hbang, hbacktick⟩ := ne_of_startsOperand hnext
    obtain ⟨x', hx', hsame'⟩ := hx.exists_invoked hbang
    have hbegins := hx.startsOperand (us₂ ++ vs)
    refine ⟨x' :: xs', ?_, by simp [hsame, hsame'], ?_⟩
    · rw [List.append_assoc]
      exact .more hbegins (chained_of_invoked hn hx' hbacktick) hmany
    · rwa [List.append_assoc]

/-- **The first operand is called on the others**, and steps belong to the last operand only. -/
theorem exists_application_of_operands (hxs : ReadsOperands nested us xs)
    (he : ReadsOperand nested vs e) (hss : ReadsSteps nested ws ss) (hrest : Stops rest)
    {f : Expr} {args : List Expr} (hargs : xs ++ [chainOf e ss] = f :: args) :
    ∃ e', application nested (us ++ (vs ++ (ws ++ rest))) = .ok e' rest ∧
      e'.unlocated = (callOf f args).unlocated := by
  obtain ⟨last, hlast, hsame⟩ := he.exists_chained hn hss hrest
  cases hxs with
  | nil =>
    obtain ⟨rfl, rfl⟩ := List.cons.inj hargs
    exact ⟨last, application_of_chained hn hlast hrest.operand, hsame⟩
  | @cons us₁ us₂ x xs hx hxs =>
    rw [List.cons_append] at hargs
    obtain ⟨rfl, rfl⟩ := List.cons.inj hargs
    have hstart := he.startsOperand (ws ++ rest)
    obtain ⟨xs', hmany, hsame', hnext⟩ :=
      hxs.exists_many_chained hn (.more hstart hlast (.done hrest.operand)) hstart
    obtain ⟨hbang, hbacktick⟩ := ne_of_startsOperand hnext
    obtain ⟨x', hx', hsame''⟩ := hx.exists_invoked hbang
    refine ⟨callOf x' (xs' ++ [last]), ?_, ?_⟩
    · rw [List.append_assoc]
      exact application_eq_ok hn (chained_of_invoked hn hx' hbacktick) hmany
    · rw [callOf_unlocated, callOf_unlocated, hsame'']
      simp only [List.map_append, List.map_cons, List.map_nil, hsame, hsame']

end Readers

end Juxta.Grammar
