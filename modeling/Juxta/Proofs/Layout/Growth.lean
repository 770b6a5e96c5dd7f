/-
  Juxta/Proofs/Layout/Growth.lean
  ===============================
  **How much deeper formatting nests** — the layout writes parentheses that need not have been
  there: around a function or a call in the place of an operand, and around the body of a function
  that begins with a brace.  A reader may therefore refuse what a program is formatted to as nested
  too deeply, although it has read the program itself; it does so exactly when the limit is below
  the levels of the text (`Program.isTooDeep_formatted_iff`).

  These are at most three for each level of the program (`nesting_le_expression`): the body of a
  function, the parentheses inside it and those around it.  That a reader returns nothing but trees
  of which something holds is `Yields`, closed under sequences and repetitions.
-/
import Juxta.Proofs.Layout.Depth

namespace Juxta

open Grammar TokenList

namespace Grammar

/-- What the reader returns has the property. -/
def Yields {α : Type} (x : Reader (List Token) α) (P : α → Prop) : Prop :=
  ∀ ⦃ts a rest⦄, x ts = .ok a rest → P a

section Yields

variable {α β : Type} {x y : Reader (List Token) α} {f : α → Reader (List Token) β} {P : α → Prop}
  {Q : β → Prop}

theorem yields_pure {a : α} (h : P a) : Yields (pure a) P := by
  intro ts b rest hread
  obtain ⟨rfl, -⟩ := pure_eq_ok.mp hread
  exact h

theorem yields_refuse (p : Problem) : Yields (refuse p) P :=
  fun ts a rest h => absurd h (refuse_ne_ok p ts rest a)

theorem Yields.bind (hx : Yields x P) (hf : ∀ a, P a → Yields (f a) Q) : Yields (x >>= f) Q := by
  intro ts b rest h
  obtain ⟨a, mid, ha, hb⟩ := bind_eq_ok.mp h
  exact hf a (hx ha) hb

/-- Nothing has to be known of what comes first. -/
theorem yields_bind (hf : ∀ a, Yields (f a) Q) : Yields (x >>= f) Q :=
  Yields.bind (P := fun _ => True) (fun _ _ _ _ => trivial) fun a _ => hf a

theorem yields_ite {b : Bool} (hx : Yields x P) (hy : Yields y P) :
    Yields (if b then x else y) P := by
  cases b with
  | true => exact hx
  | false => exact hy

theorem Yields.many {begins : Kind → Bool} (hx : Yields x P) :
    Yields (many begins x) fun xs => ∀ a ∈ xs, P a := by
  refine yields_bind fun tokens => ?_
  generalize TokenSupply.bound tokens = n
  induction n with
  | zero => exact yields_pure (List.forall_mem_nil _)
  | succ n ih =>
    refine yields_bind fun b => yields_ite (hx.bind fun a ha => ih.bind fun xs hxs => ?_) ?_
    · exact yields_pure (List.forall_mem_cons.mpr ⟨ha, hxs⟩)
    · exact yields_pure (List.forall_mem_nil _)

end Yields

end Grammar

namespace Layout

/-! ### Several trees -/

theorem operandNestingAll_le_iff {xs : List Expr} {m : Nat} :
    operandNestingAll xs ≤ m ↔ ∀ x ∈ xs, operandNesting x (nesting x) ≤ m := by
  induction xs with
  | nil => simp [operandNestingAll]
  | cons x xs ih => simp [operandNestingAll, ih]

theorem stepNesting_append (ss ss' : List Step) :
    stepNesting (ss ++ ss') = max (stepNesting ss) (stepNesting ss') := by
  induction ss with
  | nil => simp [stepNesting]
  | cons s ss ih =>
    obtain ⟨p, xs⟩ := s
    simp [stepNesting, ih, Nat.max_assoc]

theorem stepNesting_le_iff {ss : List Step} {m : Nat} :
    stepNesting ss ≤ m ↔ ∀ s ∈ ss, stepNesting [s] ≤ m := by
  induction ss with
  | nil => simp [stepNesting]
  | cons s ss ih =>
    rw [← List.singleton_append, stepNesting_append, Nat.max_le, ih]
    simp

theorem lastArgumentNesting_le (e : Expr) (n : Nat) :
    lastArgumentNesting e n ≤ operandNesting e n := by
  cases e with
  | chain => exact le_operandNesting _ n
  | _ => exact Nat.le_refl _

theorem le_lastArgumentNesting (e : Expr) (n : Nat) : n ≤ lastArgumentNesting e n := by
  cases e with
  | chain => exact Nat.le_refl n
  | _ => exact le_operandNesting _ n

theorem bodyNesting_le (body : Expr) (n : Nat) : bodyNesting body n ≤ n + 2 := by
  unfold bodyNesting
  split
  · omega
  · split <;> omega

/-! ### Productions -/

/-- The tree has at most `k` levels in the place of an operand. -/
def FitsOperand (k : Nat) (e : Expr) : Prop := operandNesting e (nesting e) ≤ k

section Productions

variable {nested : Reader (List Token) Expr} {m : Nat} (h : Yields nested (nesting · ≤ m))
include h

theorem yields_statement (b : Bracket) : Yields (statement nested b) (nesting · ≤ m) :=
  yields_bind fun _ => yields_ite h (yields_refuse _)

theorem yields_moreStatements (b : Bracket) (n : Nat) :
    Yields (moreStatements nested b n) fun v => nestingAll v.2 ≤ m := by
  induction n with
  | zero => exact yields_pure (Nat.zero_le m)
  | succ n ih =>
    refine yields_bind fun _ => yields_ite (yields_bind fun _ => yields_ite ?_ ?_) ?_
    · exact yields_pure (Nat.zero_le m)
    · refine (yields_statement h b).bind fun e he => ih.bind fun v hv => ?_
      exact yields_pure (Nat.max_le.mpr ⟨he, hv⟩)
    · exact yields_pure (Nat.zero_le m)

theorem yields_statements (b : Bracket) :
    Yields (statements nested b) fun v => nestingAll v.2 ≤ m := by
  refine yields_bind fun _ => yields_ite (yields_pure (Nat.zero_le m)) ?_
  refine (yields_statement h b).bind fun e he => yields_bind fun tokens => ?_
  exact (yields_moreStatements h b _).bind fun v hv => yields_pure (Nat.max_le.mpr ⟨he, hv⟩)

omit h in
/-- A block has one level more than its statements; what is grouped may get parentheses again. -/
theorem fitsOperand_blockOf (b : Bracket) (separated : Bool) {xs : List Expr} (l : Location)
    (hxs : nestingAll xs ≤ m) : FitsOperand (m + 1) (blockOf b separated xs l) := by
  have hblock (b : Bracket) (xs : List Expr) (hxs : nestingAll xs ≤ m) :
      FitsOperand (m + 1) (.block b xs (some l)) := Nat.succ_le_succ hxs
  unfold blockOf
  split
  next e =>
    split
    · exact hblock .paren [e] hxs
    · have he : nesting e ≤ m := by simpa [nestingAll] using hxs
      exact Nat.le_trans (operandNesting_le e _) (Nat.succ_le_succ he)
  · exact hblock b xs hxs

theorem yields_block (b : Bracket) : Yields (block nested b) fun e =>
    FitsOperand (m + 1) e ∧ (b = .brace → e.isBraceBlock = true) := by
  refine yields_bind fun opening => (yields_statements h b).bind fun v hv => ?_
  refine yields_bind fun _ => yields_ite (yields_refuse _) ?_
  refine yields_bind fun _ => yields_ite (yields_pure ⟨?_, ?_⟩) (yields_refuse _)
  · exact fitsOperand_blockOf b v.1 opening.location hv
  · rintro rfl
    rfl

theorem yields_functionBody :
    Yields (functionBody nested) fun e => bodyNesting e (nesting e) ≤ m + 2 := by
  refine yields_bind fun _ => yields_ite (fun ts e rest he => ?_) (yields_bind fun _ => ?_)
  · obtain ⟨hle, hbrace⟩ := yields_block h .brace he
    rw [bodyNesting, if_pos (hbrace rfl)]
    exact Nat.le_trans (Nat.le_trans (le_operandNesting e _) hle) (Nat.le_succ _)
  · refine yields_ite (fun ts e rest he => ?_) (yields_refuse _)
    exact Nat.le_trans (bodyNesting_le e _) (Nat.add_le_add_right (h he) 2)

theorem yields_function : Yields (function nested) (FitsOperand (m + 3)) := by
  refine yields_bind fun keyword => yields_bind fun name => yields_bind fun params => ?_
  refine (yields_functionBody h).bind fun body hbody => yields_pure ?_
  exact Nat.le_trans (operandNesting_le _ _) (Nat.succ_le_succ hbody)

theorem yields_operand : Yields (operand nested) (FitsOperand (m + 3)) := by
  have hblock (b : Bracket) : Yields (block nested b) (FitsOperand (m + 3)) :=
    fun ts e rest he => Nat.le_trans (yields_block h b he).1 (Nat.add_le_add_left (by decide) m)
  have hword (e : Expr) (he : operandNesting e (nesting e) = 1) :
      Yields (take >>= fun _ => pure e) (FitsOperand (m + 3)) :=
    yields_bind fun _ => yields_pure (by rw [FitsOperand, he]; omega)
  refine yields_bind fun token => ?_
  cases token.shape with
  | symbol n => exact hword _ rfl
  | integer _ | decimal _ _ | string _ _ => exact hword _ rfl
  | endOfInput => exact yields_refuse _
  | keyword k =>
    cases k with
    | function => exact yields_function h
    | binding | recursiveBinding => exact yields_refuse _
  | punctuation p =>
    cases p with
    | openBrace | openParen => exact hblock _
    | _ => exact yields_refuse _

theorem yields_invoked : Yields (invoked nested) (FitsOperand (m + 3)) := by
  refine (yields_operand h).bind fun target htarget => yields_bind fun marks => yields_pure ?_
  -- A mark is no level.
  induction marks generalizing target with
  | nil => exact htarget
  | cons t marks ih => exact ih _ htarget

theorem yields_step : Yields (step nested) fun s => stepNesting [s] ≤ m + 3 := by
  refine yields_bind fun _ => yields_bind fun _ => yields_ite ?_ (yields_refuse _)
  refine (yields_invoked h).bind fun operator hoperator => ?_
  refine (yields_invoked h).many.bind fun extra hextra => yields_pure ?_
  have hall := operandNestingAll_le_iff.mpr hextra
  exact Nat.max_le.mpr ⟨Nat.max_le.mpr ⟨hoperator, hall⟩, Nat.zero_le _⟩

omit h in
/-- A chain goes on with the steps of its seed, if that is a chain. -/
theorem lastArgumentNesting_chainOf {k : Nat} {seed : Expr} {ss : List Step}
    (hseed : FitsOperand k seed) (hss : stepNesting ss ≤ k) :
    lastArgumentNesting (chainOf seed ss) (nesting (chainOf seed ss)) ≤ k := by
  cases ss with
  | nil => exact Nat.le_trans (lastArgumentNesting_le seed _) hseed
  | cons s ss =>
    cases seed with
    | chain first earlier l =>
      have hchain : nesting (.chain first earlier l) ≤ k :=
        Nat.le_trans (le_operandNesting _ _) hseed
      obtain ⟨hfirst, hearlier⟩ := Nat.max_le.mp hchain
      refine Nat.max_le.mpr ⟨hfirst, ?_⟩
      rw [stepNesting_append]
      exact Nat.max_le.mpr ⟨hearlier, hss⟩
    | _ => exact Nat.max_le.mpr ⟨hseed, hss⟩

section Calls

variable {ts rest : List Token} {e : Expr} (hn : Takes nested (Builds .expression))
include hn

omit h in
/-- A step takes all operands behind it. -/
theorem step_leaves_operands {s : Step} (hread : step nested ts = .ok s rest) :
    Kind.startsOperand (kind rest) = false := by
  obtain ⟨mark, mid, -, hread⟩ := bind_eq_ok.mp hread
  rw [nextIs_bind] at hread
  split at hread
  · obtain ⟨operator, mid', -, hread⟩ := bind_eq_ok.mp hread
    obtain ⟨extra, mid'', hextra, hread⟩ := bind_eq_ok.mp hread
    obtain ⟨-, rfl⟩ := pure_eq_ok.mp hread
    exact many_stops rfl (invoked_consumes hn _) hextra
  · exact absurd hread (refuse_ne_ok _ _ _ _)

/-- Where an operand comes next, no step has been read. -/
theorem chained_levels (hread : chained nested ts = .ok e rest) :
    lastArgumentNesting e (nesting e) ≤ m + 3 ∧
      (Kind.startsOperand (kind rest) = true → FitsOperand (m + 3) e) := by
  obtain ⟨seed, mid, hseed, hread⟩ := bind_eq_ok.mp hread
  obtain ⟨steps, mid', hsteps, hread⟩ := bind_eq_ok.mp hread
  obtain ⟨rfl, rfl⟩ := pure_eq_ok.mp hread
  have hfits := yields_invoked h hseed
  have hss := stepNesting_le_iff.mpr ((yields_step h).many hsteps)
  refine ⟨lastArgumentNesting_chainOf hfits hss, fun hstart => ?_⟩
  cases hmid : Kind.startsOperand (kind mid) with
  | false =>
    have hleaves := many_leaves (P := fun ts => Kind.startsOperand (kind ts) = false) rfl
      (step_consumes hn) (step_leaves_operands hn) hmid hsteps
    rw [hleaves] at hstart
    cases hstart
  | true =>
    have hbacktick := (ne_of_startsOperand hmid).2
    have hnone : Many (· == .punctuation .backtick) (step nested) mid [] mid :=
      .done (beq_eq_false_iff_ne.mpr hbacktick)
    cases hsteps.symm.trans (hnone.many_eq_ok (step_consumes hn))
    exact hfits

theorem argumentNesting_le_of_many {xs : List Expr}
    (hread : Many Kind.startsOperand (chained nested) ts xs rest) :
    argumentNesting xs ≤ m + 3 := by
  induction hread with
  | done => exact Nat.zero_le _
  | more _ hx hmany ih =>
    obtain ⟨hlast, hfits⟩ := chained_levels h hn hx
    refine Nat.max_le.mpr ⟨?_, ih⟩
    cases hmany with
    | done => exact hlast
    | more hnext => exact hfits hnext

theorem yields_application : Yields (application nested) (nesting · ≤ m + 3) := by
  intro ts e rest hread
  obtain ⟨callee, mid, hcallee, hread⟩ := bind_eq_ok.mp hread
  obtain ⟨args, mid', hargs, hread⟩ := bind_eq_ok.mp hread
  obtain ⟨rfl, rfl⟩ := pure_eq_ok.mp hread
  obtain ⟨hlast, hfits⟩ := chained_levels h hn hcallee
  have hmany := Many.of_manyUpTo rfl (chained_consumes hn _) List.countP_le_length hargs
  have hall := argumentNesting_le_of_many h hn hmany
  cases hmany with
  | done => exact Nat.le_trans (le_lastArgumentNesting callee _) hlast
  | more hnext => exact Nat.max_le.mpr ⟨hfits hnext, hall⟩

theorem yields_expressionOver : Yields (expressionOver nested) (nesting · ≤ m + 3) := by
  have hbinding (k : Keyword) : Yields (assignment nested k) (nesting · ≤ m + 3) := by
    refine yields_bind fun _ => yields_bind fun _ => yields_bind fun _ => ?_
    refine yields_ite (h.bind fun value hvalue => yields_pure ?_) (yields_refuse _)
    have hle : m + 1 ≤ m + 3 := Nat.add_le_add_left (by decide) m
    exact Nat.le_trans (Nat.succ_le_succ hvalue) hle
  refine yields_bind fun token => ?_
  split
  · exact hbinding .binding
  · exact hbinding .recursiveBinding
  · exact yields_application h hn

end Calls

end Productions

/-- **A tree has at most three levels for each level that it was read from.** -/
theorem nesting_le_expression (depth : Nat) :
    Yields (expression depth) (nesting · ≤ 3 * depth) := by
  induction depth with
  | zero => exact yields_refuse .nesting
  | succ depth ih => exact yields_expressionOver ih (expression_takes depth)

end Layout

namespace Program

variable {c : Layout} {text out : String} {filename : Option String} {limits : Limits}

theorem nesting_le_of_parseTo {depth : Nat} {e : Expr} (h : parseTo depth text filename = .ok e) :
    Layout.nesting e ≤ 3 * depth := by
  obtain ⟨ts, last, -, -, hprogram⟩ := exists_program_of_parseTo h
  exact Layout.nesting_le_expression depth (expression_of_program hprogram)

/-- **When formatting makes a program too deep.**  A program is formatted to the text of a tree; that
    is refused as nested too deeply under the limits below its levels, and under these only, and
    there are at most three for each level that was allowed in reading the program. -/
theorem isTooDeep_formatted_iff (h : format c text filename limits = .ok out) :
    ∃ e, parseTo limits.reading text filename = .ok e ∧
      (∀ limit filename', IsTooDeep (parseTo limit out filename') ↔ limit < Layout.nesting e) ∧
      Layout.nesting e ≤ 3 * limits.reading := by
  obtain ⟨e, hparse, -, hexpressible, rfl⟩ := exists_tree_of_format h
  exact ⟨e, hparse, c.isTooDeep_programText_iff hexpressible, nesting_le_of_parseTo hparse⟩

/-- A program of four levels that is formatted to a text of five: around the function and around
    its body the layout writes parentheses, of which the program has one pair. -/
theorem isTooDeep_formatted_openBody :
    let text := "f (fn () (\x7b a \x7d x))\n"
    format {} "f fn () (\x7ba\x7d) x" none { reading := 4 } = .ok text ∧
      IsTooDeep (parseTo 4 text) ∧ ¬ IsTooDeep (parseTo 5 text) := by
  intro text
  have h : format {} "f fn () (\x7ba\x7d) x" none { reading := 4 } = .ok text := by decide +kernel
  have hlevels : (parseTo 4 "f fn () (\x7ba\x7d) x").toOption.map Layout.nesting = some 5 := by
    decide +kernel
  obtain ⟨e, hparse, hdeep, -⟩ := isTooDeep_formatted_iff h
  rw [hparse] at hlevels
  have hnesting : Layout.nesting e = 5 := Option.some.inj hlevels
  rw [hnesting] at hdeep
  exact ⟨h, (hdeep 4 none).mpr (by decide), (hdeep 5 none).not.mpr (by decide)⟩

end Program

end Juxta
