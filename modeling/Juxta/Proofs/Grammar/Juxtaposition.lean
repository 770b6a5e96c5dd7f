/-
  Juxta/Proofs/Grammar/Juxtaposition.lean
  =======================================
  **Operands side by side** — the tree of a sequence of operands with steps behind it, whatever
  the operands are.  An operand is closed when it ends with a token of its own
  (`Grammar.IsClosed`), with any number of marks `!` behind that.  A text of this kind that has
  a tree by itself has it between other operands as well, at the same depth
  (`Grammar.ReadsExpression.readsOperand`).

  The result is `Program.readsFrom_juxtaposed`: the first operand is called on the others, and
  steps belong to the last operand alone and go on with it if it is a chain already.
-/
import Juxta.Proofs.Grammar.Fragment
import Juxta.Proofs.Grammar.Operands

namespace Juxta

namespace Grammar

open TokenList

variable {depth : Nat} {us vs ws ts rest : List Token} {e : Expr} {b : Bracket}

/-! ### Closed operands -/

/-- One operand that ends with a token of its own: a literal, a name, a block, or a function
    whose body is a block in braces. -/
inductive IsClosed : List Token → Prop where
  | literal {t : Token} : t.kind.isLiteral = true → IsClosed [t]
  | symbol {t : Token} : t.kind = .symbol → IsClosed [t]
  | block {b : Bracket} {ts : List Token} : Generates (.block b) ts → IsClosed ts
  | function {t : Token} {us vs ws : List Token} {n : Option String} {ps : List String} :
      t.kind = .keyword .function → IsFunctionName us n → AreParameters vs ps →
      Generates (.block .brace) ws → IsClosed (t :: (us ++ vs ++ ws))

theorem Generates.kind_block (h : Generates (.block b) ts) (rest : List Token) :
    kind (ts ++ rest) = .punctuation b.opener := by
  cases h with
  | block ht => exact ht

theorem Generates.block_ne_nil (h : Generates (.block b) ts) : ts ≠ [] := by
  cases h
  exact List.cons_ne_nil _ _

/-- Neither the name of a function nor its parameters take a brace. -/
theorem AreParameters.kind_ne_symbol {ps : List String} (h : AreParameters vs ps)
    (hws : kind ws = .punctuation .openBrace) : kind (vs ++ ws) ≠ .symbol := by
  have hopen {t : Token} {us : List Token} (ht : t.kind = .punctuation .openParen) :
      kind (t :: us) ≠ .symbol := by
    rw [kind_cons, ht]
    decide
  cases h with
  | absent =>
    rw [List.nil_append, hws]
    decide
  | empty ht _ => exact hopen ht
  | names ht _ => exact hopen ht

theorem IsClosed.generates (h : IsClosed ts) : Generates .operand ts := by
  cases h with
  | literal ht => exact .literal ht
  | symbol ht => exact .symbol ht
  | block h => exact .bracketed h
  | @function t us vs ws n ps ht hn hps hws =>
    have hbrace : kind (ws ++ []) = .punctuation .openBrace := hws.kind_block []
    rw [List.append_nil] at hbrace
    refine .function ht hn hps (.braces hws) (fun _ => hps.kind_ne_symbol hbrace) fun _ => ?_
    rw [hbrace]
    decide

theorem IsClosed.startsOperand (h : IsClosed ts) (rest : List Token) :
    Kind.startsOperand (kind (ts ++ rest)) = true := by
  have hfollows : Follows .operand ts := h.generates.follows
  rw [kind_append (hfollows.ne_nil rfl)]
  exact hfollows.startsOperand

/-! ### Where closed operands end -/

/-- Whatever the reader makes of the tokens, it takes them all and nothing more, and makes the
    same of them in front of anything. -/
def EndsWith (x : Reader (List Token) Expr) (us : List Token) : Prop :=
  ∀ ⦃e rest mid⦄, x (us ++ rest) = .ok e mid →
    mid = rest ∧ ∀ ⦃us'⦄, us'.map Token.shape = us.map Token.shape →
      ∀ rest', ∃ e', x (us' ++ rest') = .ok e' rest' ∧ e'.unlocated = e.unlocated

/-- The first token tells which reader comes next. -/
theorem EndsWith.congr {x y : Reader (List Token) Expr} (h : EndsWith x us) (hne : us ≠ [])
    (hxy : ∀ ts, kind ts = kind us → y ts = x ts) : EndsWith y us := by
  intro e rest mid he
  rw [hxy _ (kind_append hne rest)] at he
  obtain ⟨hmid, hcarry⟩ := h he
  refine ⟨hmid, fun us' hus' rest' => ?_⟩
  have hkind := kind_append_of_shapes hus' hne rest rest'
  rw [hxy _ (hkind.trans (kind_append hne rest))]
  exact hcarry hus' rest'

theorem endsWith_block (h : Generates (.block b) us) :
    EndsWith (block (expression depth) b) us := by
  intro e rest mid he
  have htakes := expression_takes depth
  obtain ⟨used, hused, -, hcarry⟩ :=
    block_carries htakes (carries_expression (Nat.le_refl depth)) htakes (h.kind_block rest) he
  -- Where there is enough depth, the reader stops behind the closing bracket.
  have hstop : mid = rest := by
    have hdeep := expression_takes (depth + us.length)
    obtain ⟨used', hused', -, hcarry'⟩ :=
      block_carries htakes (carries_expression (Nat.le_add_right depth us.length)) hdeep
        (h.kind_block rest) he
    obtain ⟨e', he', -⟩ := hcarry' rfl mid
    rw [← hused'] at he'
    cases h with
    | @block _ t c ts ht hts hc =>
      have hcloser : kind (c :: rest) = .punctuation b.closer := hc
      have hlen : ts.length ≤ depth + (t :: ts ++ [c]).length := by
        simp only [List.length_append, List.length_cons]
        omega
      obtain ⟨⟨separated, xs⟩, hxs⟩ :=
        (readsUpTo_expression _).exists_statements hts.follows hlen hcloser
      have hassoc : t :: ts ++ [c] ++ rest = t :: (ts ++ c :: rest) := by simp
      rw [hassoc, block_eq_ok hdeep ht hxs] at he'
      cases he'
      rfl
  subst hstop
  obtain rfl := List.append_cancel_right hused
  exact ⟨rfl, hcarry⟩

theorem endsWith_function {t : Token} {n : Option String} {ps : List String}
    (ht : t.kind = .keyword .function) (hn : IsFunctionName us n) (hps : AreParameters vs ps)
    (hws : Generates (.block .brace) ws) :
    EndsWith (function (expression depth)) (t :: (us ++ vs ++ ws)) := by
  intro e rest mid he
  have hbody : EndsWith (functionBody (expression depth)) ws := by
    refine (endsWith_block hws).congr hws.block_ne_nil fun ts hts => functionBody_brace ?_
    rw [hts, ← kind_append hws.block_ne_nil []]
    exact hws.kind_block []
  have hbrace := hws.kind_block rest
  have hassoc (t : Token) (us vs ws rest : List Token) :
      t :: (us ++ vs ++ ws) ++ rest = t :: (us ++ vs ++ (ws ++ rest)) := by simp
  rw [hassoc, function_eq_bind ht hn hps (fun _ => hps.kind_ne_symbol hbrace)
    fun _ => by rw [hbrace]; decide] at he
  obtain ⟨body, mid', hread, hpure⟩ := bind_eq_ok.mp he
  obtain ⟨rfl, rfl⟩ := pure_eq_ok.mp hpure
  obtain ⟨hmid, hcarry⟩ := hbody hread
  refine ⟨hmid, fun used' hused' rest' => ?_⟩
  obtain ⟨t', later, rfl, ht', hlater⟩ := List.map_eq_cons_iff.mp hused'
  rw [List.map_append] at hlater
  obtain ⟨front, ws', rfl, hfront, hws'⟩ := List.map_eq_append_iff.mp hlater
  rw [List.map_append] at hfront
  obtain ⟨us', vs', rfl, hus', hvs'⟩ := List.map_eq_append_iff.mp hfront
  obtain ⟨body', hbody', hsame⟩ := hcarry hws' rest'
  have hps' := hps.of_shapes hvs'
  have hbrace' := (kind_append_of_shapes hws' hws.block_ne_nil rest rest').trans hbrace
  refine ⟨.function n ps body' (some t'.location), ?_, ?_⟩
  · rw [hassoc]
    exact function_eq_ok ((congrArg Shape.kind ht').trans ht) (hn.of_shapes hus') hps'
      (fun _ => hps'.kind_ne_symbol hbrace') (fun _ => by rw [hbrace']; decide) hbody'
  · rw [Expr.unlocated, Expr.unlocated, hsame]

/-- **A closed operand is read in front of anything** as it is read in one place. -/
theorem IsClosed.endsWith (h : IsClosed us) : EndsWith (operand (expression depth)) us := by
  cases h with
  | @literal t ht =>
    intro e rest mid he
    obtain ⟨v, hv⟩ := exists_literal?_of_isLiteral ht
    rw [List.singleton_append, operand_literal hv] at he
    cases he
    refine ⟨rfl, fun us' hus' rest' => ?_⟩
    obtain ⟨t', rfl, ht'⟩ := List.map_eq_singleton_iff.mp hus'
    exact ⟨_, operand_literal (by rw [ht', hv]) rest', rfl⟩
  | @symbol t ht =>
    intro e rest mid he
    obtain ⟨n, hn⟩ := exists_shape_of_kind ht
    rw [List.singleton_append, operand_symbol hn] at he
    cases he
    refine ⟨rfl, fun us' hus' rest' => ?_⟩
    obtain ⟨t', rfl, ht'⟩ := List.map_eq_singleton_iff.mp hus'
    exact ⟨_, operand_symbol (ht'.trans hn) rest', rfl⟩
  | @block b _ h =>
    refine (endsWith_block h).congr h.block_ne_nil fun ts hts => operand_block ?_
    rw [hts, ← kind_append h.block_ne_nil []]
    exact h.kind_block []
  | function ht hn hps hws =>
    have hread : EndsWith (Grammar.function (expression depth)) _ := endsWith_function ht hn hps hws
    exact hread.congr (List.cons_ne_nil _ _) fun ts hts => operand_function (hts.trans ht)

/-! ### Operands that are read by themselves -/

theorem exists_operand_of_application {nested : Reader (List Token) Expr}
    (h : application nested ts = .ok e rest) : ∃ b mid, operand nested ts = .ok b mid := by
  obtain ⟨f, mid, hf, -⟩ := bind_eq_ok.mp h
  obtain ⟨seed, mid', hseed, -⟩ := bind_eq_ok.mp hf
  obtain ⟨b, mid'', hb, -⟩ := bind_eq_ok.mp hseed
  exact ⟨b, mid'', hb⟩

/-- A closed operand with its marks has the tree that it has by itself, and at the same depth. -/
theorem ReadsExpression.readsOperand {marks : List Token}
    (h : ReadsExpression (expression (depth + 1)) (us ++ marks) e)
    (hus : IsClosed us) (hmarks : ∀ t ∈ marks, t.kind = .punctuation .bang)
    (hts : ts.map Token.shape = (us ++ marks).map Token.shape) :
    ReadsOperand (expression depth) ts e := by
  have hstops : Stops [] := stops_of_end rfl
  obtain ⟨-, e', he', hsame⟩ := h hstops
  have hstart := hus.startsOperand (marks ++ [])
  rw [List.append_assoc, expression, expressionOver_of_startsOperand hstart] at he'
  obtain ⟨b, mid, hb⟩ := exists_operand_of_application he'
  obtain ⟨rfl, hcarry⟩ := hus.endsWith hb
  have hinvoked := invoked_eq_ok hb (many_marks hmarks hstops.bang)
  rw [application_of_invoked (expression_takes depth) hinvoked hstops] at he'
  cases he'
  rw [List.map_append] at hts
  obtain ⟨us', marks', rfl, hus', hmarks'⟩ := List.map_eq_append_iff.mp hts
  refine ⟨us', marks', rfl, ?_, fun rest => ?_⟩
  · intro t ht
    obtain ⟨m, hm, hshape⟩ := List.mem_map.mp (hmarks' ▸ List.mem_map_of_mem ht)
    exact (congrArg Shape.kind hshape.symm).trans (hmarks m hm)
  · obtain ⟨b', hb', hsame'⟩ := hcarry hus' rest
    have hlength : marks'.length = marks.length := by simpa using congrArg List.length hmarks'
    exact ⟨b', hb', (unlocated_marked hsame' hlength).trans hsame⟩

end Grammar

/-! ### Operands and steps as they are written -/

/-- An operand as it is written: blank space, and a text with its tree. -/
structure WrittenOperand where
  gap : String
  text : String
  tree : Expr

/-- A step as it is written: blank space, a backtick, the operator, and extra arguments. -/
structure WrittenStep where
  gap : String
  operator : WrittenOperand
  extra : List WrittenOperand

namespace WrittenOperand

def written (o : WrittenOperand) : String := o.gap ++ o.text

/-- The text is one closed operand, with any number of marks, and by itself has the tree. -/
structure IsRead (depth : Nat) (o : WrittenOperand) : Prop where
  isBlank_gap : ∀ c ∈ o.gap.toList, Text.isBlank c = true
  closed : ∃ us marks last k,
    Scanner.all (.start o.text.toList none) = .ok (us ++ marks ++ [last]) k ∧
      Grammar.IsClosed us ∧ ∀ t ∈ marks, t.kind = .punctuation .bang
  hasTree : Program.HasTree depth o.text o.tree

/-- The operand may stand behind another one. -/
structure IsReadApart (depth : Nat) (o : WrittenOperand) : Prop extends o.IsRead depth where
  gap_ne : o.gap ≠ ""

end WrittenOperand

namespace WrittenStep

def written (s : WrittenStep) : String :=
  s.gap ++ ("\x60" ++ (s.operator.written ++ String.join (s.extra.map WrittenOperand.written)))

def step (s : WrittenStep) : Step := .mk s.operator.tree (s.extra.map WrittenOperand.tree)

structure IsRead (depth : Nat) (s : WrittenStep) : Prop where
  isBlank_gap : ∀ c ∈ s.gap.toList, Text.isBlank c = true
  operator : s.operator.IsRead depth
  extra : ∀ o ∈ s.extra, o.IsReadApart depth

end WrittenStep

section Written

open Grammar

variable {depth : Nat}

theorem WrittenOperand.IsRead.fragment {o : WrittenOperand} (h : o.IsRead (depth + 1)) :
    Fragment o.written.toList (ReadsOperand (expression depth) · o.tree) := by
  obtain ⟨us, marks, last, k, hall, hus, hmarks⟩ := h.closed
  obtain ⟨ss, hss, hspells⟩ := (Scanner.scans_of_all hall).spells
  obtain ⟨ss', hwrites, hreads⟩ := h.hasTree.fragment
  rw [List.map_append] at hss
  have hshapes : (us ++ marks).map Token.shape = ss' := by
    rw [hwrites.spells.unique hspells]
    exact List.append_inj_left' hss rfl
  have htext : Fragment o.text.toList (ReadsOperand (expression depth) · o.tree) := by
    refine ⟨ss', hwrites, fun ts hts => ?_⟩
    exact (hreads _ hshapes).readsOperand hus hmarks (hts.trans hshapes.symm)
  rw [WrittenOperand.written, String.toList_append]
  exact htext.blanks h.isBlank_gap

theorem WrittenOperand.IsReadApart.atBoundary {o : WrittenOperand} (h : o.IsReadApart depth) :
    Text.AtBoundary o.written.toList := by
  have hne : o.gap.toList ≠ [] := fun hnil => h.gap_ne (String.toList_injective hnil)
  obtain ⟨c, blank, hgap⟩ := List.exists_cons_of_ne_nil hne
  rw [WrittenOperand.written, String.toList_append, hgap]
  exact Text.atBoundary_blank (h.isBlank_gap c (by rw [hgap]; exact List.mem_cons_self)) _

theorem fragment_operands {os : List WrittenOperand} (h : ∀ o ∈ os, o.IsReadApart (depth + 1)) :
    Fragment (String.join (os.map WrittenOperand.written)).toList
        (ReadsOperands (expression depth) · (os.map WrittenOperand.tree)) ∧
      Text.AtBoundary (String.join (os.map WrittenOperand.written)).toList := by
  rw [String.toList_join, List.flatMap_map]
  induction os with
  | nil => exact ⟨.nil .nil, Text.atBoundary_nil⟩
  | cons o os ih =>
    obtain ⟨ho, hos⟩ := List.forall_mem_cons.mp h
    obtain ⟨hlater, hboundary⟩ := ih hos
    rw [List.flatMap_cons]
    exact ⟨ho.fragment.append hlater hboundary fun us vs => .cons, ho.atBoundary.append hboundary⟩

/-- A step, in front of other steps. -/
theorem WrittenStep.IsRead.fragment {s : WrittenStep} (h : s.IsRead (depth + 1)) :
    Fragment s.written.toList (fun ts => ∀ ws ss, ReadsSteps (expression depth) ws ss →
        ReadsSteps (expression depth) (ts ++ ws) (s.step :: ss)) ∧
      Text.AtBoundary s.written.toList := by
  obtain ⟨hextra, hboundary⟩ := fragment_operands h.extra
  have hoperands : Fragment (s.operator.written ++
      String.join (s.extra.map WrittenOperand.written)).toList fun ts => ∃ us vs, ts = us ++ vs ∧
        ReadsOperand (expression depth) us s.operator.tree ∧
        ReadsOperands (expression depth) vs (s.extra.map WrittenOperand.tree) := by
    rw [String.toList_append]
    exact h.operator.fragment.append hextra hboundary fun us vs hus hvs => ⟨us, vs, rfl, hus, hvs⟩
  have hmark : Text.AtBoundary ("\x60" ++ (s.operator.written ++
      String.join (s.extra.map WrittenOperand.written))).toList := by
    rw [String.toList_append]
    exact Text.atBoundary_mark .backtick _
  rw [WrittenStep.written, String.toList_append]
  refine ⟨Fragment.blanks ?_ h.isBlank_gap, (Text.atBoundary_of_isBlank h.isBlank_gap).append hmark⟩
  rw [String.toList_append]
  refine hoperands.mark .backtick ?_
  rintro t ts ht ⟨us, vs, rfl, hus, hvs⟩ ws ss hws
  exact .cons ht hus hvs hws

theorem fragment_steps {ss : List WrittenStep} (h : ∀ s ∈ ss, s.IsRead (depth + 1)) :
    Fragment (String.join (ss.map WrittenStep.written)).toList
        (ReadsSteps (expression depth) · (ss.map WrittenStep.step)) ∧
      Text.AtBoundary (String.join (ss.map WrittenStep.written)).toList := by
  rw [String.toList_join, List.flatMap_map]
  induction ss with
  | nil => exact ⟨.nil .nil, Text.atBoundary_nil⟩
  | cons s ss ih =>
    obtain ⟨hs, hss⟩ := List.forall_mem_cons.mp h
    obtain ⟨hlater, hboundary⟩ := ih hss
    obtain ⟨hstep, hapart⟩ := hs.fragment
    rw [List.flatMap_cons]
    exact ⟨hstep.append hlater hboundary fun us vs hus hvs => hus vs _ hvs, hapart.append hboundary⟩

end Written

/-! ### The tree of a sequence -/

namespace Expr

/-- The tree with steps behind it; a chain goes on with them. -/
def continued (steps : List Step) : Expr → Expr
  | .chain seed earlier _ => .chain seed (earlier ++ steps) none
  | e => .chain e steps none

/-- The tree of operands side by side with steps behind them: the first operand is called on the
    others, and the steps are those of the last operand. -/
def juxtaposed (first : Expr) (more : List Expr) (steps : List Step) : Expr :=
  if steps.isEmpty then
    if more.isEmpty then first else .call first more none
  else
    match more.getLast? with
    | none => first.continued steps
    | some last => .call first (more.dropLast ++ [last.continued steps]) none

theorem unlocated_chainOf_eq (e : Expr) (ss : List Step) :
    (Grammar.chainOf e ss).unlocated = (if ss.isEmpty then e else e.continued ss).unlocated := by
  cases ss with
  | nil => rfl
  | cons s ss => cases e <;> rfl

/-- The last operand with its steps stands where it stood without them. -/
theorem unlocated_juxtaposed {first e f : Expr} {more xs args : List Expr} {ss : List Step}
    (hmore : xs ++ [e] = first :: more) (hargs : xs ++ [Grammar.chainOf e ss] = f :: args) :
    (Grammar.callOf f args).unlocated = (juxtaposed first more ss).unlocated := by
  have hlast := unlocated_chainOf_eq e ss
  cases xs with
  | nil =>
    obtain ⟨rfl, rfl⟩ := List.cons.inj hmore
    obtain ⟨rfl, rfl⟩ := List.cons.inj hargs
    exact hlast
  | cons x xs =>
    rw [List.cons_append] at hmore hargs
    obtain ⟨rfl, rfl⟩ := List.cons.inj hmore
    obtain ⟨rfl, rfl⟩ := List.cons.inj hargs
    have hcall : juxtaposed x (xs ++ [e]) ss =
        .call x (xs ++ [if ss.isEmpty then e else e.continued ss]) none := by
      cases ss <;> simp [juxtaposed]
    rw [hcall, Grammar.callOf_eq_call x (by simp), unlocated, unlocated, unlocatedAll_eq_map,
      unlocatedAll_eq_map, List.map_append, List.map_append, List.map_singleton,
      List.map_singleton, hlast]

end Expr

namespace Program

open Grammar

theorem HasTree.pos {depth : Nat} {text : String} {e : Expr} (h : HasTree depth text e) :
    0 < depth := by
  obtain ⟨filename, e', he', -⟩ := h
  obtain ⟨ts, last, -, -, hprogram⟩ := exists_program_of_parseTo he'
  refine Nat.pos_of_ne_zero ?_
  rintro rfl
  exact refuse_ne_ok _ _ _ _ (expression_of_program hprogram)

/-- **Juxtaposition.**  Closed operands with blank space between them, and steps behind them,
    are one call of the first operand on the others, in which the steps belong to the last
    operand and go on with it if it is a chain itself.  One operand is no call. -/
theorem readsFrom_juxtaposed {depth : Nat} {first : WrittenOperand} {more : List WrittenOperand}
    {steps : List WrittenStep} (hfirst : first.IsRead depth)
    (hmore : ∀ o ∈ more, o.IsReadApart depth) (hsteps : ∀ s ∈ steps, s.IsRead depth) :
    ReadsFrom depth
      (first.written ++ (String.join (more.map WrittenOperand.written) ++
        String.join (steps.map WrittenStep.written)))
      (Expr.juxtaposed first.tree (more.map WrittenOperand.tree) (steps.map WrittenStep.step)) := by
  obtain ⟨depth, rfl⟩ := Nat.exists_eq_succ_of_ne_zero (Nat.ne_of_gt hfirst.hasTree.pos)
  obtain ⟨hargs, hboundary⟩ := fragment_operands hmore
  obtain ⟨hchain, hboundary'⟩ := fragment_steps hsteps
  have hbehind : Fragment ((String.join (more.map WrittenOperand.written)).toList ++
      (String.join (steps.map WrittenStep.written)).toList) fun ts => ∃ vs ws, ts = vs ++ ws ∧
        ReadsOperands (expression depth) vs (more.map WrittenOperand.tree) ∧
        ReadsSteps (expression depth) ws (steps.map WrittenStep.step) :=
    hargs.append hchain hboundary' fun vs ws hvs hws => ⟨vs, ws, rfl, hvs, hws⟩
  refine readsFrom_of_fragment ?_
  rw [String.toList_append, String.toList_append]
  refine hfirst.fragment.append hbehind (hboundary.append hboundary') ?_
  rintro us _ hus ⟨vs, ws, rfl, hvs, hws⟩ rest hrest
  -- The steps are read behind the last operand, which may be the first one.
  obtain ⟨xs, e, hlist⟩ : ∃ xs e, xs ++ [e] = first.tree :: more.map WrittenOperand.tree :=
    ⟨_, _, List.dropLast_append_getLast (List.cons_ne_nil _ _)⟩
  have hoperands : ReadsOperands (expression depth) (us ++ vs) (xs ++ [e]) := by
    rw [hlist]
    exact .cons hus hvs
  obtain ⟨us', vs', hsplit, hinit, hlast⟩ := hoperands.exists_concat
  obtain ⟨f, args, hcall⟩ : ∃ f args, xs ++ [chainOf e (steps.map WrittenStep.step)] = f :: args :=
    List.exists_cons_of_ne_nil (by simp)
  obtain ⟨e', he', hsame⟩ :=
    exists_application_of_operands (expression_takes depth) hinit hlast hws hrest hcall
  have hassoc : us ++ (vs ++ ws) ++ rest = us' ++ (vs' ++ (ws ++ rest)) := by
    rw [← List.append_assoc us' vs', ← hsplit]
    simp
  have hstart : Kind.startsOperand (TokenList.kind (us ++ (vs ++ ws) ++ rest)) = true := by
    rw [List.append_assoc]
    exact hus.startsOperand _
  refine ⟨startsExpression_of_startsOperand hstart, e', ?_,
    hsame.trans (Expr.unlocated_juxtaposed hlist hcall)⟩
  rw [expression, expressionOver_of_startsOperand hstart, hassoc, he']

/-- A chain in parentheses, behind another operand. -/
def groupedChain : WrittenOperand :=
  ⟨" ", "(a\x60p)", .chain (.symbol "a" none) [.mk (.symbol "p" none) []] none⟩

/-- A call without arguments of a block, behind another operand. -/
def calledBlock : WrittenOperand := ⟨" ", "\x7b\x7d !", .invocation (.block .brace [] none) none⟩

/-- A step whose backtick stands behind the last operand. -/
def numberStep : WrittenStep :=
  ⟨"", ⟨" ", "q", .symbol "q" none⟩, [⟨" ", "1", .literal (.integer 1) none⟩]⟩

/-- A step behind a chain that is the last of three operands. -/
theorem readsFrom_juxtaposed_groupedChain :
    WrittenOperand.IsRead 2 ⟨"", "f", .symbol "f" none⟩ ∧
      (∀ o ∈ [calledBlock, groupedChain], o.IsReadApart 2) ∧
      (∀ s ∈ [numberStep], s.IsRead 2) ∧
      ReadsFrom 2 "f \x7b\x7d ! (a\x60p)\x60 q 1"
        (.call (.symbol "f" none)
          [.invocation (.block .brace [] none) none,
            .chain (.symbol "a" none) [.mk (.symbol "p" none) [],
              .mk (.symbol "q" none) [.literal (.integer 1) none]] none] none) := by
  have hnothing : ∀ c ∈ "".toList, Text.isBlank c = true := List.all_eq_true.mp (by decide)
  have hspace : ∀ c ∈ " ".toList, Text.isBlank c = true := List.all_eq_true.mp (by decide)
  have hname : WrittenOperand.IsRead 2 ⟨"", "f", .symbol "f" none⟩ := by
    refine ⟨hnothing, ⟨[_], [], _, _, rfl, .symbol rfl, by decide⟩, none, _, rfl, rfl⟩
  have hblock : calledBlock.IsReadApart 2 := by
    refine ⟨⟨hspace, ⟨[_, _], [_], _, _, rfl, ?_, by decide⟩, none, _, rfl, rfl⟩, by decide⟩
    exact .block (@Generates.block .brace _ _ [] rfl .noStatement rfl)
  have hchain : groupedChain.IsReadApart 2 := by
    have htree : HasTree 2 groupedChain.text groupedChain.tree :=
      hasTree_of_same none (by decide) (by decide +kernel)
    refine ⟨⟨hspace, ⟨[_, _, _, _, _], [], _, _, rfl, ?_, by decide⟩, htree⟩, by decide⟩
    refine .block (@Generates.block .paren _ _ [_, _, _] rfl ?_ rfl)
    refine @Generates.statements [_, _, _] [] ?_ .noMore
    refine @Generates.application [_, _, _] [] ?_ .noArgument
    refine @Generates.chained [_] [_, _] (.operand (.symbol rfl)) ?_
    exact @Generates.step _ [_] [] [] rfl (.operand (.symbol rfl)) .noExtra .noStep
  have hstep : numberStep.IsRead 2 := by
    refine ⟨hnothing, ⟨hspace, ⟨[_], [], _, _, rfl, .symbol rfl, by decide⟩, ?_⟩, ?_⟩
    · exact ⟨none, _, rfl, rfl⟩
    · rintro o (_ | ⟨_, ⟨⟩⟩)
      refine ⟨⟨hspace, ⟨[_], [], _, _, rfl, .literal rfl, by decide⟩, ?_⟩, by decide⟩
      exact ⟨none, _, rfl, rfl⟩
  have hmore : ∀ o ∈ [calledBlock, groupedChain], o.IsReadApart 2 :=
    List.forall_mem_cons.mpr ⟨hblock, List.forall_mem_singleton.mpr hchain⟩
  have hsteps : ∀ s ∈ [numberStep], s.IsRead 2 := List.forall_mem_singleton.mpr hstep
  have htext : "f \x7b\x7d ! (a\x60p)\x60 q 1" =
      WrittenOperand.written ⟨"", "f", .symbol "f" none⟩ ++
        (String.join ([calledBlock, groupedChain].map WrittenOperand.written) ++
          String.join ([numberStep].map WrittenStep.written)) := by decide
  rw [htext]
  exact ⟨hname, hmore, hsteps, readsFrom_juxtaposed hname hmore hsteps⟩

end Program

end Juxta
