/-
  Juxta/Proofs/Grammar/Context.lean
  =================================
  **Trees do not depend on their context** — the reader looks no further than one token behind
  an expression, and it asks no more of that token than whether the expression goes on there.
  Whatever it has read in one place it therefore reads in every other, up to locations, if the
  tokens have the same shapes and what comes after them stops alike (`carries_expression`).

  `Carries view x y` says this of two readers: what `x` reads, `y` reads as well.  Two readers and
  not one, because the second may allow more expressions nested in each other.  A block needs
  nothing behind it, for it ends with its own bracket (`block_carries`).
-/
import Juxta.Proofs.Expr.Nodes
import Juxta.Proofs.Grammar.Greedy
import Juxta.Proofs.Grammar.Supply

namespace Juxta

namespace Grammar

open TokenList

/-! ### Tokens of the same shapes -/

section Shapes

variable {us us' rest rest' : List Token}

theorem kind_append_of_shapes (h : us'.map Token.shape = us.map Token.shape) (hne : us ≠ [])
    (rest rest' : List Token) : kind (us' ++ rest') = kind (us ++ rest) := by
  obtain ⟨t, us, rfl⟩ := List.exists_cons_of_ne_nil hne
  obtain ⟨t', us', rfl, ht, -⟩ := List.map_eq_cons_iff.mp h
  exact congrArg Shape.kind ht

theorem IsFunctionName.of_shapes {n : Option String} (h : IsFunctionName us n)
    (hus : us'.map Token.shape = us.map Token.shape) : IsFunctionName us' n := by
  cases h with
  | unnamed =>
    obtain rfl := List.map_eq_nil_iff.mp hus
    exact .unnamed
  | named ht =>
    obtain ⟨t', rfl, ht'⟩ := List.map_eq_singleton_iff.mp hus
    exact .named (ht'.trans ht)

theorem AreNames.of_shapes {ns : List String} (h : AreNames us ns)
    (hus : us'.map Token.shape = us.map Token.shape) : AreNames us' ns := by
  induction h generalizing us' with
  | last ht hc =>
    obtain ⟨t', vs', rfl, ht', hvs⟩ := List.map_eq_cons_iff.mp hus
    obtain ⟨c', rfl, hc'⟩ := List.map_eq_singleton_iff.mp hvs
    exact .last (ht'.trans ht) ((congrArg Shape.kind hc').trans hc)
  | more ht hc _ ih =>
    obtain ⟨t', vs', rfl, ht', hvs⟩ := List.map_eq_cons_iff.mp hus
    obtain ⟨c', ws', rfl, hc', hws⟩ := List.map_eq_cons_iff.mp hvs
    exact .more (ht'.trans ht) ((congrArg Shape.kind hc').trans hc) (ih hws)

theorem AreParameters.of_shapes {ns : List String} (h : AreParameters us ns)
    (hus : us'.map Token.shape = us.map Token.shape) : AreParameters us' ns := by
  cases h with
  | absent =>
    obtain rfl := List.map_eq_nil_iff.mp hus
    exact .absent
  | empty ht hc =>
    obtain ⟨t', vs', rfl, ht', hvs⟩ := List.map_eq_cons_iff.mp hus
    obtain ⟨c', rfl, hc'⟩ := List.map_eq_singleton_iff.mp hvs
    exact .empty ((congrArg Shape.kind ht').trans ht) ((congrArg Shape.kind hc').trans hc)
  | names ht hns =>
    obtain ⟨t', vs', rfl, ht', hvs⟩ := List.map_eq_cons_iff.mp hus
    exact .names ((congrArg Shape.kind ht').trans ht) (hns.of_shapes hvs)

/-- A token of the same kind comes next, or nothing goes on in either place. -/
def StopsAlike (rest rest' : List Token) : Prop :=
  kind rest' = kind rest ∨ Stops rest ∧ Stops rest'

theorem StopsAlike.append (hrest : StopsAlike rest rest')
    (h : us'.map Token.shape = us.map Token.shape) : StopsAlike (us ++ rest) (us' ++ rest') := by
  cases us with
  | nil =>
    obtain rfl := List.map_eq_nil_iff.mp h
    exact hrest
  | cons t us => exact Or.inl (kind_append_of_shapes h (List.cons_ne_nil t us) rest rest')

/-- What begins nowhere where an expression stops begins in both places or in neither. -/
theorem StopsAlike.begins_eq {begins : Kind → Bool} (h : StopsAlike rest rest')
    (hstop : ∀ ts, Stops ts → begins (kind ts) = false) :
    begins (kind rest') = begins (kind rest) := by
  rcases h with h | ⟨h, h'⟩
  · rw [h]
  · rw [hstop rest h, hstop rest' h']

end Shapes

/-! ### Readers that carry over -/

section Carrying

variable {α β : Type}

/-- What the first reader reads in front of a token of a kind that `begins` allows, the second
    one reads from tokens of the same shapes, if they stop alike.  The values look the same. -/
def CarriesAt (begins : Kind → Bool) (view : α → β) (x y : Reader (List Token) α) : Prop :=
  ∀ ⦃ts a rest⦄, begins (kind ts) = true → x ts = .ok a rest →
    ∃ used, ts = used ++ rest ∧ ∀ ⦃used' rest'⦄, used'.map Token.shape = used.map Token.shape →
      StopsAlike rest rest' → ∃ b, y (used' ++ rest') = .ok b rest' ∧ view b = view a

/-- What the first reader reads, the second one reads from tokens of the same shapes, if they stop
    alike.  The values look the same. -/
def Carries (view : α → β) (x y : Reader (List Token) α) : Prop :=
  ∀ ⦃ts a rest⦄, x ts = .ok a rest →
    ∃ used, ts = used ++ rest ∧ ∀ ⦃used' rest'⦄, used'.map Token.shape = used.map Token.shape →
      StopsAlike rest rest' → ∃ b, y (used' ++ rest') = .ok b rest' ∧ view b = view a

variable {view : α → β} {x y : Reader (List Token) α}

theorem Carries.at (h : Carries view x y) (begins : Kind → Bool) : CarriesAt begins view x y :=
  fun _ _ _ _ hx => h hx

theorem carries_pure {a b : α} (h : view b = view a) : Carries view (pure a) (pure b) := by
  intro ts c rest hc
  obtain ⟨rfl, rfl⟩ := pure_eq_ok.mp hc
  refine ⟨[], rfl, fun used' rest' hused' _ => ⟨b, ?_, h⟩⟩
  obtain rfl := List.map_eq_nil_iff.mp hused'
  rfl

theorem Carries.bind {γ δ : Type} {view' : γ → δ} {f g : α → Reader (List Token) γ}
    (h : Carries view x y) (hf : ∀ a b, view b = view a → Carries view' (f a) (g b)) :
    Carries view' (x >>= f) (y >>= g) := by
  intro ts c rest hboth
  obtain ⟨a, mid, ha, hc⟩ := bind_eq_ok.mp hboth
  obtain ⟨us, rfl, hfirst⟩ := h ha
  obtain ⟨vs, rfl, -⟩ := hf a a rfl hc
  refine ⟨us ++ vs, (List.append_assoc us vs rest).symm, fun used' rest' hused' halike => ?_⟩
  rw [List.map_append] at hused'
  obtain ⟨us', vs', rfl, hus', hvs'⟩ := List.map_eq_append_iff.mp hused'
  obtain ⟨b, hb, hsame⟩ := hfirst hus' (halike.append hvs')
  obtain ⟨ws, hws, hsecond⟩ := hf a b hsame hc
  obtain rfl := List.append_cancel_right hws
  obtain ⟨d, hd, hsame'⟩ := hsecond hvs' halike
  refine ⟨d, ?_, hsame'⟩
  rw [List.append_assoc, bind_of_ok hb]
  exact hd

variable {begins : Kind → Bool}

/-- What a repetition has read, are its items. -/
theorem Many.of_manyUpTo (hend : begins .endOfInput = false) (hitem : Consumes begins x) {n : Nat}
    {ts rest : List Token} {xs : List α} (hn : pending ts ≤ n)
    (h : manyUpTo begins x n ts = .ok xs rest) : Many begins x ts xs rest := by
  induction n generalizing ts xs with
  | zero =>
    obtain ⟨rfl, rfl⟩ := pure_eq_ok.mp h
    exact .done (by rw [kind_of_pending (Nat.le_zero.mp hn), hend])
  | succ n ih =>
    cases hbegins : begins (kind ts) with
    | false =>
      rw [manyUpTo_done hbegins] at h
      cases h
      exact .done hbegins
    | true =>
      rw [manyUpTo_more hbegins] at h
      obtain ⟨a, mid, ha, h⟩ := bind_eq_ok.mp h
      obtain ⟨later, mid', hlater, h⟩ := bind_eq_ok.mp h
      obtain ⟨rfl, rfl⟩ := pure_eq_ok.mp h
      have hlt := hitem.pending_lt hbegins ha
      exact .more hbegins ha (ih (by omega) hlater)

theorem CarriesAt.many_items (h : CarriesAt begins view x y)
    (hstop : ∀ ts, Stops ts → begins (kind ts) = false) {ts rest : List Token} {xs : List α}
    (hxs : Many begins x ts xs rest) :
    ∃ used, ts = used ++ rest ∧ ∀ ⦃used' rest'⦄, used'.map Token.shape = used.map Token.shape →
      StopsAlike rest rest' →
      ∃ ys, Many begins y (used' ++ rest') ys rest' ∧ ys.map view = xs.map view := by
  induction hxs with
  | @done rest hbegins =>
    refine ⟨[], rfl, fun used' rest' hused' halike => ⟨[], ?_, rfl⟩⟩
    obtain rfl := List.map_eq_nil_iff.mp hused'
    exact .done ((halike.begins_eq hstop).trans hbegins)
  | @more ts mid rest a xs hbegins ha _ ih =>
    obtain ⟨vs, rfl, hcarry⟩ := ih
    obtain ⟨us, rfl, hitem⟩ := h hbegins ha
    refine ⟨us ++ vs, (List.append_assoc us vs rest).symm, fun used' rest' hused' halike => ?_⟩
    rw [List.map_append] at hused'
    obtain ⟨us', vs', rfl, hus', hvs'⟩ := List.map_eq_append_iff.mp hused'
    have hlater := halike.append hvs'
    obtain ⟨b, hb, hsame⟩ := hitem hus' hlater
    obtain ⟨ys, hys, hsame'⟩ := hcarry hvs' halike
    refine ⟨b :: ys, ?_, by rw [List.map_cons, List.map_cons, hsame, hsame']⟩
    rw [List.append_assoc]
    exact .more (((hlater.append hus').begins_eq hstop).trans hbegins) hb hys

/-- A repetition carries over if its items do. -/
theorem CarriesAt.many (h : CarriesAt begins view x y)
    (hstop : ∀ ts, Stops ts → begins (kind ts) = false) (hx : Consumes begins x)
    (hy : Consumes begins y) : Carries (List.map view) (many begins x) (many begins y) := by
  intro ts xs rest hxs
  have hend : begins .endOfInput = false := hstop [] (stops_of_end rfl)
  obtain ⟨used, rfl, hcarry⟩ :=
    h.many_items hstop (Many.of_manyUpTo hend hx List.countP_le_length hxs)
  refine ⟨used, rfl, fun used' rest' hused' halike => ?_⟩
  obtain ⟨ys, hys, hsame⟩ := hcarry hused' halike
  exact ⟨ys, hys.many_eq_ok hy, hsame⟩

end Carrying

/-! ### Trees without locations -/

section Trees

variable {e e' : Expr} {xs xs' : List Expr} {ss ss' : List Step}

theorem chainOf_unlocated (e : Expr) (ss : List Step) :
    (chainOf e ss).unlocated = chainOf e.unlocated (ss.map Expr.unlocatedStep) := by
  cases ss with
  | nil => rfl
  | cons s ss =>
    rw [List.map_cons]
    cases e <;> simp [chainOf, Expr.unlocated, Expr.unlocatedSteps_eq_map, Expr.location]

theorem callOf_unlocated (e : Expr) (xs : List Expr) :
    (callOf e xs).unlocated = callOf e.unlocated (xs.map Expr.unlocated) := by
  cases xs with
  | nil => rfl
  | cons x xs =>
    rw [List.map_cons]
    cases e <;> simp [callOf, Expr.unlocated, Expr.unlocatedAll_eq_map, Expr.location]

theorem callOf_eq_call (e : Expr) (hne : xs ≠ []) : callOf e xs = .call e xs e.location := by
  obtain ⟨x, xs, rfl⟩ := List.exists_cons_of_ne_nil hne
  rfl

theorem unlocated_blockOf_congr {b : Bracket} {separated : Bool} (l l' : Location)
    (h : xs'.map Expr.unlocated = xs.map Expr.unlocated) :
    (blockOf b separated xs' l').unlocated = (blockOf b separated xs l).unlocated := by
  have hblock : (Expr.block b xs' (some l')).unlocated = (Expr.block b xs (some l)).unlocated := by
    rw [Expr.unlocated, Expr.unlocated, Expr.unlocatedAll_eq_map, Expr.unlocatedAll_eq_map, h]
  cases b with
  | brace => exact hblock
  | paren =>
    cases separated with
    | true => exact hblock
    | false =>
      rcases xs with _ | ⟨x, _ | ⟨y, xs⟩⟩
      · obtain rfl := List.map_eq_nil_iff.mp h
        exact hblock
      · obtain ⟨x', rfl, hx⟩ := List.map_eq_singleton_iff.mp h
        have hassignment : x'.isAssignment = x.isAssignment := by
          rw [← x'.isAssignment_unlocated, hx, x.isAssignment_unlocated]
        simp only [blockOf, hassignment]
        cases x.isAssignment with
        | true => exact hblock
        | false => exact hx
      · obtain ⟨x', later, rfl, -, hlater⟩ := List.map_eq_cons_iff.mp h
        obtain ⟨y', xs', rfl, -, -⟩ := List.map_eq_cons_iff.mp hlater
        exact hblock

theorem unlocated_marked {marks marks' : List Token} (he : e'.unlocated = e.unlocated)
    (h : marks'.length = marks.length) :
    (marks'.foldl (fun e _ => .invocation e e.location) e').unlocated =
      (marks.foldl (fun e _ => Expr.invocation e e.location) e).unlocated := by
  induction marks generalizing marks' e e' with
  | nil =>
    obtain rfl := List.length_eq_zero_iff.mp h
    exact he
  | cons t marks ih =>
    obtain ⟨t', marks', rfl⟩ := List.exists_cons_of_length_eq_add_one h
    have hstep : (Expr.invocation e' e'.location).unlocated =
        (Expr.invocation e e.location).unlocated := by rw [Expr.unlocated, Expr.unlocated, he]
    rw [List.foldl_cons, List.foldl_cons]
    exact ih hstep (Nat.succ.inj h)

end Trees

/-! ### Blocks -/

theorem TakesAt.ne_nil {p : Phrase} (hp : p.mayBeEmpty = false) {begins : Kind → Bool}
    {x : Reader (List Token) p.Value} (h : TakesAt begins x (Builds p)) {used rest : List Token}
    {v : p.Value} (hbegins : begins (kind (used ++ rest)) = true)
    (hx : x (used ++ rest) = .ok v rest) : used ≠ [] := by
  obtain ⟨us, hus, hbuilds⟩ := h hbegins hx
  obtain rfl := List.append_cancel_right hus
  exact hbuilds.ne_nil hp

theorem Takes.ne_nil {p : Phrase} (hp : p.mayBeEmpty = false) {x : Reader (List Token) p.Value}
    (h : Takes x (Builds p)) {used rest : List Token} {v : p.Value}
    (hx : x (used ++ rest) = .ok v rest) : used ≠ [] :=
  TakesAt.ne_nil hp (h.at fun _ => true) rfl hx

section Nested

variable {x y : Reader (List Token) Expr} {ts rest : List Token} {b : Bracket}

theorem statement_eq_ok_iff {e : Expr} :
    statement x b ts = .ok e rest ↔ Kind.startsExpression (kind ts) = true ∧ x ts = .ok e rest := by
  constructor
  · intro h
    rw [statement, nextIs_bind] at h
    split at h
    · rename_i hstart
      exact ⟨hstart, h⟩
    · exact absurd h (refuse_ne_ok _ _ _ _)
  · rintro ⟨hstart, h⟩
    exact statement_eq_ok hstart h

variable (hx : Takes x (Builds .expression))
include hx

theorem Later.of_moreStatements {n : Nat} {v : Bool × List Expr} (hn : pending ts ≤ n)
    (h : moreStatements x b n ts = .ok v rest) (hrest : kind rest = .punctuation b.closer) :
    Later x b ts v rest := by
  induction n generalizing ts v with
  | zero =>
    obtain ⟨rfl, rfl⟩ := pure_eq_ok.mp h
    exact .done hrest
  | succ n ih =>
    obtain ⟨separated, mid, hseparated, h₁⟩ := bind_eq_ok.mp h
    rcases accept_eq_ok.mp hseparated with ⟨rfl, t, rfl, ht⟩ | ⟨rfl, rfl, -⟩
    · rw [if_pos rfl, nextIs_bind] at h₁
      split at h₁
      · obtain ⟨rfl, rfl⟩ := pure_eq_ok.mp h₁
        exact .trailing ht hrest
      · obtain ⟨first, mid', hfirst, h₂⟩ := bind_eq_ok.mp h₁
        obtain ⟨⟨again, later⟩, mid'', hlater, h₃⟩ := bind_eq_ok.mp h₂
        obtain ⟨rfl, rfl⟩ := pure_eq_ok.mp h₃
        obtain ⟨hstart, hfirst⟩ := statement_eq_ok_iff.mp hfirst
        obtain ⟨us, rfl, hus⟩ := hx hfirst
        rw [pending_cons (isEnd_of_punctuation ht), pending_append hus.isEnd] at hn
        exact .more ht hstart hfirst (ih (by omega) hlater)
    · obtain ⟨rfl, rfl⟩ := pure_eq_ok.mp h₁
      exact .done hrest

/-- What a block has read, are an opening bracket, statements, and the closing bracket. -/
theorem exists_statements_of_block {e : Expr} (hopener : kind ts = .punctuation b.opener)
    (h : block x b ts = .ok e rest) :
    ∃ t us c separated xs, ts = t :: us ∧ t.kind = .punctuation b.opener ∧
      Statements x b us (separated, xs) (c :: rest) ∧ e = blockOf b separated xs t.location := by
  obtain ⟨t, us, ht, h₁⟩ := bind_eq_ok.mp h
  obtain rfl := (take_eq_ok hopener (punctuation_ne_endOfInput _)).mp ht
  obtain ⟨⟨separated, body⟩, mid, hbody, h₂⟩ := bind_eq_ok.mp h₁
  dsimp only at h₂
  rw [nextIs_bind] at h₂
  split at h₂
  · exact absurd h₂ (refuse_ne_ok _ _ _ _)
  · obtain ⟨closed, mid', hclosed, h₃⟩ := bind_eq_ok.mp h₂
    rcases accept_eq_ok.mp hclosed with ⟨rfl, c, rfl, hc⟩ | ⟨rfl, rfl, -⟩
    · obtain ⟨rfl, rfl⟩ := pure_eq_ok.mp h₃
      refine ⟨t, us, c, separated, body, rfl, hopener, ?_, rfl⟩
      rw [statements, nextIs_bind] at hbody
      split at hbody
      · obtain ⟨⟨⟩, rfl⟩ := pure_eq_ok.mp hbody
        exact .none hc
      · obtain ⟨first, mid'', hfirst, h₄⟩ := bind_eq_ok.mp hbody
        rw [get_bind] at h₄
        obtain ⟨⟨separated', later⟩, mid₃, hlater, h₅⟩ := bind_eq_ok.mp h₄
        obtain ⟨⟨⟩, rfl⟩ := pure_eq_ok.mp h₅
        obtain ⟨hstart, hfirst⟩ := statement_eq_ok_iff.mp hfirst
        exact .some hstart hfirst (.of_moreStatements hx List.countP_le_length hlater hc)
    · exact absurd h₃ (refuse_ne_ok _ _ _ _)

variable (h : Carries Expr.unlocated x y)
include h

theorem Later.carries {v : Bool × List Expr} (hlater : Later x b ts v rest) :
    ∃ used, ts = used ++ rest ∧ ∀ ⦃used' rest'⦄, used'.map Token.shape = used.map Token.shape →
      kind rest' = kind rest → ∃ xs, Later y b (used' ++ rest') (v.1, xs) rest' ∧
        xs.map Expr.unlocated = v.2.map Expr.unlocated := by
  induction hlater with
  | done hcloser =>
    refine ⟨[], rfl, fun used' rest' hused' hkind => ⟨[], ?_, rfl⟩⟩
    obtain rfl := List.map_eq_nil_iff.mp hused'
    exact .done (hkind.trans hcloser)
  | @trailing t rest ht hcloser =>
    refine ⟨[t], rfl, fun used' rest' hused' hkind => ⟨[], ?_, rfl⟩⟩
    obtain ⟨t', rfl, ht'⟩ := List.map_eq_singleton_iff.mp hused'
    exact .trailing ((congrArg Shape.kind ht').trans ht) (hkind.trans hcloser)
  | @more t ts mid rest e separated xs ht hstart he _ ih =>
    obtain ⟨vs, rfl, hcarry⟩ := ih
    obtain ⟨us, rfl, hexpression⟩ := h he
    have hne : us ≠ [] := Takes.ne_nil (p := .expression) rfl hx he
    refine ⟨t :: (us ++ vs), by simp, fun used' rest' hused' hkind => ?_⟩
    obtain ⟨t', later, rfl, ht', hlater⟩ := List.map_eq_cons_iff.mp hused'
    rw [List.map_append] at hlater
    obtain ⟨us', vs', rfl, hus', hvs'⟩ := List.map_eq_append_iff.mp hlater
    obtain ⟨e', he', hsame⟩ := hexpression hus' (.append (Or.inl hkind) hvs')
    obtain ⟨xs', hxs', hsame'⟩ := hcarry hvs' hkind
    refine ⟨e' :: xs', ?_, by rw [List.map_cons, List.map_cons, hsame, hsame']⟩
    rw [List.cons_append, List.append_assoc]
    refine .more ((congrArg Shape.kind ht').trans ht) ?_ he' hxs'
    rwa [kind_append_of_shapes hus' hne]

theorem Statements.carries {v : Bool × List Expr} (hstatements : Statements x b ts v rest) :
    ∃ used, ts = used ++ rest ∧ ∀ ⦃used' rest'⦄, used'.map Token.shape = used.map Token.shape →
      kind rest' = kind rest → ∃ xs, Statements y b (used' ++ rest') (v.1, xs) rest' ∧
        xs.map Expr.unlocated = v.2.map Expr.unlocated := by
  cases hstatements with
  | none hcloser =>
    refine ⟨[], rfl, fun used' rest' hused' hkind => ⟨[], ?_, rfl⟩⟩
    obtain rfl := List.map_eq_nil_iff.mp hused'
    exact .none (hkind.trans hcloser)
  | @some mid _ e separated xs hstart he hlater =>
    obtain ⟨vs, rfl, hcarry⟩ := hlater.carries hx h
    obtain ⟨us, rfl, hexpression⟩ := h he
    have hne : us ≠ [] := Takes.ne_nil (p := .expression) rfl hx he
    refine ⟨us ++ vs, (List.append_assoc us vs rest).symm, fun used' rest' hused' hkind => ?_⟩
    rw [List.map_append] at hused'
    obtain ⟨us', vs', rfl, hus', hvs'⟩ := List.map_eq_append_iff.mp hused'
    obtain ⟨e', he', hsame⟩ := hexpression hus' (.append (Or.inl hkind) hvs')
    obtain ⟨xs', hxs', hsame'⟩ := hcarry hvs' hkind
    refine ⟨e' :: xs', ?_, by rw [List.map_cons, List.map_cons, hsame, hsame']⟩
    rw [List.append_assoc]
    refine .some ?_ he' hxs'
    rwa [kind_append_of_shapes hus' hne]

/-- A block carries over to any context, for its closing bracket belongs to it. -/
theorem block_carries (hy : Takes y (Builds .expression)) {e : Expr}
    (hopener : kind ts = .punctuation b.opener) (he : block x b ts = .ok e rest) :
    ∃ used, ts = used ++ rest ∧ used ≠ [] ∧
      ∀ ⦃used'⦄, used'.map Token.shape = used.map Token.shape →
        ∀ rest', ∃ e', block y b (used' ++ rest') = .ok e' rest' ∧
          e'.unlocated = e.unlocated := by
  obtain ⟨t, us, c, separated, xs, rfl, ht, hstatements, rfl⟩ :=
    exists_statements_of_block hx hopener he
  obtain ⟨vs, rfl, hcarry⟩ := hstatements.carries hx h
  refine ⟨t :: (vs ++ [c]), by simp, by simp, fun used' hused' rest' => ?_⟩
  obtain ⟨t', later, rfl, ht', hlater⟩ := List.map_eq_cons_iff.mp hused'
  rw [List.map_append] at hlater
  obtain ⟨vs', cs', rfl, hvs', hcs'⟩ := List.map_eq_append_iff.mp hlater
  obtain ⟨c', rfl, hc'⟩ := List.map_eq_singleton_iff.mp hcs'
  have hkind : kind (c' :: rest') = kind (c :: rest) := congrArg Shape.kind hc'
  obtain ⟨xs', hxs', hsame⟩ := hcarry hvs' hkind
  refine ⟨blockOf b separated xs' t'.location, ?_, unlocated_blockOf_congr _ _ hsame⟩
  have hassoc : t' :: (vs' ++ [c']) ++ rest' = t' :: (vs' ++ c' :: rest') := by simp
  rw [hassoc]
  exact block_eq_ok hy ((congrArg Shape.kind ht').trans ht) hxs'

/-! ### Functions -/

variable (hy : Takes y (Builds .expression))
include hy

theorem functionBody_carries :
    Carries Expr.unlocated (functionBody x) (functionBody y) := by
  intro ts e rest he
  by_cases hbrace : kind ts = .punctuation .openBrace
  · rw [functionBody_brace hbrace] at he
    obtain ⟨used, rfl, hne, hcarry⟩ := block_carries hx h hy hbrace he
    refine ⟨used, rfl, fun used' rest' hused' _ => ?_⟩
    rw [functionBody_brace ((kind_append_of_shapes hused' hne rest rest').trans hbrace)]
    exact hcarry hused' rest'
  · cases hstart : Kind.startsExpression (kind ts) with
    | true =>
      rw [functionBody_open hbrace hstart] at he
      obtain ⟨used, rfl, hcarry⟩ := h he
      have hne : used ≠ [] := Takes.ne_nil (p := .expression) rfl hx he
      refine ⟨used, rfl, fun used' rest' hused' halike => ?_⟩
      have hkind := kind_append_of_shapes hused' hne rest rest'
      rw [functionBody_open (by rwa [hkind]) (by rwa [hkind])]
      exact hcarry hused' halike
    | false =>
      rw [functionBody, nextIs_bind, beq_eq_false_iff_ne.mpr hbrace, if_neg (by decide),
        nextIs_bind, hstart] at he
      exact absurd he (refuse_ne_ok _ _ _ _)

theorem function_carries :
    CarriesAt (· == .keyword .function) Expr.unlocated (function x) (function y) := by
  intro ts e rest hbegins he
  have hkeyword : kind ts = .keyword .function := by simpa using hbegins
  obtain ⟨t, mid, ht, h₁⟩ := bind_eq_ok.mp he
  obtain rfl := (take_eq_ok hkeyword (keyword_ne_endOfInput _)).mp ht
  obtain ⟨n, mid', hname, h₂⟩ := bind_eq_ok.mp h₁
  obtain ⟨ps, mid'', hparams, h₃⟩ := bind_eq_ok.mp h₂
  obtain ⟨body, mid₃, hbody, h₄⟩ := bind_eq_ok.mp h₃
  obtain ⟨rfl, rfl⟩ := pure_eq_ok.mp h₄
  obtain ⟨us, rfl, hus, hsymbol⟩ := functionName_takes hname
  obtain ⟨vs, rfl, hvs, hparen⟩ := parameters_takes hparams
  obtain ⟨ws, rfl, hcarry⟩ := functionBody_carries hx h hy hbody
  have hne : ws ≠ [] := Takes.ne_nil (p := .body) rfl (functionBody_takes hx) hbody
  refine ⟨t :: (us ++ vs ++ ws), by simp, fun used' rest' hused' halike => ?_⟩
  obtain ⟨t', later, rfl, ht', hlater⟩ := List.map_eq_cons_iff.mp hused'
  rw [List.map_append] at hlater
  obtain ⟨front, ws', rfl, hfront, hws'⟩ := List.map_eq_append_iff.mp hlater
  rw [List.map_append] at hfront
  obtain ⟨us', vs', rfl, hus', hvs'⟩ := List.map_eq_append_iff.mp hfront
  obtain ⟨body', hbody', hsame⟩ := hcarry hws' halike
  have hvalue : (Expr.function n ps body' (some t'.location)).unlocated =
      (Expr.function n ps body (some t.location)).unlocated := by
    rw [Expr.unlocated, Expr.unlocated, hsame]
  refine ⟨.function n ps body' (some t'.location), ?_, hvalue⟩
  have hassoc : t' :: (us' ++ vs' ++ ws') ++ rest' = t' :: (us' ++ vs' ++ (ws' ++ rest')) := by
    simp
  rw [hassoc]
  refine function_eq_ok ((congrArg Shape.kind ht').trans hkeyword) (hus.of_shapes hus')
    (hvs.of_shapes hvs') ?_ ?_ hbody'
  · rintro rfl
    obtain rfl := List.map_eq_nil_iff.mp hus'.symm
    have hmap : (vs' ++ ws').map Token.shape = (vs ++ ws).map Token.shape := by
      rw [List.map_append, List.map_append, hvs', hws']
    rw [← List.append_assoc, kind_append_of_shapes hmap (by simp [hne]) mid₃ rest',
      List.append_assoc]
    exact hsymbol rfl
  · rintro rfl
    obtain rfl := List.map_eq_nil_iff.mp hvs'.symm
    rw [kind_append_of_shapes hws' hne mid₃ rest']
    exact hparen rfl

/-! ### Operands and what is applied to them -/

theorem operand_carries_function :
    CarriesAt (· == .keyword .function) Expr.unlocated (operand x) (operand y) := by
  intro ts e rest hbegins he
  have hkeyword : kind ts = .keyword .function := by simpa using hbegins
  rw [operand_function hkeyword] at he
  obtain ⟨used, rfl, hcarry⟩ := function_carries hx h hy hbegins he
  have hne : used ≠ [] := TakesAt.ne_nil (p := .operand) rfl (function_takes hx) hbegins he
  refine ⟨used, rfl, fun used' rest' hused' halike => ?_⟩
  rw [operand_function ((kind_append_of_shapes hused' hne rest rest').trans hkeyword)]
  exact hcarry hused' halike

theorem operand_carries_block (b : Bracket) :
    CarriesAt (· == .punctuation b.opener) Expr.unlocated (operand x) (operand y) := by
  intro ts e rest hbegins he
  have hopener : kind ts = .punctuation b.opener := by simpa using hbegins
  rw [operand_block hopener] at he
  obtain ⟨used, rfl, hne, hcarry⟩ := block_carries hx h hy hopener he
  refine ⟨used, rfl, fun used' rest' hused' _ => ?_⟩
  rw [operand_block ((kind_append_of_shapes hused' hne rest rest').trans hopener)]
  exact hcarry hused' rest'

theorem operand_carries : Carries Expr.unlocated (operand x) (operand y) := by
  intro ts e rest he
  have hstart := startsOperand_of_operand_eq_ok he
  obtain ⟨t, us, rfl, -, -⟩ := exists_cons_of_kind rfl hstart
  cases hs : t.shape with
  | integer _ | decimal _ _ | string _ _ =>
    rw [operand_literal (by rw [hs]; rfl)] at he
    cases he
    refine ⟨[t], rfl, fun used' rest' hused' _ => ?_⟩
    obtain ⟨t', rfl, ht'⟩ := List.map_eq_singleton_iff.mp hused'
    exact ⟨_, operand_literal (by rw [ht', hs]; rfl) rest', rfl⟩
  | symbol n =>
    rw [operand_symbol hs] at he
    cases he
    refine ⟨[t], rfl, fun used' rest' hused' _ => ?_⟩
    obtain ⟨t', rfl, ht'⟩ := List.map_eq_singleton_iff.mp hused'
    exact ⟨_, operand_symbol (ht'.trans hs) rest', rfl⟩
  | keyword k =>
    have hkind : kind (t :: us) = .keyword k := congrArg Shape.kind hs
    cases k with
    | function => exact operand_carries_function hx h hy (beq_iff_eq.mpr hkind) he
    | binding | recursiveBinding =>
      rw [hkind] at hstart
      cases hstart
  | punctuation p =>
    have hkind : kind (t :: us) = .punctuation p := congrArg Shape.kind hs
    cases p with
    | openBrace => exact operand_carries_block hx h hy .brace (beq_iff_eq.mpr hkind) he
    | openParen => exact operand_carries_block hx h hy .paren (beq_iff_eq.mpr hkind) he
    | _ =>
      rw [hkind] at hstart
      cases hstart
  | endOfInput =>
    have hkind : kind (t :: us) = .endOfInput := congrArg Shape.kind hs
    rw [hkind] at hstart
    cases hstart

omit hx h hy in
theorem take_carries :
    CarriesAt (· == .punctuation .bang) Token.shape (take : Reader (List Token) Token) take := by
  intro ts t rest hbegins ht
  have hbang : kind ts = .punctuation .bang := by simpa using hbegins
  obtain rfl := (take_eq_ok hbang (punctuation_ne_endOfInput _)).mp ht
  refine ⟨[t], rfl, fun used' rest' hused' _ => ?_⟩
  obtain ⟨t', rfl, ht'⟩ := List.map_eq_singleton_iff.mp hused'
  have hend : t'.isEnd = false := isEnd_of_punctuation ((congrArg Shape.kind ht').trans hbang)
  exact ⟨t', take_cons hend rest', ht'⟩

theorem invoked_carries : Carries Expr.unlocated (invoked x) (invoked y) := by
  refine (operand_carries hx h hy).bind fun e e' he => ?_
  have hmarks := take_carries.many (fun _ hs => beq_eq_false_iff_ne.mpr hs.bang) take_consumes
    take_consumes
  refine hmarks.bind fun marks marks' hmarks => carries_pure (unlocated_marked he ?_)
  simpa using congrArg List.length hmarks

theorem step_carries :
    CarriesAt (· == .punctuation .backtick) Expr.unlocatedStep (step x) (step y) := by
  intro ts s rest hbegins hs
  have hmark : kind ts = .punctuation .backtick := by simpa using hbegins
  have hextras := ((invoked_carries hx h hy).at Kind.startsOperand).many
    (fun _ hs => hs.operand) (invoked_consumes hx _) (invoked_consumes hy _)
  have hparts : Carries Expr.unlocatedStep
      (invoked x >>= fun p => many Kind.startsOperand (invoked x) >>= fun xs => pure (.mk p xs))
      (invoked y >>= fun p => many Kind.startsOperand (invoked y) >>= fun xs =>
        pure (.mk p xs)) := by
    refine (invoked_carries hx h hy).bind fun p p' hp => ?_
    refine hextras.bind fun xs xs' hxs => carries_pure ?_
    simp only [Expr.unlocatedStep, Step.operator, Step.extra, hp, hxs]
  obtain ⟨t, mid, ht, h₁⟩ := bind_eq_ok.mp hs
  obtain rfl := (take_eq_ok hmark (punctuation_ne_endOfInput _)).mp ht
  rw [nextIs_bind] at h₁
  split at h₁
  · rename_i hstart
    obtain ⟨us, rfl, hcarry⟩ := hparts h₁
    refine ⟨t :: us, rfl, fun used' rest' hused' halike => ?_⟩
    obtain ⟨t', us', rfl, ht', hus'⟩ := List.map_eq_cons_iff.mp hused'
    obtain ⟨s', hs', hsame⟩ := hcarry hus' halike
    have hend : t'.isEnd = false := isEnd_of_punctuation ((congrArg Shape.kind ht').trans hmark)
    have hnext := ((halike.append hus').begins_eq fun _ hs => hs.operand).trans hstart
    refine ⟨s', ?_, hsame⟩
    rw [List.cons_append, step, bind_of_ok (take_cons hend _), nextIs_bind, hnext, if_pos rfl]
    exact hs'
  · exact absurd h₁ (refuse_ne_ok _ _ _ _)

theorem chained_carries : Carries Expr.unlocated (chained x) (chained y) := by
  refine (invoked_carries hx h hy).bind fun e e' he => ?_
  have hsteps := (step_carries hx h hy).many
    (fun _ hs => beq_eq_false_iff_ne.mpr hs.backtick) (step_consumes hx) (step_consumes hy)
  refine hsteps.bind fun ss ss' hss => carries_pure ?_
  rw [chainOf_unlocated, chainOf_unlocated, he, hss]

theorem application_carries : Carries Expr.unlocated (application x) (application y) := by
  refine (chained_carries hx h hy).bind fun e e' he => ?_
  have harguments := ((chained_carries hx h hy).at Kind.startsOperand).many
    (fun _ hs => hs.operand) (chained_consumes hx _) (chained_consumes hy _)
  refine harguments.bind fun xs xs' hxs => carries_pure ?_
  rw [callOf_unlocated, callOf_unlocated, he, hxs]

/-! ### Expressions -/

omit hy in
theorem assignment_carries {k : Keyword} :
    CarriesAt (· == .keyword k) Expr.unlocated (assignment x k) (assignment y k) := by
  intro ts e rest hbegins he
  have hkeyword : kind ts = .keyword k := by simpa using hbegins
  obtain ⟨t, mid, ht, h₁⟩ := bind_eq_ok.mp he
  obtain rfl := (take_eq_ok hkeyword (keyword_ne_endOfInput _)).mp ht
  obtain ⟨n, mid', hname, h₂⟩ := bind_eq_ok.mp h₁
  obtain ⟨u, rfl, hu⟩ := name_eq_ok.mp hname
  rw [nextIs_bind] at h₂
  split at h₂
  · rename_i hstart
    obtain ⟨value, mid'', hvalue, h₃⟩ := bind_eq_ok.mp h₂
    obtain ⟨rfl, rfl⟩ := pure_eq_ok.mp h₃
    obtain ⟨us, rfl, hcarry⟩ := h hvalue
    have hne : us ≠ [] := Takes.ne_nil (p := .expression) rfl hx hvalue
    refine ⟨t :: u :: us, rfl, fun used' rest' hused' halike => ?_⟩
    obtain ⟨t', later, rfl, ht', hlater⟩ := List.map_eq_cons_iff.mp hused'
    obtain ⟨u', us', rfl, hu', hus'⟩ := List.map_eq_cons_iff.mp hlater
    obtain ⟨value', hvalue', hsame⟩ := hcarry hus' halike
    have hstart' : Kind.startsExpression (kind (us' ++ rest')) = true := by
      rwa [kind_append_of_shapes hus' hne mid'' rest']
    exact ⟨_, assignment_eq_ok ((congrArg Shape.kind ht').trans hkeyword) (hu'.trans hu) hstart'
      hvalue', by rw [Expr.unlocated, Expr.unlocated, hsame]⟩
  · exact absurd h₂ (refuse_ne_ok _ _ _ _)

theorem expressionOver_carries :
    Carries Expr.unlocated (expressionOver x) (expressionOver y) := by
  intro ts e rest he
  have hne : ∀ us, ts = us ++ rest → us ≠ [] := by
    rintro us rfl
    exact Takes.ne_nil (p := .expression) rfl (expressionOver_takes hx) he
  by_cases hkind : ∃ k, k ≠ .function ∧ kind ts = .keyword k
  · obtain ⟨k, hk, hkeyword⟩ := hkind
    rw [expressionOver_binding hk hkeyword] at he
    obtain ⟨used, hused, hcarry⟩ := assignment_carries hx h (beq_iff_eq.mpr hkeyword) he
    refine ⟨used, hused, fun used' rest' hused' halike => ?_⟩
    have hsame := kind_append_of_shapes hused' (hne used hused) rest rest'
    rw [expressionOver_binding hk (by rw [hsame, ← hused, hkeyword])]
    exact hcarry hused' halike
  · rw [expressionOver_application fun k hk hkeyword => hkind ⟨k, hk, hkeyword⟩] at he
    obtain ⟨used, hused, hcarry⟩ := application_carries hx h hy he
    refine ⟨used, hused, fun used' rest' hused' halike => ?_⟩
    have hsame := kind_append_of_shapes hused' (hne used hused) rest rest'
    rw [expressionOver_application fun k hk hkeyword =>
      hkind ⟨k, hk, by rw [hused, ← hsame, hkeyword]⟩]
    exact hcarry hused' halike

end Nested

/-- **What is read in one context is read in every other**, also where more expressions may be
    nested in each other. -/
theorem carries_expression {depth depth' : Nat} (hle : depth ≤ depth') :
    Carries Expr.unlocated (expression depth) (expression depth') := by
  induction depth generalizing depth' with
  | zero =>
    intro ts e rest he
    exact absurd he (refuse_ne_ok _ _ _ _)
  | succ depth ih =>
    obtain ⟨more, rfl⟩ := Nat.exists_eq_add_of_le' hle
    exact expressionOver_carries (expression_takes depth) (ih (Nat.le_add_left depth more))
      (expression_takes _)

end Grammar

end Juxta
