/-
  Juxta/Proofs/Expr/Outline.lean
  ==============================
  **The outline of a tree** — a walk through a tree in the order of the source meets every node,
  and knows the nodes that enclose it.  The outline is what is left of this walk when nodes that
  bind no name are passed over:

    * `Binding.walkAll` walks through an outline, `Expr.walk` through a tree; both note for each
      item the items above it, the closest first;
    * `Binding.walkAll_injective`: an outline is known from its walk;
    * `Expr.walkAll_bindings`: the walk through the bindings of a tree is the walk through the
      tree, of which only the nodes that bind a name are shown.

  So a binding is listed under the closest one that encloses it, and nothing else is listed.
-/
import Juxta.Outline
import Juxta.Proofs.Expr.Signs

namespace Juxta

/-! ### Walking through an outline -/

namespace Binding

/-- What is shown of a binding, apart from the bindings in it. -/
structure Label where
  name : String
  kind : BindingKind
  detail : Option String
  location : Option Location

mutual

/-- A binding and those in it in pre-order, each with the bindings that it stands in, the
    innermost first. -/
def walk (above : List Label) : Binding → List (List Label × Label)
  | .mk name kind detail location children =>
    (above, ⟨name, kind, detail, location⟩) ::
      walkAll (⟨name, kind, detail, location⟩ :: above) children

def walkAll (above : List Label) : List Binding → List (List Label × Label)
  | [] => []
  | b :: bs => walk above b ++ walkAll above bs

end

theorem walkAll_append (above : List Label) (bs cs : List Binding) :
    walkAll above (bs ++ cs) = walkAll above bs ++ walkAll above cs := by
  induction bs with
  | nil => rfl
  | cons b bs ih => rw [List.cons_append, walkAll, ih, walkAll, List.append_assoc]

mutual

theorem length_le_of_mem_walk {above : List Label} {p : List Label × Label} :
    (b : Binding) → p ∈ walk above b → above.length ≤ p.1.length
  | .mk name kind detail location children, h => by
    rw [walk] at h
    rcases List.mem_cons.mp h with rfl | h
    · exact Nat.le_refl _
    · exact Nat.le_of_succ_le (length_le_of_mem_walkAll children h)

theorem length_le_of_mem_walkAll {above : List Label} {p : List Label × Label} :
    (bs : List Binding) → p ∈ walkAll above bs → above.length ≤ p.1.length
  | [], h => nomatch h
  | b :: bs, h => by
    rw [walkAll] at h
    rcases List.mem_append.mp h with h | h
    · exact length_le_of_mem_walk b h
    · exact length_le_of_mem_walkAll bs h

end

/-- The bindings in a binding are walked through before the walk comes back to its level. -/
theorem takeWhile_walkAll (above : List Label) (label : Label) (children bs : List Binding) :
    (walkAll (label :: above) children ++ walkAll above bs).takeWhile
      (fun p => decide (above.length < p.1.length)) = walkAll (label :: above) children := by
  have hchildren : ∀ p ∈ walkAll (label :: above) children,
      decide (above.length < p.1.length) = true := by
    intro p hp
    exact decide_eq_true (length_le_of_mem_walkAll children hp)
  rw [List.takeWhile_append_of_pos hchildren]
  cases bs with
  | nil => rw [walkAll, List.takeWhile_nil, List.append_nil]
  | cons b bs =>
    obtain ⟨name, kind, detail, location, inner⟩ := b
    rw [walkAll, walk, List.cons_append, List.takeWhile_cons_of_neg, List.append_nil]
    simp

/-- **An outline is known from its walk.** -/
theorem walkAll_injective {above : List Label} : (bs cs : List Binding) →
    walkAll above bs = walkAll above cs → bs = cs
  | [], [], _ => rfl
  | [], .mk .. :: _, h => by
    rw [walkAll, walkAll, walk] at h
    cases h
  | .mk .. :: _, [], h => by
    rw [walkAll, walkAll, walk] at h
    cases h
  | .mk name kind detail location children :: bs,
      .mk name' kind' detail' location' children' :: cs, h => by
    rw [walkAll, walkAll, walk, walk, List.cons_append, List.cons_append, List.cons.injEq] at h
    obtain ⟨hfirst, hlater⟩ := h
    cases hfirst
    have hchildren := congrArg
      (List.takeWhile fun p : List Label × Label => decide (above.length < p.1.length)) hlater
    rw [takeWhile_walkAll, takeWhile_walkAll] at hchildren
    rw [hchildren] at hlater
    obtain rfl := walkAll_injective children children' hchildren
    obtain rfl := walkAll_injective bs cs (List.append_cancel_left hlater)
    rfl

end Binding

/-! ### Walking through a tree -/

namespace Expr

mutual

/-- The nodes of a tree in pre-order, each with the nodes that enclose it, the innermost first. -/
def walk (above : List Expr) : Expr → List (List Expr × Expr)
  | .literal v l => [(above, .literal v l)]
  | .symbol n l => [(above, .symbol n l)]
  | .function n ps x l => (above, .function n ps x l) :: walk (.function n ps x l :: above) x
  | .block b xs l => (above, .block b xs l) :: walkAll (.block b xs l :: above) xs
  | .assignment r n x l => (above, .assignment r n x l) :: walk (.assignment r n x l :: above) x
  | .call f xs l => (above, .call f xs l) ::
      (walk (.call f xs l :: above) f ++ walkAll (.call f xs l :: above) xs)
  | .chain x ss l => (above, .chain x ss l) ::
      (walk (.chain x ss l :: above) x ++ walkSteps (.chain x ss l :: above) ss)
  | .invocation x l => (above, .invocation x l) :: walk (.invocation x l :: above) x

def walkAll (above : List Expr) : List Expr → List (List Expr × Expr)
  | [] => []
  | x :: xs => walk above x ++ walkAll above xs

def walkSteps (above : List Expr) : List Step → List (List Expr × Expr)
  | [] => []
  | .mk p xs :: ss => walk above p ++ walkAll above xs ++ walkSteps above ss

end

mutual

/-- The walk meets the nodes of the tree in order. -/
theorem map_snd_walk (above : List Expr) : (e : Expr) → (e.walk above).map (·.2) = e.nodes
  | .literal _ _ | .symbol _ _ => rfl
  | .function _ _ x _ => by simp [walk, nodes, map_snd_walk _ x]
  | .block _ xs _ => by simp [walk, nodes, map_snd_walkAll _ xs]
  | .assignment _ _ x _ => by simp [walk, nodes, map_snd_walk _ x]
  | .call f xs _ => by simp [walk, nodes, map_snd_walk _ f, map_snd_walkAll _ xs]
  | .chain x ss _ => by simp [walk, nodes, map_snd_walk _ x, map_snd_walkSteps _ ss]
  | .invocation x _ => by simp [walk, nodes, map_snd_walk _ x]

theorem map_snd_walkAll (above : List Expr) :
    (xs : List Expr) → (walkAll above xs).map (·.2) = nodesAll xs
  | [] => rfl
  | x :: xs => by simp [walkAll, nodesAll, map_snd_walk above x, map_snd_walkAll above xs]

theorem map_snd_walkSteps (above : List Expr) :
    (ss : List Step) → (walkSteps above ss).map (·.2) = nodesSteps ss
  | [] => rfl
  | .mk p xs :: ss => by
    simp [walkSteps, nodesSteps, map_snd_walk above p, map_snd_walkAll above xs,
      map_snd_walkSteps above ss]

end

/-! ### What is shown of a node -/

/-- A node binds a name if it is a binding, or a function that has one. -/
def label? : Expr → Option Binding.Label
  | .function (some name) ps _ l => some ⟨name, .function, some (functionDetail ps), l⟩
  | .assignment r name value l =>
    some ⟨name, if value.isFunction then .function else .variable, value.bindingDetail? r, l⟩
  | _ => none

/-- The keyword with which a node that binds a name begins. -/
def bindingKeyword? : Expr → Option Keyword
  | .function (some _) _ _ _ => some .function
  | .assignment r _ _ _ => some (Layout.bindingKeyword r)
  | _ => none

/-- A node that binds a name, under the nodes above it that do. -/
def shown (p : List Expr × Expr) : Option (List Binding.Label × Binding.Label) :=
  p.2.label?.map fun label => (p.1.filterMap label?, label)

theorem bindingKind_eq (value : Expr) :
    value.bindingKind = if value.isFunction then .function else .variable := by
  cases value <;> rfl

theorem label?_kind {n : Expr} {label : Binding.Label} (h : n.label? = some label) :
    label.kind = .function ↔
      n.isFunction = true ∨ ∃ r name value l, n = .assignment r name value l ∧
        value.isFunction = true := by
  cases n with
  | function name ps x l =>
    cases name with
    | none => cases h
    | some name =>
      cases h
      simp [isFunction]
  | assignment r name value l =>
    cases h
    constructor
    · intro hkind
      refine Or.inr ⟨r, name, value, l, rfl, ?_⟩
      cases hvalue : value.isFunction with
      | true => rfl
      | false =>
        rw [hvalue] at hkind
        cases hkind
    · rintro (hfunction | ⟨r', name', value', l', hsame, hfunction⟩)
      · cases hfunction
      · cases hsame
        exact if_pos hfunction
  | _ => cases h

/-- Where a binding is shown, its node begins. -/
theorem label?_map_location (n : Expr) :
    n.label?.map Binding.Label.location = n.bindingKeyword?.map fun _ => n.location := by
  cases n with
  | function name => cases name <;> rfl
  | _ => rfl

/-- A node that binds no name leaves no trace above what it encloses. -/
theorem filterMap_label?_cons {n : Expr} (h : n.label? = none) (above : List Expr) :
    (n :: above).filterMap label? = above.filterMap label? :=
  List.filterMap_cons_none h

theorem filterMap_shown_cons {n : Expr} (h : n.label? = none) (above : List Expr)
    (later : List (List Expr × Expr)) :
    ((above, n) :: later).filterMap shown = later.filterMap shown := by
  apply List.filterMap_cons_none
  rw [shown, h]
  rfl

theorem filterMap_shown_cons_some {n : Expr} {label : Binding.Label} (h : n.label? = some label)
    (above : List Expr) (later : List (List Expr × Expr)) :
    ((above, n) :: later).filterMap shown =
      (above.filterMap label?, label) :: later.filterMap shown := by
  apply List.filterMap_cons_some
  rw [shown, h]
  rfl

/-! ### The bindings of a tree -/

mutual

/-- **The bindings of a tree are its nodes that bind a name**, each under the closest of them that
    encloses it, in the order of the source. -/
theorem walkAll_bindings (above : List Expr) : (e : Expr) →
    Binding.walkAll (above.filterMap label?) e.bindings = (e.walk above).filterMap shown
  | .literal _ _ | .symbol _ _ => rfl
  | .function none ps x l => by
    rw [bindings, functionBindings, walk, filterMap_shown_cons rfl, ← walkAll_bindings _ x,
      filterMap_label?_cons rfl]
  | .function (some name) ps x l => by
    rw [bindings, functionBindings, walk, filterMap_shown_cons_some rfl, ← walkAll_bindings _ x,
      Binding.walkAll, Binding.walk, Binding.walkAll, List.append_nil]
    rfl
  | .block _ xs _ => by
    rw [bindings, walk, filterMap_shown_cons rfl, ← walkAll_bindingsAll _ xs,
      filterMap_label?_cons rfl]
  | .assignment r name value l => by
    rw [bindings, walk, filterMap_shown_cons_some rfl, ← walkAll_bindings _ value,
      Binding.walkAll, Binding.walk, Binding.walkAll, List.append_nil, bindingKind_eq]
    rfl
  | .call f xs _ => by
    rw [bindings, walk, filterMap_shown_cons rfl, List.filterMap_append, ← walkAll_bindings _ f,
      ← walkAll_bindingsAll _ xs, filterMap_label?_cons rfl, Binding.walkAll_append]
  | .chain x ss _ => by
    rw [bindings, walk, filterMap_shown_cons rfl, List.filterMap_append, ← walkAll_bindings _ x,
      ← walkAll_bindingsSteps _ ss, filterMap_label?_cons rfl, Binding.walkAll_append]
  | .invocation x _ => by
    rw [bindings, walk, filterMap_shown_cons rfl, ← walkAll_bindings _ x,
      filterMap_label?_cons rfl]

theorem walkAll_bindingsAll (above : List Expr) : (xs : List Expr) →
    Binding.walkAll (above.filterMap label?) (bindingsAll xs) =
      (walkAll above xs).filterMap shown
  | [] => rfl
  | x :: xs => by
    rw [bindingsAll, walkAll, Binding.walkAll_append, List.filterMap_append,
      walkAll_bindings above x, walkAll_bindingsAll above xs]

theorem walkAll_bindingsSteps (above : List Expr) : (ss : List Step) →
    Binding.walkAll (above.filterMap label?) (bindingsSteps ss) =
      (walkSteps above ss).filterMap shown
  | [] => rfl
  | .mk p xs :: ss => by
    rw [bindingsSteps, walkSteps, Binding.walkAll_append, Binding.walkAll_append,
      List.filterMap_append, List.filterMap_append, walkAll_bindings above p,
      walkAll_bindingsAll above xs, walkAll_bindingsSteps above ss]

end

/-! ### Keywords -/

/-- The keywords of the nodes that bind a name, at their locations. -/
def bindingSigns (ns : List Expr) : List (Sign × Option Location) :=
  ns.filterMap fun n => n.bindingKeyword?.map fun k => (.keyword k, n.location)

theorem bindingSigns_append (ns ms : List Expr) :
    bindingSigns (ns ++ ms) = bindingSigns ns ++ bindingSigns ms :=
  List.filterMap_append

mutual

/-- The keywords of the nodes that bind a name stand in the tree in order. -/
theorem bindingSigns_sublist : (e : Expr) → (bindingSigns e.nodes).Sublist e.signs
  | .literal _ _ | .symbol _ _ => List.nil_sublist _
  | .function none ps x l => by
    exact ((bindingSigns_sublist x).trans (List.sublist_append_right _ _)).cons _
  | .function (some name) ps x l => by
    exact ((bindingSigns_sublist x).trans (List.sublist_append_right _ _)).cons_cons _
  | .block _ xs _ => (bindingSignsAll_sublist xs).cons _
  | .assignment r name value l => ((bindingSigns_sublist value).cons _).cons_cons _
  | .call f xs l => by
    change (bindingSigns (f.nodes ++ nodesAll xs)).Sublist _
    rw [bindingSigns_append]
    exact (bindingSigns_sublist f).append (bindingSignsAll_sublist xs)
  | .chain x ss l => by
    change (bindingSigns (x.nodes ++ nodesSteps ss)).Sublist _
    rw [bindingSigns_append]
    exact (bindingSigns_sublist x).append (bindingSignsSteps_sublist ss)
  | .invocation x l => (bindingSigns_sublist x).trans (List.sublist_append_left _ _)

theorem bindingSignsAll_sublist : (xs : List Expr) →
    (bindingSigns (nodesAll xs)).Sublist (signsAll xs)
  | [] => List.nil_sublist _
  | x :: xs => by
    rw [nodesAll, bindingSigns_append]
    exact (bindingSigns_sublist x).append (bindingSignsAll_sublist xs)

theorem bindingSignsSteps_sublist : (ss : List Step) →
    (bindingSigns (nodesSteps ss)).Sublist (signsSteps ss)
  | [] => List.nil_sublist _
  | .mk p xs :: ss => by
    rw [nodesSteps, bindingSigns_append, bindingSigns_append]
    exact (((bindingSigns_sublist p).append (bindingSignsAll_sublist xs)).append
      (bindingSignsSteps_sublist ss)).cons _

end

end Expr

end Juxta
