/-
  Juxta/Proofs/Expr/Nodes.lean
  ============================
  **The nodes of a tree** — `Expr.nodes` lists a tree and everything below it in the order
  of the source, each node before its parts.  A property of trees that looks at one node at
  a time is then a property of every member of this list, `Expr.Everywhere`; it is taken
  apart by the constructors below, and what is said of nodes without their locations passes
  between trees that are equal up to locations.

  What such a property looks at is the same for all kinds of node: the names that a node
  holds, its literal value, its operands, and whether an application is complete.
-/
import Juxta.Expr

namespace Juxta

namespace Expr

/-! ### All nodes of a tree -/

mutual

/-- The nodes of a tree in the order of the source, the tree itself first. -/
def nodes : Expr → List Expr
  | .literal v l => [.literal v l]
  | .symbol n l => [.symbol n l]
  | .function n ps x l => .function n ps x l :: nodes x
  | .block b xs l => .block b xs l :: nodesAll xs
  | .assignment r n x l => .assignment r n x l :: nodes x
  | .call f xs l => .call f xs l :: (nodes f ++ nodesAll xs)
  | .chain x ss l => .chain x ss l :: (nodes x ++ nodesSteps ss)
  | .invocation x l => .invocation x l :: nodes x

/-- The nodes of several trees. -/
def nodesAll : List Expr → List Expr
  | [] => []
  | x :: xs => nodes x ++ nodesAll xs

/-- The nodes of the trees of steps. -/
def nodesSteps : List Step → List Expr
  | [] => []
  | .mk p xs :: ss => nodes p ++ nodesAll xs ++ nodesSteps ss

end

mutual

theorem nodes_unlocated : (e : Expr) → e.unlocated.nodes = e.nodes.map unlocated
  | .literal _ _ | .symbol _ _ => rfl
  | .function _ _ x _ => by simp [unlocated, nodes, nodes_unlocated x]
  | .block _ xs _ => by simp [unlocated, nodes, nodesAll_unlocated xs]
  | .assignment _ _ x _ => by simp [unlocated, nodes, nodes_unlocated x]
  | .call f xs _ => by simp [unlocated, nodes, nodes_unlocated f, nodesAll_unlocated xs]
  | .chain x ss _ => by simp [unlocated, nodes, nodes_unlocated x, nodesSteps_unlocated ss]
  | .invocation x _ => by simp [unlocated, nodes, nodes_unlocated x]

theorem nodesAll_unlocated : (xs : List Expr) →
    nodesAll (unlocatedAll xs) = (nodesAll xs).map unlocated
  | [] => rfl
  | x :: xs => by simp [unlocatedAll, nodesAll, nodes_unlocated x, nodesAll_unlocated xs]

theorem nodesSteps_unlocated : (ss : List Step) →
    nodesSteps (unlocatedSteps ss) = (nodesSteps ss).map unlocated
  | [] => rfl
  | .mk p xs :: ss => by
    simp [unlocatedSteps, nodesSteps, nodes_unlocated p, nodesAll_unlocated xs,
      nodesSteps_unlocated ss]

end

/-- The property holds of every node of the tree. -/
def Everywhere (P : Expr → Prop) (e : Expr) : Prop := ∀ n ∈ e.nodes, P n

variable {P Q : Expr → Prop}

theorem mem_nodesAll {n : Expr} {xs : List Expr} : n ∈ nodesAll xs ↔ ∃ x ∈ xs, n ∈ x.nodes := by
  induction xs with
  | nil => simp [nodesAll]
  | cons x xs ih => simp [nodesAll, ih]

theorem mem_nodesSteps {n : Expr} {ss : List Step} :
    n ∈ nodesSteps ss ↔ ∃ s ∈ ss, n ∈ s.operator.nodes ∨ ∃ x ∈ s.extra, n ∈ x.nodes := by
  induction ss with
  | nil => simp [nodesSteps]
  | cons s ss ih =>
    obtain ⟨p, xs⟩ := s
    simp [nodesSteps, ih, mem_nodesAll, Step.operator, Step.extra, or_assoc]

theorem self_mem_nodes (e : Expr) : e ∈ e.nodes := by
  cases e <;> simp [nodes]

theorem Everywhere.self {e : Expr} (h : e.Everywhere P) : P e := h e e.self_mem_nodes

theorem Everywhere.imp (hPQ : ∀ n, P n → Q n) {e : Expr} (h : e.Everywhere P) :
    e.Everywhere Q := fun n hn => hPQ n (h n hn)

@[simp] theorem everywhere_literal {v : Literal} {l : Option Location} :
    Everywhere P (.literal v l) ↔ P (.literal v l) := by
  simp [Everywhere, nodes]

@[simp] theorem everywhere_symbol {n : String} {l : Option Location} :
    Everywhere P (.symbol n l) ↔ P (.symbol n l) := by
  simp [Everywhere, nodes]

@[simp] theorem everywhere_function {n : Option String} {ps : List String} {x : Expr}
    {l : Option Location} :
    Everywhere P (.function n ps x l) ↔ P (.function n ps x l) ∧ x.Everywhere P := by
  simp [Everywhere, nodes]

@[simp] theorem everywhere_block {b : Bracket} {xs : List Expr} {l : Option Location} :
    Everywhere P (.block b xs l) ↔ P (.block b xs l) ∧ ∀ x ∈ xs, x.Everywhere P := by
  simp only [Everywhere, nodes, List.forall_mem_cons, mem_nodesAll]
  refine and_congr_right fun _ => ⟨fun h x hx n hn => h n ⟨x, hx, hn⟩, ?_⟩
  rintro h n ⟨x, hx, hn⟩
  exact h x hx n hn

@[simp] theorem everywhere_assignment {r : Bool} {n : String} {x : Expr} {l : Option Location} :
    Everywhere P (.assignment r n x l) ↔ P (.assignment r n x l) ∧ x.Everywhere P := by
  simp [Everywhere, nodes]

@[simp] theorem everywhere_call {f : Expr} {xs : List Expr} {l : Option Location} :
    Everywhere P (.call f xs l) ↔
      P (.call f xs l) ∧ f.Everywhere P ∧ ∀ x ∈ xs, x.Everywhere P := by
  simp only [Everywhere, nodes, List.forall_mem_cons, List.forall_mem_append, mem_nodesAll]
  refine and_congr_right fun _ => and_congr_right fun _ =>
    ⟨fun h x hx n hn => h n ⟨x, hx, hn⟩, ?_⟩
  rintro h n ⟨x, hx, hn⟩
  exact h x hx n hn

@[simp] theorem everywhere_chain {x : Expr} {ss : List Step} {l : Option Location} :
    Everywhere P (.chain x ss l) ↔ P (.chain x ss l) ∧ x.Everywhere P ∧
      ∀ s ∈ ss, s.operator.Everywhere P ∧ ∀ y ∈ s.extra, y.Everywhere P := by
  simp only [Everywhere, nodes, List.forall_mem_cons, List.forall_mem_append, mem_nodesSteps]
  refine and_congr_right fun _ => and_congr_right fun _ => ⟨fun h s hs => ⟨?_, ?_⟩, ?_⟩
  · intro n hn
    exact h n ⟨s, hs, Or.inl hn⟩
  · intro y hy n hn
    exact h n ⟨s, hs, Or.inr ⟨y, hy, hn⟩⟩
  · rintro h n ⟨s, hs, hn | ⟨y, hy, hn⟩⟩
    · exact (h s hs).1 n hn
    · exact (h s hs).2 y hy n hn

@[simp] theorem everywhere_invocation {x : Expr} {l : Option Location} :
    Everywhere P (.invocation x l) ↔ P (.invocation x l) ∧ x.Everywhere P := by
  simp [Everywhere, nodes]

/-! ### What a node holds -/

/-- The names that a node refers to or introduces. -/
def names : Expr → List String
  | .symbol name _ => [name]
  | .function name parameters _ _ => name.toList ++ parameters
  | .assignment _ name _ _ => [name]
  | _ => []

/-- The value of a literal. -/
def literal? : Expr → Option Literal
  | .literal v _ => some v
  | _ => none

/-- The operands of an application in the order of the source: callee and arguments, seed,
    operators and extra arguments, or the target of a call without arguments. -/
def operands : Expr → List Expr
  | .call f xs _ => f :: xs
  | .chain seed steps _ => seed :: steps.flatMap fun s => s.operator :: s.extra
  | .invocation target _ => [target]
  | _ => []

theorem forall_mem_operands_chain {seed : Expr} {ss : List Step} {l : Option Location} :
    (∀ x ∈ (chain seed ss l).operands, P x) ↔
      P seed ∧ ∀ s ∈ ss, P s.operator ∧ ∀ x ∈ s.extra, P x := by
  simp only [operands, List.forall_mem_cons, List.forall_mem_flatMap]

/-! ### What stands directly below a node -/

/-- The trees directly below a node, in the order of the source. -/
def children : Expr → List Expr
  | .function _ _ body _ => [body]
  | .block _ statements _ => statements
  | .assignment _ _ value _ => [value]
  | e => e.operands

/-- Whether an expression is a block. -/
def isBlock : Expr → Bool
  | .block .. => true
  | _ => false

theorem mem_nodes_iff {n e : Expr} : n ∈ e.nodes ↔ n = e ∨ ∃ x ∈ e.children, n ∈ x.nodes := by
  cases e with
  | literal | symbol => simp [nodes, children, operands]
  | function | assignment | invocation => simp [nodes, children, operands]
  | block => simp [nodes, children, mem_nodesAll]
  | call => simp [nodes, children, operands, mem_nodesAll]
  | chain seed ss l =>
    have hsteps : (∃ x ∈ ss.flatMap fun s => s.operator :: s.extra, n ∈ x.nodes) ↔
        ∃ s ∈ ss, n ∈ s.operator.nodes ∨ ∃ x ∈ s.extra, n ∈ x.nodes := by
      simp only [List.mem_flatMap, List.mem_cons]
      constructor
      · rintro ⟨x, ⟨s, hs, rfl | hx⟩, hn⟩
        · exact ⟨s, hs, Or.inl hn⟩
        · exact ⟨s, hs, Or.inr ⟨x, hx, hn⟩⟩
      · rintro ⟨s, hs, hn | ⟨x, hx, hn⟩⟩
        · exact ⟨_, ⟨s, hs, Or.inl rfl⟩, hn⟩
        · exact ⟨x, ⟨s, hs, Or.inr hx⟩, hn⟩
    simp only [nodes, children, operands, List.mem_cons, List.mem_append, mem_nodesSteps,
      exists_eq_or_imp, hsteps]

theorem everywhere_iff {e : Expr} : e.Everywhere P ↔ P e ∧ ∀ x ∈ e.children, x.Everywhere P := by
  constructor
  · exact fun h => ⟨h.self, fun x hx n hn => h n (mem_nodes_iff.mpr (Or.inr ⟨x, hx, hn⟩))⟩
  · rintro ⟨hself, hchildren⟩ n hn
    rcases mem_nodes_iff.mp hn with rfl | ⟨x, hx, hn⟩
    · exact hself
    · exact hchildren x hx n hn

theorem sizeOf_lt_of_mem_children {x e : Expr} (h : x ∈ e.children) : sizeOf x < sizeOf e := by
  have hmem {xs : List Expr} (hx : x ∈ xs) : sizeOf x < sizeOf xs := List.sizeOf_lt_of_mem hx
  cases e with
  | literal | symbol => cases h
  | function | assignment | invocation =>
    obtain rfl := List.mem_singleton.mp h
    simp
    omega
  | block b xs l =>
    have hlt : sizeOf x < sizeOf xs := hmem h
    simp
    omega
  | call f xs l =>
    rcases List.mem_cons.mp h with rfl | hx
    · simp
      omega
    · have hlt := hmem hx
      simp
      omega
  | chain seed ss l =>
    rcases List.mem_cons.mp h with rfl | hx
    · simp
      omega
    · obtain ⟨⟨p, xs⟩, hs, hx⟩ := List.mem_flatMap.mp hx
      have hstep := List.sizeOf_lt_of_mem hs
      rcases List.mem_cons.mp hx with rfl | hx
      · simp at hstep ⊢
        omega
      · have hlt := hmem hx
        simp [Step.extra] at hstep hlt ⊢
        omega

/-- **Induction on trees**: what holds of a tree whenever it holds of the trees directly below,
    holds of all trees. -/
theorem induction {motive : Expr → Prop}
    (h : ∀ e : Expr, (∀ x ∈ e.children, motive x) → motive e) (e : Expr) : motive e :=
  h e fun x _ => induction h x
termination_by sizeOf e
decreasing_by
  rename_i hx
  exact sizeOf_lt_of_mem_children hx

/-! ### Complete applications -/

/-- Whether an expression is a chain of steps. -/
def isChain : Expr → Bool
  | .chain .. => true
  | _ => false

/-- A call has an argument. -/
def HasArguments : Expr → Prop
  | .call _ xs _ => xs ≠ []
  | _ => True

/-- A chain has a step, and its seed is no chain itself. -/
def IsFlat : Expr → Prop
  | .chain seed steps _ => steps ≠ [] ∧ seed.isChain = false
  | _ => True

instance : DecidablePred HasArguments
  | .call _ xs _ => inferInstanceAs (Decidable (xs ≠ []))
  | .literal .. | .symbol .. | .function .. | .block .. | .assignment .. | .chain ..
  | .invocation .. => inferInstanceAs (Decidable True)

instance : DecidablePred IsFlat
  | .chain seed steps _ => inferInstanceAs (Decidable (steps ≠ [] ∧ seed.isChain = false))
  | .literal .. | .symbol .. | .function .. | .block .. | .assignment .. | .call ..
  | .invocation .. => inferInstanceAs (Decidable True)

instance [DecidablePred P] (e : Expr) : Decidable (e.Everywhere P) :=
  inferInstanceAs (Decidable (∀ n ∈ e.nodes, P n))

/-! ### Trees without locations -/

theorem unlocatedAll_eq_map (xs : List Expr) : unlocatedAll xs = xs.map unlocated := by
  induction xs with
  | nil => rfl
  | cons x xs ih => simp [unlocatedAll, ih]

/-- The step without its locations. -/
def unlocatedStep (s : Step) : Step := .mk s.operator.unlocated (s.extra.map unlocated)

theorem unlocatedSteps_eq_map (ss : List Step) : unlocatedSteps ss = ss.map unlocatedStep := by
  induction ss with
  | nil => rfl
  | cons s ss ih =>
    obtain ⟨p, xs⟩ := s
    simp [unlocatedSteps, ih, unlocatedAll_eq_map, unlocatedStep, Step.operator, Step.extra]

@[simp] theorem isAssignment_unlocated (e : Expr) : e.unlocated.isAssignment = e.isAssignment := by
  cases e <;> rfl

@[simp] theorem isChain_unlocated (e : Expr) : e.unlocated.isChain = e.isChain := by
  cases e <;> rfl

@[simp] theorem literal?_unlocated (e : Expr) : e.unlocated.literal? = e.literal? := by
  cases e <;> rfl

theorem isFlat_unlocated (e : Expr) : e.unlocated.IsFlat ↔ e.IsFlat := by
  cases e with
  | chain seed steps l => simp [unlocated, IsFlat, unlocatedSteps_eq_map]
  | _ => rfl

/-- A property that does not look at locations passes between trees that are equal up to
    locations. -/
theorem Everywhere.of_unlocated_eq (hP : ∀ n, P n.unlocated ↔ P n) {e e' : Expr}
    (heq : e.unlocated = e'.unlocated) (h : e.Everywhere P) : e'.Everywhere P := by
  have hlocated (x : Expr) : x.unlocated.Everywhere P ↔ x.Everywhere P := by
    simp only [Everywhere, nodes_unlocated, List.forall_mem_map, hP]
  rwa [← hlocated, ← heq, hlocated]

end Expr

end Juxta
