/-
  Juxta/Proofs/Expr/Same.lean
  ===========================
  **Equality of trees** — `Expr.same` leaves locations out of account, and so does equality of
  `Expr.unlocated`.  They are the same for trees whose numbers are plain (`Expr.same_iff`): an
  undefined number is not the same as itself, and a zero is the same as the negative zero.

  What a node is apart from its location does not change with it.
-/
import Juxta.Proofs.Expr.Nodes

namespace Juxta

/-- A literal that is the same as itself, and as no other literal. -/
def Literal.IsPlain : Literal → Prop
  | .decimal (.infinity _) => True
  | .decimal (.finite negative _) => negative = false
  | .decimal .nan => False
  | _ => True

instance : DecidablePred Literal.IsPlain
  | .decimal (.finite negative _) => inferInstanceAs (Decidable (negative = false))
  | .decimal (.infinity _) | .integer _ | .text _ | .truth _ => .isTrue trivial
  | .decimal .nan => .isFalse id

theorem Literal.same_iff {v w : Literal} (hv : v.IsPlain) (hw : w.IsPlain) :
    v.same w = true ↔ v = w := by
  cases v with
  | decimal x =>
    cases w with
    | decimal y =>
      cases x with
      | nan => cases hv
      | infinity a => cases y <;> simp [same, Binary64.sameNumber]
      | finite a m =>
        obtain rfl : a = false := hv
        cases y with
        | finite b n =>
          obtain rfl : b = false := hw
          simp [same, Binary64.sameNumber]
        | _ => simp [same, Binary64.sameNumber]
    | _ => simp [same]
  | _ => cases w <;> simp [same]

namespace Expr

/-! ### The same tree -/

/-- The literal of the node, if it is one, is plain. -/
def HasPlainLiteral (n : Expr) : Prop := ∀ v ∈ n.literal?, v.IsPlain

instance : DecidablePred HasPlainLiteral := fun n =>
  inferInstanceAs (Decidable (∀ v ∈ n.literal?, v.IsPlain))

mutual

/-- **Trees with plain numbers are the same when they are equal without their locations.** -/
theorem same_iff : (e e' : Expr) → e.Everywhere HasPlainLiteral → e'.Everywhere HasPlainLiteral →
    (e.same e' = true ↔ e.unlocated = e'.unlocated)
  | .literal v _, e', h, h' => by
    cases e' with
    | literal w l =>
      have hv : v.IsPlain := h.self v rfl
      have hw : w.IsPlain := h'.self w rfl
      simp [same, unlocated, Literal.same_iff hv hw]
    | _ => simp [same, unlocated]
  | .symbol _ _, e', _, _ => by cases e' <;> simp [same, unlocated]
  | .function _ _ x _, e', h, h' => by
    cases e' with
    | function m qs y l =>
      have hbody := same_iff x y (everywhere_function.mp h).2 (everywhere_function.mp h').2
      simp [same, unlocated, hbody, and_assoc]
    | _ => simp [same, unlocated]
  | .block _ xs _, e', h, h' => by
    cases e' with
    | block c ys l =>
      have hall := sameAll_iff xs ys (everywhere_block.mp h).2 (everywhere_block.mp h').2
      simp [same, unlocated, hall]
    | _ => simp [same, unlocated]
  | .assignment _ _ x _, e', h, h' => by
    cases e' with
    | assignment s m y l =>
      have hvalue := same_iff x y (everywhere_assignment.mp h).2 (everywhere_assignment.mp h').2
      simp [same, unlocated, hvalue, and_assoc]
    | _ => simp [same, unlocated]
  | .call f xs _, e', h, h' => by
    cases e' with
    | call g ys l =>
      obtain ⟨-, hf, hxs⟩ := everywhere_call.mp h
      obtain ⟨-, hg, hys⟩ := everywhere_call.mp h'
      simp [same, unlocated, same_iff f g hf hg, sameAll_iff xs ys hxs hys]
    | _ => simp [same, unlocated]
  | .chain x ss _, e', h, h' => by
    cases e' with
    | chain y ts l =>
      obtain ⟨-, hx, hss⟩ := everywhere_chain.mp h
      obtain ⟨-, hy, hts⟩ := everywhere_chain.mp h'
      simp [same, unlocated, same_iff x y hx hy, sameSteps_iff ss ts hss hts]
    | _ => simp [same, unlocated]
  | .invocation x _, e', h, h' => by
    cases e' with
    | invocation y l =>
      have htarget := same_iff x y (everywhere_invocation.mp h).2 (everywhere_invocation.mp h').2
      simp [same, unlocated, htarget]
    | _ => simp [same, unlocated]

theorem sameAll_iff : (xs ys : List Expr) → (∀ x ∈ xs, x.Everywhere HasPlainLiteral) →
    (∀ y ∈ ys, y.Everywhere HasPlainLiteral) →
    (sameAll xs ys = true ↔ unlocatedAll xs = unlocatedAll ys)
  | [], ys, _, _ => by cases ys <;> simp [sameAll, unlocatedAll]
  | x :: xs, ys, h, h' => by
    cases ys with
    | nil => simp [sameAll, unlocatedAll]
    | cons y ys =>
      obtain ⟨hx, hxs⟩ := List.forall_mem_cons.mp h
      obtain ⟨hy, hys⟩ := List.forall_mem_cons.mp h'
      simp [sameAll, unlocatedAll, same_iff x y hx hy, sameAll_iff xs ys hxs hys]

theorem sameSteps_iff : (ss ts : List Step) →
    (∀ s ∈ ss, s.operator.Everywhere HasPlainLiteral ∧
      ∀ x ∈ s.extra, x.Everywhere HasPlainLiteral) →
    (∀ t ∈ ts, t.operator.Everywhere HasPlainLiteral ∧
      ∀ x ∈ t.extra, x.Everywhere HasPlainLiteral) →
    (sameSteps ss ts = true ↔ unlocatedSteps ss = unlocatedSteps ts)
  | [], ts, _, _ => by rcases ts with _ | ⟨⟨q, ys⟩, ts⟩ <;> simp [sameSteps, unlocatedSteps]
  | .mk p xs :: ss, ts, h, h' => by
    rcases ts with _ | ⟨⟨q, ys⟩, ts⟩
    · simp [sameSteps, unlocatedSteps]
    · obtain ⟨⟨hp, hxs⟩, hss⟩ := List.forall_mem_cons.mp h
      obtain ⟨⟨hq, hys⟩, hts⟩ := List.forall_mem_cons.mp h'
      simp [sameSteps, unlocatedSteps, same_iff p q hp hq, sameAll_iff xs ys hxs hys,
        sameSteps_iff ss ts hss hts]

end

/-! ### What locations do not change -/

mutual

theorem depth_unlocated : (e : Expr) → e.unlocated.depth = e.depth
  | .literal _ _ | .symbol _ _ => rfl
  | .function _ _ x _ => by simp [unlocated, depth, depth_unlocated x]
  | .block _ xs _ => by simp [unlocated, depth, depthAll_unlocated xs]
  | .assignment _ _ x _ => by simp [unlocated, depth, depth_unlocated x]
  | .call f xs _ => by simp [unlocated, depth, depth_unlocated f, depthAll_unlocated xs]
  | .chain x ss _ => by simp [unlocated, depth, depth_unlocated x, depthSteps_unlocated ss]
  | .invocation x _ => by simp [unlocated, depth, depth_unlocated x]

theorem depthAll_unlocated : (xs : List Expr) → depthAll (unlocatedAll xs) = depthAll xs
  | [] => rfl
  | x :: xs => by simp [unlocatedAll, depthAll, depth_unlocated x, depthAll_unlocated xs]

theorem depthSteps_unlocated : (ss : List Step) → depthSteps (unlocatedSteps ss) = depthSteps ss
  | [] => rfl
  | .mk p xs :: ss => by
    simp [unlocatedSteps, depthSteps, depth_unlocated p, depthAll_unlocated xs,
      depthSteps_unlocated ss]

end

@[simp] theorem isBraceBlock_unlocated (e : Expr) : e.unlocated.isBraceBlock = e.isBraceBlock := by
  cases e with
  | block b xs l => cases b <;> rfl
  | _ => rfl

theorem operands_unlocated (e : Expr) : e.unlocated.operands = e.operands.map unlocated := by
  cases e with
  | call f xs l => simp [unlocated, operands, unlocatedAll_eq_map]
  | chain x ss l =>
    simp [unlocated, operands, unlocatedSteps_eq_map, List.map_flatMap, List.flatMap_map,
      unlocatedStep, Step.operator, Step.extra]
  | _ => rfl

end Expr

end Juxta
