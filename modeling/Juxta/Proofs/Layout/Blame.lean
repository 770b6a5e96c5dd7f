/-
  Juxta/Proofs/Layout/Blame.lean
  ==============================
  **The first bad node is blamed** — a tree is refused exactly when one of its nodes is bad in its
  place, and the error is about the first of these in the order of the source, under all settings
  of the layout (`Layout.render_eq_error_iff`).

  Whether a node is bad is a matter of the node and of its place: a literal without a source form
  is bad wherever it stands, a binding only as an operand.  `Expr.places` therefore lists the nodes
  of a tree together with the places that they have, and `blemish?` turns out to be a search in
  that list.
-/
import Juxta.Layout.Render
import Juxta.Proofs.Expr.Nodes

namespace Juxta

namespace Expr

/-! ### The nodes in their places -/

/-- A node of a tree in its place: as an operand, that is as callee, argument, seed, operator,
    extra argument or target, or as root, statement, body or value. -/
structure Place where
  node : Expr
  operand : Bool

mutual

/-- The places below the root of a tree in the order of the source. -/
def inner : Expr → List Place
  | .literal _ _ | .symbol _ _ => []
  | .function _ _ body _ => ⟨body, false⟩ :: inner body
  | .block _ xs _ => innerAll false xs
  | .assignment _ _ value _ => ⟨value, false⟩ :: inner value
  | .call f xs _ => ⟨f, true⟩ :: inner f ++ innerAll true xs
  | .chain seed steps _ => ⟨seed, true⟩ :: inner seed ++ innerSteps steps
  | .invocation target _ => ⟨target, true⟩ :: inner target

/-- The places of several trees, all of them operands or none. -/
def innerAll (operand : Bool) : List Expr → List Place
  | [] => []
  | x :: xs => ⟨x, operand⟩ :: inner x ++ innerAll operand xs

/-- The places of the trees of steps. -/
def innerSteps : List Step → List Place
  | [] => []
  | .mk p xs :: ss => ⟨p, true⟩ :: inner p ++ innerAll true xs ++ innerSteps ss

end

/-- The places of a tree in the order of the source, the root first. -/
def places (e : Expr) : List Place := ⟨e, false⟩ :: inner e

mutual

theorem map_node_inner : (e : Expr) → e.nodes = e :: e.inner.map Place.node
  | .literal _ _ | .symbol _ _ => rfl
  | .function _ _ x _ | .assignment _ _ x _ | .invocation x _ => by
    rw [nodes, map_node_inner x, inner, List.map_cons]
  | .block _ xs _ => by rw [nodes, map_node_innerAll xs false, inner]
  | .call f xs _ => by
    rw [nodes, map_node_inner f, map_node_innerAll xs true, inner, List.map_append, List.map_cons]
  | .chain x ss _ => by
    rw [nodes, map_node_inner x, map_node_innerSteps ss, inner, List.map_append, List.map_cons]

theorem map_node_innerAll : (xs : List Expr) → (operand : Bool) →
    nodesAll xs = (innerAll operand xs).map Place.node
  | [], _ => rfl
  | x :: xs, operand => by
    rw [nodesAll, map_node_inner x, map_node_innerAll xs operand, innerAll, List.map_append,
      List.map_cons]

theorem map_node_innerSteps : (ss : List Step) → nodesSteps ss = (innerSteps ss).map Place.node
  | [] => rfl
  | .mk p xs :: ss => by
    rw [nodesSteps, map_node_inner p, map_node_innerAll xs true, map_node_innerSteps ss,
      innerSteps, List.map_append, List.map_append, List.map_cons]

end

/-- The places of a tree hold its nodes. -/
theorem map_node_places (e : Expr) : e.places.map Place.node = e.nodes := e.map_node_inner.symm

mutual

theorem mem_inner_operand {x : Expr} : (e : Expr) →
    (⟨x, true⟩ ∈ e.inner ↔ x ∈ e.nodes.flatMap operands)
  | .literal _ _ | .symbol _ _ => by simp [inner, nodes, operands]
  | .function _ _ y _ | .assignment _ _ y _ | .invocation y _ => by
    simp [inner, nodes, operands, mem_inner_operand y]
  | .block _ xs _ => by simp [inner, nodes, operands, mem_innerAll_operand xs]
  | .call f xs _ => by
    simp [inner, nodes, operands, mem_inner_operand f, mem_innerAll_operand xs, or_left_comm]
  | .chain y ss _ => by
    simp [inner, nodes, operands, mem_inner_operand y, mem_innerSteps_operand ss, or_left_comm]

theorem mem_innerAll_operand {x : Expr} : (xs : List Expr) → {operand : Bool} →
    (⟨x, true⟩ ∈ innerAll operand xs ↔
      operand = true ∧ x ∈ xs ∨ x ∈ (nodesAll xs).flatMap operands)
  | [], _ => by simp [innerAll, nodesAll]
  | y :: xs, operand => by
    rw [innerAll, nodesAll, List.cons_append, List.mem_cons, List.mem_append, List.flatMap_append,
      List.mem_append, List.mem_cons, mem_inner_operand y, mem_innerAll_operand xs,
      Place.mk.injEq, and_or_left, eq_comm (a := true), and_comm (a := x = y), or_assoc,
      or_left_comm (a := x ∈ y.nodes.flatMap operands)]

theorem mem_innerSteps_operand {x : Expr} : (ss : List Step) →
    (⟨x, true⟩ ∈ innerSteps ss ↔
      x ∈ ss.flatMap (fun s => s.operator :: s.extra) ∨ x ∈ (nodesSteps ss).flatMap operands)
  | [] => by simp [innerSteps, nodesSteps]
  | .mk p xs :: ss => by
    simp [innerSteps, nodesSteps, mem_inner_operand p, mem_innerAll_operand xs,
      mem_innerSteps_operand ss, Step.operator, Step.extra, or_assoc, or_left_comm]

end

/-- The places of operands hold the operands of all nodes. -/
theorem mem_places_operand {x : Expr} {e : Expr} :
    ⟨x, true⟩ ∈ e.places ↔ ∃ n ∈ e.nodes, x ∈ n.operands := by
  rw [← List.mem_flatMap, ← mem_inner_operand, places, List.mem_cons]
  exact or_iff_right fun h => Bool.noConfusion (congrArg Place.operand h)

/-! ### Bad nodes -/

namespace Place

/-- What is wrong with a node in its place. -/
inductive Blames : Place → FormatProblem → Prop
  | binding {recursive : Bool} {name : String} {value : Expr} {l : Option Location} :
    Blames ⟨.assignment recursive name value l, true⟩ (.bindingAsOperand name)
  | truth {b : Bool} {l : Option Location} {operand : Bool} :
    Blames ⟨.literal (.truth b) l, operand⟩ (.truthValue b)
  | integer {n : Int} {l : Option Location} {operand : Bool} (h : n < 0) :
    Blames ⟨.literal (.integer n) l, operand⟩ (.negativeInteger n)
  | decimal {x : Binary64} {l : Option Location} {operand : Bool}
    (h : x.isFinite = false ∨ x.isNegative = true) :
    Blames ⟨.literal (.decimal x) l, operand⟩ (.decimal x)
  | text {s : String} {l : Option Location} {operand : Bool}
    (hdouble : '"' ∈ s.toList) (hsingle : '\'' ∈ s.toList) :
    Blames ⟨.literal (.text s) l, operand⟩ .bothQuotes

/-- A node that cannot be written in its place. -/
def IsBad (p : Place) : Prop := ∃ problem, p.Blames problem

/-- The error about a node in its place. -/
def blame? : Place → Option FormatError
  | ⟨.assignment _ name _ l, true⟩ => some ⟨.bindingAsOperand name, l⟩
  | ⟨.literal v l, _⟩ => v.problem?.map (⟨·, l⟩)
  | _ => none

theorem blames_literal_iff {v : Literal} {l : Option Location} {operand : Bool}
    {problem : FormatProblem} :
    Blames ⟨.literal v l, operand⟩ problem ↔ v.problem? = some problem := by
  constructor
  · rintro (_ | _ | h | h | ⟨hdouble, hsingle⟩)
    · rfl
    · exact if_pos h
    · rcases h with h | h <;> simp [Literal.problem?, h]
    · simp [Literal.problem?, String.contains_char_eq, hdouble, hsingle]
  · intro h
    cases v with
    | integer n =>
      obtain ⟨hn, rfl⟩ : n < 0 ∧ FormatProblem.negativeInteger n = problem := by
        simpa [Literal.problem?] using h
      exact .integer hn
    | decimal x =>
      obtain ⟨hx, rfl⟩ : (x.isFinite = false ∨ x.isNegative = true) ∧
          FormatProblem.decimal x = problem := by
        simpa [Literal.problem?] using h
      exact .decimal hx
    | text s =>
      obtain ⟨⟨hdouble, hsingle⟩, rfl⟩ : ('"' ∈ s.toList ∧ '\'' ∈ s.toList) ∧
          FormatProblem.bothQuotes = problem := by
        simpa [Literal.problem?, String.contains_char_eq] using h
      exact .text hdouble hsingle
    | truth b =>
      obtain rfl : FormatProblem.truthValue b = problem := Option.some.inj h
      exact .truth

theorem blame?_eq_some_iff {p : Place} {error : FormatError} :
    p.blame? = some error ↔ p.Blames error.problem ∧ error.location = p.node.location := by
  obtain ⟨problem, location⟩ := error
  obtain ⟨n, operand⟩ := p
  cases n with
  | literal v l =>
    rw [blames_literal_iff]
    constructor
    · intro h
      obtain ⟨_, hproblem, ⟨⟩⟩ := Option.map_eq_some_iff.mp h
      exact ⟨hproblem, rfl⟩
    · rintro ⟨hproblem, rfl⟩
      exact Option.map_eq_some_iff.mpr ⟨problem, hproblem, rfl⟩
  | assignment _ name _ l =>
    cases operand with
    | false =>
      constructor
      · rintro ⟨⟩
      · rintro ⟨⟨⟩, -⟩
    | true =>
      constructor
      · rintro ⟨⟩
        exact ⟨.binding, rfl⟩
      · rintro ⟨⟨⟩, rfl⟩
        rfl
  | _ =>
    constructor
    · rintro ⟨⟩
    · rintro ⟨⟨⟩, -⟩

theorem blame?_eq_none_iff {p : Place} : p.blame? = none ↔ ¬ p.IsBad := by
  rw [IsBad, Option.eq_none_iff_forall_ne_some, not_exists]
  constructor
  · intro h problem hblames
    exact h ⟨problem, p.node.location⟩ (blame?_eq_some_iff.mpr ⟨hblames, rfl⟩)
  · intro h error hblame
    exact h error.problem (blame?_eq_some_iff.mp hblame).1

/-- A bad node is a literal without a source form, or a binding in the place of an operand. -/
theorem isBad_iff {p : Place} : p.IsBad ↔
    (∃ v ∈ p.node.literal?, v.problem? ≠ none) ∨
      p.operand = true ∧ p.node.isAssignment = true := by
  rw [← Classical.not_not (a := p.IsBad), ← blame?_eq_none_iff]
  obtain ⟨n, operand⟩ := p
  cases n with
  | literal v l => simp [blame?, literal?, isAssignment]
  | assignment _ _ _ _ => cases operand <;> simp [blame?, literal?, isAssignment]
  | _ => simp [blame?, literal?, isAssignment]

end Place

open Place

theorem operandBlemish?_findSome? (e : Expr) :
    e.operandBlemish? (e.places.findSome? blame?) =
      (⟨e, true⟩ :: e.inner).findSome? blame? := by
  cases e <;> rfl

mutual

theorem blemish?_eq_findSome?_places : (e : Expr) → e.blemish? = e.places.findSome? blame?
  | .literal v l => by simp [blemish?, places, inner, blame?]
  | .symbol _ _ => rfl
  | .function _ _ x _ => blemish?_eq_findSome?_places x
  | .block _ xs _ => blemishAll?_eq_findSome? xs
  | .assignment _ _ x _ => blemish?_eq_findSome?_places x
  | .call f xs _ => by
    rw [blemish?, blemish?_eq_findSome?_places f, operandBlemish?_findSome?,
      blemishOperands?_eq_findSome? xs, ← List.findSome?_append]
    rfl
  | .chain x ss _ => by
    rw [blemish?, blemish?_eq_findSome?_places x, operandBlemish?_findSome?,
      blemishSteps?_eq_findSome? ss, ← List.findSome?_append]
    rfl
  | .invocation x _ => by
    rw [blemish?, blemish?_eq_findSome?_places x, operandBlemish?_findSome?]
    rfl

theorem blemishAll?_eq_findSome? : (xs : List Expr) →
    blemishAll? xs = (innerAll false xs).findSome? blame?
  | [] => rfl
  | x :: xs => by
    rw [blemishAll?, blemish?_eq_findSome?_places x, blemishAll?_eq_findSome? xs,
      ← List.findSome?_append]
    rfl

theorem blemishOperands?_eq_findSome? : (xs : List Expr) →
    blemishOperands? xs = (innerAll true xs).findSome? blame?
  | [] => rfl
  | x :: xs => by
    rw [blemishOperands?, blemish?_eq_findSome?_places x, operandBlemish?_findSome?,
      blemishOperands?_eq_findSome? xs, ← List.findSome?_append]
    rfl

theorem blemishSteps?_eq_findSome? : (ss : List Step) →
    blemishSteps? ss = (innerSteps ss).findSome? blame?
  | [] => rfl
  | .mk p xs :: ss => by
    rw [blemishSteps?, blemish?_eq_findSome?_places p, operandBlemish?_findSome?,
      blemishOperands?_eq_findSome? xs, blemishSteps?_eq_findSome? ss, ← List.findSome?_append,
      ← List.findSome?_append]
    rfl

end

theorem blemish?_eq_none_iff_places {e : Expr} :
    e.blemish? = none ↔ ∀ p ∈ e.places, ¬ p.IsBad := by
  simp only [blemish?_eq_findSome?_places, List.findSome?_eq_none_iff, blame?_eq_none_iff]

/-- The first blemish is a bad node with no bad node in front of it. -/
theorem blemish?_eq_some_iff {e : Expr} {error : FormatError} :
    e.blemish? = some error ↔ ∃ before p after, e.places = before ++ p :: after ∧
      (∀ q ∈ before, ¬ q.IsBad) ∧ p.Blames error.problem ∧ error.location = p.node.location := by
  simp only [blemish?_eq_findSome?_places, List.findSome?_eq_some_iff, blame?_eq_some_iff,
    blame?_eq_none_iff]
  refine exists_congr fun before => exists_congr fun p => ?_
  constructor
  · rintro ⟨after, hplaces, ⟨hblames, hlocation⟩, hbefore⟩
    exact ⟨after, hplaces, hbefore, hblames, hlocation⟩
  · rintro ⟨after, hplaces, hbefore, hblames, hlocation⟩
    exact ⟨after, hplaces, ⟨hblames, hlocation⟩, hbefore⟩

end Expr

namespace Layout

open Juxta.Expr

/-- **A tree is refused exactly when a node of it is bad in its place, and the first of these is
    blamed.** -/
theorem render_eq_error_iff (c : Layout) {e : Expr} {limit : Nat} (h : e.depth ≤ limit) :
    ((∃ error, c.render e limit = .error error) ↔ ∃ p ∈ e.places, p.IsBad) ∧
      ∀ error, c.render e limit = .error error ↔
        ∃ before p after, e.places = before ++ p :: after ∧ (∀ q ∈ before, ¬ q.IsBad) ∧
          p.Blames error.problem ∧ error.location = p.node.location := by
  have herror (error : FormatError) :
      c.render e limit = .error error ↔ e.blemish? = some error := by
    rw [render, if_neg (Nat.not_lt.mpr h)]
    cases e.blemish? with
    | none => simp
    | some found => simp
  simp only [herror]
  refine ⟨?_, fun error => blemish?_eq_some_iff⟩
  rw [← Option.ne_none_iff_exists', ne_eq, blemish?_eq_none_iff_places]
  simp only [Classical.not_forall, Classical.not_not, exists_prop]

/-- Two bindings, of which only the second is an operand, and two negative numbers. -/
def bindings : Expr :=
  .block .brace
    [.assignment false "f" (.function none [] (.symbol "y" none) none) none,
      .chain (.call (.symbol "f" none) [.literal (.integer 1) none] none)
        [.mk (.symbol "g" none)
          [.assignment true "x" (.literal (.integer (-1)) none) (some ⟨2, 9, 20, 14, none⟩),
            .literal (.integer (-2)) none]] none] none

/-- The second binding stands in front of its value and of the other number. -/
theorem render_eq_error_iff_bindings :
    bindings.depth ≤ 5 ∧ (∃ p ∈ bindings.places, p.IsBad) ∧
      ({ indentSize := 4, maxLineLength := 10 } : Layout).render bindings 5 =
        .error ⟨.bindingAsOperand "x", some ⟨2, 9, 20, 14, none⟩⟩ := by
  have hdepth : bindings.depth ≤ 5 := by decide
  have hrender : ({ indentSize := 4, maxLineLength := 10 } : Layout).render bindings 5 =
      .error ⟨.bindingAsOperand "x", some ⟨2, 9, 20, 14, none⟩⟩ := by
    refine ((render_eq_error_iff _ hdepth).2 _).mpr
      ⟨bindings.places.take 9, _, bindings.places.drop 10, rfl, fun q hq => ?_, .binding, rfl⟩
    rw [← Place.blame?_eq_none_iff]
    exact List.findSome?_eq_none_iff.mp (by rfl) q hq
  exact ⟨hdepth, (render_eq_error_iff _ hdepth).1.mp ⟨_, hrender⟩, hrender⟩

end Layout

end Juxta
