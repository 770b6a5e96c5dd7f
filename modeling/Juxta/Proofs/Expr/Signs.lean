/-
  Juxta/Proofs/Expr/Signs.lean
  ============================
  **What a tree says, in order** — `Expr.signs` goes through a tree in the order of the
  source and notes what was written there: the names and values, and the words and marks that
  give the nodes their form.  Each sign comes with the location that the tree keeps for it;
  names of bindings and parameters, backticks and `!` have none of their own.

  Of parentheses only those of a block are signs of the tree.  Names and values
  are contents; `Expr.reading` is the sequence of the contents.
-/
import Juxta.Layout.Render
import Juxta.Proofs.Expr.Nodes

namespace Juxta

/-- A name or a value that is written in a program. -/
inductive Content where
  | name (name : String)
  | value (value : Literal)
deriving DecidableEq, Repr

/-- What a token may leave in a tree. -/
inductive Sign where
  | content (content : Content)
  | keyword (k : Keyword)
  | mark (p : Punctuation)
deriving DecidableEq, Repr

def Sign.content? : Sign → Option Content
  | .content x => some x
  | _ => none

namespace Expr

mutual

/-- The signs of a tree in the order of the source, with their locations in the tree. -/
def signs : Expr → List (Sign × Option Location)
  | .literal v l => [(.content (.value v), l)]
  | .symbol n l => [(.content (.name n), l)]
  | .function n ps x l =>
    (.keyword .function, l) :: ((n.toList ++ ps).map fun p => (.content (.name p), none)) ++ signs x
  | .block b xs l => (.mark b.opener, l) :: signsAll xs
  | .assignment r n x l =>
    (.keyword (Layout.bindingKeyword r), l) :: (.content (.name n), none) :: signs x
  | .call f xs _ => signs f ++ signsAll xs
  | .chain x ss _ => signs x ++ signsSteps ss
  | .invocation x _ => signs x ++ [(.mark .bang, none)]

/-- The signs of several trees. -/
def signsAll : List Expr → List (Sign × Option Location)
  | [] => []
  | x :: xs => signs x ++ signsAll xs

/-- The signs of steps: for each its backtick, its operator and its extra arguments. -/
def signsSteps : List Step → List (Sign × Option Location)
  | [] => []
  | .mk p xs :: ss => (.mark .backtick, none) :: (signs p ++ signsAll xs) ++ signsSteps ss

end

/-- The names and values of a tree in the order of the source. -/
def reading (e : Expr) : List Content := e.signs.filterMap fun s => s.1.content?

theorem signsSteps_append (ss rs : List Step) :
    signsSteps (ss ++ rs) = signsSteps ss ++ signsSteps rs := by
  induction ss with
  | nil => rfl
  | cons s ss ih =>
    obtain ⟨p, xs⟩ := s
    simp [signsSteps, ih]

theorem nodesSteps_append (ss rs : List Step) :
    nodesSteps (ss ++ rs) = nodesSteps ss ++ nodesSteps rs := by
  induction ss with
  | nil => rfl
  | cons s ss ih =>
    obtain ⟨p, xs⟩ := s
    simp [nodesSteps, ih]

/-! ### The signs of single nodes -/

/-- The signs that are a node's own and not those of its parts. -/
def ownSigns : Expr → List Sign
  | .literal v _ => [.content (.value v)]
  | .symbol n _ => [.content (.name n)]
  | .function n ps _ _ => .keyword .function :: (n.toList ++ ps).map fun p => .content (.name p)
  | .block b _ _ => [.mark b.opener]
  | .assignment r n _ _ => [.keyword (Layout.bindingKeyword r), .content (.name n)]
  | .call .. => []
  | .chain _ ss _ => List.replicate ss.length (.mark .backtick)
  | .invocation .. => [.mark .bang]

mutual

/-- Every sign of a tree is the own sign of one of its nodes. -/
theorem count_signs (s : Sign) : (e : Expr) →
    (e.signs.map (·.1)).count s = (e.nodes.flatMap ownSigns).count s
  | .literal _ _ | .symbol _ _ => by simp [signs, nodes, ownSigns]
  | .function _ _ x _ => by
    simp [signs, nodes, ownSigns, Function.comp_def, List.count_cons, count_signs s x]
  | .block _ xs _ => by
    simp [signs, nodes, ownSigns, List.count_cons, count_signsAll s xs]
  | .assignment _ _ x _ => by
    simp [signs, nodes, ownSigns, List.count_cons, count_signs s x]
  | .call f xs _ => by
    simp [signs, nodes, ownSigns, count_signs s f, count_signsAll s xs]
  | .chain x ss _ => by
    simp [signs, nodes, ownSigns, count_signs s x, count_signsSteps s ss]
    omega
  | .invocation x _ => by
    simp [signs, nodes, ownSigns, List.count_cons, count_signs s x]

theorem count_signsAll (s : Sign) : (xs : List Expr) →
    ((signsAll xs).map (·.1)).count s = ((nodesAll xs).flatMap ownSigns).count s
  | [] => rfl
  | x :: xs => by simp [signsAll, nodesAll, count_signs s x, count_signsAll s xs]

theorem count_signsSteps (s : Sign) : (ss : List Step) →
    ((signsSteps ss).map (·.1)).count s =
      (List.replicate ss.length (Sign.mark .backtick)).count s +
        ((nodesSteps ss).flatMap ownSigns).count s
  | [] => rfl
  | .mk p xs :: ss => by
    simp [signsSteps, nodesSteps, List.replicate_succ, List.count_cons, count_signs s p,
      count_signsAll s xs, count_signsSteps s ss]
    omega

end

/-! ### Counting nodes by their signs -/

def isInvocation : Expr → Bool
  | .invocation .. => true
  | _ => false

def isFunction : Expr → Bool
  | .function .. => true
  | _ => false

/-- Whether an expression is a binding of the given sort. -/
def isBinding (recursive : Bool) : Expr → Bool
  | .assignment r .. => r == recursive
  | _ => false

def steps : Expr → List Step
  | .chain _ ss _ => ss
  | _ => []

/-- Nodes that are told by one sign of their own are as many as these signs. -/
theorem countP_nodes {p : Expr → Bool} {s : Sign}
    (h : ∀ n, n.ownSigns.count s = if p n then 1 else 0) (e : Expr) :
    e.nodes.countP p = (e.signs.map (·.1)).count s := by
  rw [count_signs]
  induction e.nodes with
  | nil => rfl
  | cons n ns ih =>
    rw [List.countP_cons, List.flatMap_cons, List.count_append, h, ih, Nat.add_comm]

theorem count_ownSigns_function {s : Sign} (hs : s.content? = none) (n : Option String)
    (ps : List String) (x : Expr) (l : Option Location) :
    (function n ps x l).ownSigns.count s = if s = .keyword .function then 1 else 0 := by
  have hnames : ((n.toList ++ ps).map fun p => Sign.content (.name p)).count s = 0 := by
    refine List.count_eq_zero.mpr fun hmem => ?_
    obtain ⟨p, -, rfl⟩ := List.mem_map.mp hmem
    cases hs
  rw [ownSigns, List.count_cons, hnames, Nat.zero_add]
  simp only [beq_iff_eq, @eq_comm _ s]

theorem count_ownSigns_chain {s : Sign} (hs : s ≠ .mark .backtick) (x : Expr) (ss : List Step)
    (l : Option Location) : (chain x ss l).ownSigns.count s = 0 := by
  rw [ownSigns, List.count_replicate, if_neg (by simpa using hs.symm)]

theorem countP_isInvocation (e : Expr) :
    e.nodes.countP isInvocation = (e.signs.map (·.1)).count (.mark .bang) := by
  refine countP_nodes (fun n => ?_) e
  cases n with
  | function => exact count_ownSigns_function rfl _ _ _ _
  | chain => exact count_ownSigns_chain (by decide) _ _ _
  | block b _ _ => cases b <;> rfl
  | _ => rfl

theorem countP_isFunction (e : Expr) :
    e.nodes.countP isFunction = (e.signs.map (·.1)).count (.keyword .function) := by
  refine countP_nodes (fun n => ?_) e
  cases n with
  | function => exact count_ownSigns_function rfl _ _ _ _
  | chain => exact count_ownSigns_chain (by decide) _ _ _
  | assignment r _ _ _ => cases r <;> rfl
  | _ => rfl

theorem countP_isBinding (recursive : Bool) (e : Expr) :
    e.nodes.countP (isBinding recursive) =
      (e.signs.map (·.1)).count (.keyword (Layout.bindingKeyword recursive)) := by
  refine countP_nodes (fun n => ?_) e
  cases n with
  | function =>
    rw [count_ownSigns_function rfl]
    cases recursive <;> rfl
  | chain => exact count_ownSigns_chain (by simp) _ _ _
  | assignment r _ _ _ => cases r <;> cases recursive <;> rfl
  | _ => rfl

theorem countP_isBraceBlock (e : Expr) :
    e.nodes.countP isBraceBlock = (e.signs.map (·.1)).count (.mark .openBrace) := by
  refine countP_nodes (fun n => ?_) e
  cases n with
  | function => exact count_ownSigns_function rfl _ _ _ _
  | chain => exact count_ownSigns_chain (by decide) _ _ _
  | block b _ _ => cases b <;> rfl
  | _ => rfl

theorem length_steps (e : Expr) :
    (e.nodes.flatMap steps).length = (e.signs.map (·.1)).count (.mark .backtick) := by
  have hown : ∀ n : Expr, n.ownSigns.count (.mark .backtick) = n.steps.length := by
    intro n
    cases n with
    | function => exact count_ownSigns_function rfl _ _ _ _
    | chain => exact List.count_replicate_self
    | block b _ _ => cases b <;> rfl
    | _ => rfl
  rw [count_signs]
  induction e.nodes with
  | nil => rfl
  | cons n ns ih =>
    rw [List.flatMap_cons, List.length_append, List.flatMap_cons, List.count_append, hown, ih]

end Expr

end Juxta
