/-
  Juxta/Proofs/Layout/Pieces.lean
  ===============================
  **Where a node stands in its text** — the text of a tree is made of characters of the layout and
  of the texts of the trees directly below it, in their order (`Layout.pieces`,
  `Layout.text_eq_joined`).  Going down from node to node, every node of a tree has its place in
  the text of the whole: `Stands c d e path before x after` says that `x` stands between `before`
  and `after` in the text of `e`, with the nodes of `path` around it, the outermost first.

  The text at this place is the text of the node inside as many blocks as there are on the path
  (`Stands.text_eq`).
-/
import Juxta.Layout.Render
import Juxta.Proofs.Expr.Nodes
import Juxta.Proofs.Layout.Writing

namespace Juxta

namespace Layout

/-! ### Pieces of a node -/

/-- Characters of the layout, or a tree. -/
inductive Piece where
  | chars (text : List Char)
  | tree (e : Expr)

/-- A tree, if the piece is one. -/
def Piece.tree? : Piece → Option Expr
  | .chars _ => none
  | .tree e => some e

variable (c : Layout) (d : Nat)

/-- The text of a piece inside `d` blocks. -/
def Piece.text : Piece → List Char
  | .chars text => text
  | .tree e => c.text d e

/-- The text of pieces one after another. -/
def joined (ps : List Piece) : List Char := ps.flatMap (Piece.text c d)

/-- A tree in parentheses. -/
def parenthesizedPieces (e : Expr) : List Piece := [.chars ['('], .tree e, .chars [')']]

/-- A tree in the place of an operand. -/
def operandPieces (e : Expr) : List Piece :=
  if isClosed e then [.tree e] else parenthesizedPieces e

/-- A tree in the place of the last argument. -/
def lastArgumentPieces : Expr → List Piece
  | .chain seed steps l => [.tree (.chain seed steps l)]
  | e => operandPieces e

/-- The arguments of a call, each behind a blank. -/
def argumentPieces : List Expr → List Piece
  | [] => []
  | x :: xs =>
    .chars [' '] :: (if xs.isEmpty then lastArgumentPieces x else operandPieces x)
      ++ argumentPieces xs

/-- The steps of a chain, each behind a blank. -/
def stepPieces (steps : List Step) : List Piece :=
  steps.flatMap fun s => .chars [' ', '\x60'] :: operandPieces s.operator ++
    s.extra.flatMap fun x => .chars [' '] :: operandPieces x

/-- The statements of a block on one line. -/
def flatPieces (bracket : Bracket) (keep : Bool) (statements : List Expr) : List Piece :=
  let inner := [Piece.chars [';', ' ']].intercalate (statements.map fun x => [.tree x])
    ++ (if keep then [.chars [';']] else [])
  match bracket with
  | .brace => .chars ['\x7b', ' '] :: (inner ++ [.chars [' ', '\x7d']])
  | .paren => .chars ['('] :: (inner ++ [.chars [')']])

/-- Statements on lines of their own. -/
def linePieces (indent : List Char) (keep : Bool) : List Expr → List Piece
  | [] => []
  | x :: xs =>
    .chars ('\n' :: indent) :: .tree x :: (if keep || !xs.isEmpty then [.chars [';']] else [])
      ++ linePieces indent keep xs

/-- A block inside `d` others. -/
def blockPieces (bracket : Bracket) (keep : Bool) (statements : List Expr) : List Piece :=
  let texts := c.texts (d + 1) statements
  if statements.isEmpty then [.chars [bracket.opener.char, bracket.closer.char]]
  else if c.fits d texts (flatBlock bracket keep texts) then flatPieces bracket keep statements
  else .chars [bracket.opener.char] :: (linePieces (c.indent (d + 1)) keep statements
    ++ [.chars ('\n' :: (c.indent d ++ [bracket.closer.char]))])

/-- What the text of a node inside `d` blocks is made of. -/
def pieces : Expr → List Piece
  | .literal v _ => [.chars (literalText v)]
  | .symbol name _ => [.chars name.toList]
  | .function name parameters body _ =>
    .chars (functionText name parameters []) ::
      (if !body.isBraceBlock && (c.text d body).head? == some '\x7b' then parenthesizedPieces body
        else [.tree body])
  | .block bracket xs _ => c.blockPieces d bracket (keepsSeparator bracket xs) xs
  | .assignment recursive name value _ =>
    [.chars ([' '].intercalate [(bindingKeyword recursive).lexeme.toList, name.toList, []]),
      .tree value]
  | .call f xs _ => operandPieces f ++ argumentPieces xs
  | .chain seed steps _ => operandPieces seed ++ stepPieces steps
  | .invocation target _ => operandPieces target ++ [.chars ['!']]

/-- How many blocks stand around the trees below a node. -/
def below (e : Expr) : Nat := if e.isBlock then d + 1 else d

variable {c d}

@[simp] theorem joined_nil : c.joined d [] = [] := rfl

@[simp] theorem joined_cons (p : Piece) (ps : List Piece) :
    c.joined d (p :: ps) = p.text c d ++ c.joined d ps := List.flatMap_cons ..

@[simp] theorem joined_append (ps qs : List Piece) :
    c.joined d (ps ++ qs) = c.joined d ps ++ c.joined d qs := List.flatMap_append ..

@[simp] theorem text_chars (text : List Char) : (Piece.chars text).text c d = text := rfl

@[simp] theorem text_tree (e : Expr) : (Piece.tree e).text c d = c.text d e := rfl

theorem joined_flatMap {α : Type} (xs : List α) (f : α → List Piece) :
    c.joined d (xs.flatMap f) = xs.flatMap fun x => c.joined d (f x) :=
  List.flatMap_assoc ..

theorem joined_parenthesizedPieces (e : Expr) :
    c.joined d (parenthesizedPieces e) = parenthesized (c.text d e) := by
  simp [parenthesizedPieces, parenthesized]

theorem joined_operandPieces (e : Expr) :
    c.joined d (operandPieces e) = operandText e (c.text d e) := by
  unfold operandPieces operandText
  split
  · simp
  · exact joined_parenthesizedPieces e

theorem joined_lastArgumentPieces (e : Expr) :
    c.joined d (lastArgumentPieces e) = lastArgumentText e (c.text d e) := by
  cases e with
  | chain => simp [lastArgumentPieces, lastArgumentText]
  | _ => exact joined_operandPieces _

theorem joined_argumentPieces (xs : List Expr) :
    c.joined d (argumentPieces xs) = (c.argumentTexts d xs).flatMap ([' '] ++ ·) := by
  induction xs with
  | nil => simp [argumentPieces, argumentTexts]
  | cons x xs ih =>
    rw [argumentPieces, argumentTexts, List.flatMap_cons, joined_append, joined_cons, ih]
    split <;> simp [joined_lastArgumentPieces, joined_operandPieces]

theorem operandTexts_eq_map (xs : List Expr) :
    c.operandTexts d xs = xs.map fun x => operandText x (c.text d x) := by
  induction xs with
  | nil => rfl
  | cons x xs ih => rw [operandTexts, ih, List.map_cons]

theorem texts_eq_map (xs : List Expr) : c.texts d xs = xs.map (c.text d) := by
  induction xs with
  | nil => rfl
  | cons x xs ih => rw [texts, ih, List.map_cons]

theorem joined_stepPieces (ss : List Step) :
    c.joined d (stepPieces ss) = (c.stepTexts d ss).flatMap ([' '] ++ ·) := by
  rw [stepPieces, joined_flatMap]
  induction ss with
  | nil => simp [stepTexts]
  | cons s ss ih =>
    obtain ⟨p, xs⟩ := s
    have hxs : c.joined d (xs.flatMap fun x => .chars [' '] :: operandPieces x) =
        (c.operandTexts d xs).flatMap ([' '] ++ ·) := by
      rw [joined_flatMap, operandTexts_eq_map, List.flatMap_map]
      simp [joined_operandPieces]
    rw [List.flatMap_cons, ih, stepTexts, List.flatMap_cons, List.flatMap_append]
    simp [joined_operandPieces, Step.operator, Step.extra, hxs]

/-! ### Blocks -/

theorem joined_intercalate (separator : List Piece) (pss : List (List Piece)) :
    c.joined d (separator.intercalate pss) =
      (c.joined d separator).intercalate (pss.map (c.joined d)) := by
  cases pss with
  | nil => rfl
  | cons ps pss =>
    rw [List.map_cons, intercalate_cons, intercalate_cons, joined_append, joined_flatMap,
      List.flatMap_map]
    simp

theorem joined_flatPieces (bracket : Bracket) (keep : Bool) (xs : List Expr) :
    c.joined d (flatPieces bracket keep xs) = flatBlock bracket keep (c.texts d xs) := by
  have hinner : c.joined d ([Piece.chars [';', ' ']].intercalate (xs.map fun x => [.tree x])) =
      [';', ' '].intercalate (c.texts d xs) := by
    rw [joined_intercalate, texts_eq_map, List.map_map]
    congr 1
    exact List.map_congr_left fun x _ => by simp
  cases bracket <;> cases keep <;> simp [flatPieces, flatBlock, parenthesized, hinner]

theorem joined_linePieces (indent : List Char) (keep : Bool) (xs : List Expr) :
    c.joined d (linePieces indent keep xs) =
      (statementLines indent keep (c.texts d xs)).flatMap (['\n'] ++ ·) := by
  induction xs with
  | nil => rfl
  | cons x xs ih =>
    have hempty : (c.texts d xs).isEmpty = xs.isEmpty := by cases xs <;> rfl
    rw [linePieces, texts, statementLines, List.flatMap_cons, joined_append, ih, hempty]
    cases keep || !xs.isEmpty <;> simp

theorem joined_blockPieces (bracket : Bracket) (keep : Bool) (xs : List Expr) :
    c.joined (d + 1) (c.blockPieces d bracket keep xs) =
      c.blockText d bracket keep (c.texts (d + 1) xs) := by
  have hempty : (c.texts (d + 1) xs).isEmpty = xs.isEmpty := by cases xs <;> rfl
  unfold blockPieces blockText
  rw [hempty]
  dsimp only
  split
  · simp
  · split
    · exact joined_flatPieces bracket keep xs
    · rw [joined_cons, joined_append, joined_linePieces, brokenBlock, List.cons_append,
        intercalate_cons, List.flatMap_append]
      simp

theorem functionText_eq (name : Option String) (parameters : List String) (body : List Char) :
    functionText name parameters body = functionText name parameters [] ++ body := by
  simp [functionText, intercalate_cons]

/-- **The text of a node is made of its pieces.** -/
theorem text_eq_joined (e : Expr) : c.text d e = c.joined (below d e) (c.pieces d e) := by
  cases e with
  | literal | symbol => simp [text, pieces]
  | function name ps body l =>
    rw [text, pieces, functionText_eq, bodyText, joined_cons, text_chars]
    congr 1
    split
    · exact (joined_parenthesizedPieces body).symm
    · simp [below, Expr.isBlock]
  | block b xs l =>
    rw [text, pieces]
    exact (joined_blockPieces b (keepsSeparator b xs) xs).symm
  | assignment r name value l => simp [text, pieces, below, Expr.isBlock]
  | call f xs l =>
    rw [text, pieces, intercalate_cons, joined_append, joined_operandPieces,
      joined_argumentPieces]
    rfl
  | chain seed ss l =>
    rw [text, pieces, intercalate_cons, joined_append, joined_operandPieces, joined_stepPieces]
    rfl
  | invocation target l =>
    rw [text, pieces, joined_append, joined_operandPieces]
    simp [below, Expr.isBlock]

/-! ### The trees among the pieces -/

/-- The trees among pieces, in their order. -/
def trees (ps : List Piece) : List Expr := ps.filterMap Piece.tree?

@[simp] theorem trees_nil : trees [] = [] := rfl

@[simp] theorem trees_chars (text : List Char) (ps : List Piece) :
    trees (.chars text :: ps) = trees ps := rfl

@[simp] theorem trees_tree (e : Expr) (ps : List Piece) : trees (.tree e :: ps) = e :: trees ps :=
  rfl

@[simp] theorem trees_append (ps qs : List Piece) : trees (ps ++ qs) = trees ps ++ trees qs :=
  List.filterMap_append

@[simp] theorem trees_flatMap {α : Type} (xs : List α) (f : α → List Piece) :
    trees (xs.flatMap f) = xs.flatMap fun x => trees (f x) := List.filterMap_flatMap

@[simp] theorem trees_operandPieces (e : Expr) : trees (operandPieces e) = [e] := by
  unfold operandPieces
  split <;> rfl

@[simp] theorem trees_lastArgumentPieces (e : Expr) : trees (lastArgumentPieces e) = [e] := by
  cases e with
  | chain => rfl
  | _ => exact trees_operandPieces _

theorem trees_argumentPieces (xs : List Expr) : trees (argumentPieces xs) = xs := by
  induction xs with
  | nil => rfl
  | cons x xs ih =>
    rw [argumentPieces]
    split <;> simp [ih]

theorem trees_linePieces (indent : List Char) (keep : Bool) (xs : List Expr) :
    trees (linePieces indent keep xs) = xs := by
  induction xs with
  | nil => rfl
  | cons x xs ih =>
    rw [linePieces]
    split <;> simp [ih]

theorem trees_flatPieces (bracket : Bracket) (keep : Bool) (xs : List Expr) :
    trees (flatPieces bracket keep xs) = xs := by
  have hinner : trees ([Piece.chars [';', ' ']].intercalate (xs.map fun x => [.tree x])) = xs := by
    cases xs with
    | nil => rfl
    | cons x xs => simp [intercalate_cons, List.flatMap_map]
  cases bracket <;> cases keep <;> simp [flatPieces, hinner]

theorem trees_blockPieces (bracket : Bracket) (keep : Bool) (xs : List Expr) :
    trees (c.blockPieces d bracket keep xs) = xs := by
  unfold blockPieces
  dsimp only
  split
  · rename_i hempty
    rw [List.isEmpty_iff.mp hempty]
    rfl
  · split
    · exact trees_flatPieces bracket keep xs
    · simp [trees_linePieces]

/-- **The pieces of a node hold the trees directly below it**, in the order of the source. -/
theorem trees_pieces (e : Expr) : trees (c.pieces d e) = e.children := by
  cases e with
  | literal | symbol | assignment => rfl
  | function name ps body l =>
    rw [pieces]
    split <;> rfl
  | block b xs l => exact trees_blockPieces b _ xs
  | call f xs l => simp [pieces, trees_argumentPieces, Expr.children, Expr.operands]
  | chain seed ss l => simp [pieces, stepPieces, Expr.children, Expr.operands]
  | invocation target l => simp [pieces, Expr.children, Expr.operands]

theorem mem_trees_iff {x : Expr} {ps : List Piece} :
    x ∈ trees ps ↔ ∃ before after, ps = before ++ .tree x :: after := by
  rw [trees, List.mem_filterMap, ← List.mem_iff_append]
  constructor
  · rintro ⟨p, hp, hx⟩
    cases p with
    | chars text => cases hx
    | tree e =>
      cases hx
      exact hp
  · exact fun hp => ⟨_, hp, rfl⟩

/-! ### Places of nodes -/

/-- Inside `d` blocks, `x` stands between `before` and `after` in the text of `e`.  The nodes
    around it, with `e` first, are those of the path. -/
inductive Stands (c : Layout) :
    (d : Nat) → (e : Expr) → List Expr → List Char → (x : Expr) → List Char → Prop where
  | self {d : Nat} {e : Expr} : Stands c d e [] [] e []
  | inside {d : Nat} {e x y : Expr} {ps qs : List Piece} {path : List Expr}
      {before after : List Char} :
      c.pieces d e = ps ++ .tree x :: qs → Stands c (below d e) x path before y after →
      Stands c d e (e :: path) (c.joined (below d e) ps ++ before) y
        (after ++ c.joined (below d e) qs)

/-- How many blocks are on a path. -/
def blocks (path : List Expr) : Nat := path.countP Expr.isBlock

theorem below_add (d : Nat) (e : Expr) (path : List Expr) :
    below d e + blocks path = d + blocks (e :: path) := by
  rw [blocks, blocks, List.countP_cons, below]
  split <;> omega

variable {e x y : Expr} {path path' : List Expr} {before after before' after' : List Char}

/-- **The text at the place of a node is its text**, inside the blocks on the path. -/
theorem Stands.text_eq (h : Stands c d e path before x after) :
    c.text d e = before ++ c.text (d + blocks path) x ++ after := by
  induction h with
  | self => simp [blocks]
  | @inside d e x y ps qs path before after hpieces _ ih =>
    rw [text_eq_joined, hpieces, joined_append, joined_cons, text_tree, ih, below_add]
    simp

/-- A node on the path has a place itself, and the path goes on from there. -/
theorem Stands.exists_split (h : Stands c d e (path ++ y :: path') before x after) :
    ∃ u v u' v', Stands c d e path u y v ∧
      Stands c (d + blocks path) y (y :: path') u' x v' ∧ before = u ++ u' ∧ after = v' ++ v := by
  induction path generalizing d e before after with
  | nil =>
    cases h with
    | inside hpieces hinner =>
      exact ⟨[], [], _, _, .self, by simpa [blocks] using Stands.inside hpieces hinner, rfl,
        (List.append_nil _).symm⟩
  | cons z path ih =>
    cases h with
    | inside hpieces hinner =>
      obtain ⟨u, v, u', v', hstart, hrest, rfl, rfl⟩ := ih hinner
      rw [below_add] at hrest
      exact ⟨_, _, u', v', .inside hpieces hstart, hrest, (List.append_assoc ..).symm,
        List.append_assoc ..⟩

/-- **Every node of a tree has its place in the text.** -/
theorem exists_stands (c : Layout) {n e : Expr} (d : Nat) (h : n ∈ e.nodes) :
    ∃ path before after, Stands c d e path before n after := by
  induction e using Expr.induction generalizing d with
  | h e ih =>
    rcases Expr.mem_nodes_iff.mp h with rfl | ⟨x, hx, hn⟩
    · exact ⟨[], [], [], .self⟩
    · obtain ⟨path, before, after, hstands⟩ := ih x hx (below d e) hn
      rw [← trees_pieces (c := c) (d := d), mem_trees_iff] at hx
      obtain ⟨ps, qs, hpieces⟩ := hx
      exact ⟨_, _, _, .inside hpieces hstands⟩

end Layout

end Juxta
