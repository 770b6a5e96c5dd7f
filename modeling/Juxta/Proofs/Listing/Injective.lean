/-
  Juxta/Proofs/Listing/Injective.lean
  ===================================
  **Listings tell trees apart** — a listing shows a tree as indented lines, without a mark where an
  item of a list ends and the next begins.  The indentation alone is enough: an item begins with a
  line at its own level and goes on over lines further in (`Listing.IsEntry`), so that items one
  after another can be cut apart again, and so can the fields of a node.

    * `Listing.fieldLines_append_inj`: a field ends where the next line at its level begins;
    * `Listing.unlocated_eq_of_treeLines_eq`: trees with the same lines are equal but for their
      locations;
    * `Program.listing_eq_iff_same`: two programs have one listing iff their trees are equal.
-/
import Juxta.Proofs.Grammar.NormalForm
import Juxta.Proofs.Listing.Written

namespace Juxta

namespace Listing

/-! ### Lines further in -/

/-- The text has no line feed. -/
def IsOneLine (line : String) : Prop := '\n' ∉ line.toList

/-- The text is of one line, which does not begin with a blank. -/
def IsFlush (line : String) : Prop := line.toList.head? ≠ some ' ' ∧ IsOneLine line

instance : DecidablePred IsOneLine := fun _ => inferInstanceAs (Decidable (_ ∉ _))

instance : DecidablePred IsFlush := fun _ => inferInstanceAs (Decidable (_ ≠ _ ∧ _))

theorem IsOneLine.append {line more : String} (h : IsOneLine line) (hmore : IsOneLine more) :
    IsOneLine (line ++ more) := by
  unfold IsOneLine
  rw [String.toList_append]
  exact List.not_mem_append h hmore

theorem IsFlush.append {line more : String} (h : IsFlush line) (hmore : IsFlush more) :
    IsFlush (line ++ more) := by
  refine ⟨?_, h.2.append hmore.2⟩
  rw [String.toList_append]
  cases htext : line.toList with
  | nil => exact hmore.1
  | cons c rest =>
    have hhead := h.1
    rwa [htext] at hhead

theorem isFlush_colon {text : String} (h : IsOneLine text) : IsFlush (": " ++ text) :=
  ⟨by simp, IsOneLine.append (by decide) h⟩

theorem toList_further (line : String) : (further 1 line).toList = ' ' :: ' ' :: line.toList := by
  simp [further]

theorem further_injective {line line' : String} (h : further 1 line = further 1 line') :
    line = line' := by
  have htext := congrArg String.toList h
  rw [toList_further, toList_further] at htext
  exact String.toList_injective (List.cons.inj (List.cons.inj htext).2).2

theorem IsOneLine.further {line : String} (h : IsOneLine line) : IsOneLine (further 1 line) := by
  unfold IsOneLine at *
  rw [toList_further]
  simpa using h

theorem not_isFlush_further (line : String) : ¬ IsFlush (further 1 line) := by
  rintro ⟨hhead, -⟩
  rw [toList_further] at hhead
  exact hhead rfl

/-- Nothing follows at a deeper level. -/
def StartsFlush (lines : List String) : Prop := ∀ line ∈ lines.head?, IsFlush line

theorem startsFlush_cons {line : String} {lines : List String} (h : IsFlush line) :
    StartsFlush (line :: lines) := by
  rintro _ ⟨⟩
  exact h

/-- **Lines further in end where a line at the level begins.** -/
theorem map_further_append_inj {lines lines' rest rest' : List String} (hrest : StartsFlush rest)
    (hrest' : StartsFlush rest')
    (h : lines.map (further 1) ++ rest = lines'.map (further 1) ++ rest') :
    lines = lines' ∧ rest = rest' := by
  induction lines generalizing lines' with
  | nil =>
    cases lines' with
    | nil => exact ⟨rfl, h⟩
    | cons line' lines' =>
      obtain rfl : rest = _ := h
      exact absurd (hrest _ rfl) (not_isFlush_further line')
  | cons line lines ih =>
    cases lines' with
    | nil =>
      obtain rfl : _ = rest' := h
      exact absurd (hrest' _ rfl) (not_isFlush_further line)
    | cons line' lines' =>
      obtain ⟨hline, hlines⟩ := List.cons.inj h
      obtain ⟨rfl, hbehind⟩ := ih hlines
      exact ⟨congrArg (· :: lines) (further_injective hline), hbehind⟩

/-! ### Items -/

/-- One line at the level, and lines further in. -/
def IsEntry (lines : List String) : Prop :=
  ∃ (first : String) (inner : List String), lines = first :: inner.map (further 1) ∧
    IsFlush first ∧ ∀ line ∈ inner, IsOneLine line

theorem IsEntry.isOneLine {lines : List String} (h : IsEntry lines) :
    ∀ line ∈ lines, IsOneLine line := by
  obtain ⟨first, inner, rfl, hfirst, hinner⟩ := h
  refine List.forall_mem_cons.mpr ⟨hfirst.2, List.forall_mem_map.mpr fun line hline => ?_⟩
  exact (hinner line hline).further

theorem startsFlush_flatten {entries : List (List String)} (h : ∀ lines ∈ entries, IsEntry lines) :
    StartsFlush entries.flatten := by
  cases entries with
  | nil => nofun
  | cons lines entries =>
    obtain ⟨first, inner, rfl, hfirst, -⟩ := h lines List.mem_cons_self
    exact startsFlush_cons hfirst

/-- **Items one after another can be cut apart.** -/
theorem flatten_entries_injective {entries entries' : List (List String)}
    (h : ∀ lines ∈ entries, IsEntry lines) (h' : ∀ lines ∈ entries', IsEntry lines)
    (heq : entries.flatten = entries'.flatten) : entries = entries' := by
  induction entries generalizing entries' with
  | nil =>
    cases entries' with
    | nil => rfl
    | cons lines' entries' =>
      obtain ⟨first, inner, rfl, -⟩ := h' lines' List.mem_cons_self
      cases heq
  | cons lines entries ih =>
    obtain ⟨⟨first, inner, rfl, -⟩, hentries⟩ := List.forall_mem_cons.mp h
    cases entries' with
    | nil => cases heq
    | cons lines' entries' =>
      obtain ⟨⟨first', inner', rfl, -⟩, hentries'⟩ := List.forall_mem_cons.mp h'
      obtain ⟨rfl, hbehind⟩ := List.cons.inj heq
      obtain ⟨rfl, hrest⟩ := map_further_append_inj (startsFlush_flatten hentries)
        (startsFlush_flatten hentries') hbehind
      rw [ih hentries hentries' hrest]

/-! ### Fields -/

/-- Both are values, both nodes or both sequences of nodes. -/
def Content.Alike : Content → Content → Prop
  | .value _, .value _ => True
  | .node _, .node _ => True
  | .nodes _, .nodes _ => True
  | _, _ => False

/-- A value takes one line, and every node is an item. -/
def Content.IsShown : Content → Prop
  | .value text => IsOneLine text
  | .node lines => IsEntry lines
  | .nodes items => ∀ lines ∈ items, IsEntry lines

section Fields

variable {key : String} {content content' : Content}

theorem startsFlush_fieldLines (hkey : IsFlush key) (h : content.IsShown) (rest : List String) :
    StartsFlush (fieldLines key content ++ rest) := by
  cases content with
  | value text =>
    rw [fieldLines, String.append_assoc]
    exact startsFlush_cons (hkey.append (isFlush_colon h))
  | node lines => exact startsFlush_cons (hkey.append (by decide))
  | nodes items =>
    cases items with
    | nil => exact startsFlush_cons (hkey.append (by decide))
    | cons lines items => exact startsFlush_cons (hkey.append (by decide))

theorem isOneLine_fieldLines (hkey : IsFlush key) (h : content.IsShown) :
    ∀ line ∈ fieldLines key content, IsOneLine line := by
  cases content with
  | value text =>
    rw [fieldLines, String.append_assoc]
    exact List.forall_mem_singleton.mpr (hkey.append (isFlush_colon h)).2
  | node lines =>
    refine List.forall_mem_cons.mpr ⟨(hkey.append (by decide)).2, ?_⟩
    exact List.forall_mem_map.mpr fun line hline => (IsEntry.isOneLine h line hline).further
  | nodes items =>
    cases items with
    | nil => exact List.forall_mem_singleton.mpr (hkey.append (by decide)).2
    | cons lines items =>
      refine List.forall_mem_cons.mpr ⟨(hkey.append (by decide)).2, List.forall_mem_append.mpr
        ⟨List.forall_mem_map.mpr fun line hline => ?_, List.forall_mem_singleton.mpr (by decide)⟩⟩
      obtain ⟨entry, hentry, hmem⟩ := List.mem_flatten.mp hline
      exact ((h entry hentry).isOneLine line hmem).further

/-- **A field ends where the next line at its level begins.** -/
theorem fieldLines_append_inj (halike : content.Alike content') (h : content.IsShown)
    (h' : content'.IsShown) {rest rest' : List String} (hrest : StartsFlush rest)
    (hrest' : StartsFlush rest')
    (heq : fieldLines key content ++ rest = fieldLines key content' ++ rest') :
    content = content' ∧ rest = rest' := by
  cases content with
  | value text =>
    cases content' with
    | value text' =>
      obtain ⟨hline, hbehind⟩ := List.cons.inj heq
      exact ⟨congrArg Content.value (by simpa using hline), hbehind⟩
    | _ => cases halike
  | node lines =>
    cases content' with
    | node lines' =>
      obtain ⟨rfl, hbehind⟩ := map_further_append_inj hrest hrest' (List.cons.inj heq).2
      exact ⟨rfl, hbehind⟩
    | _ => cases halike
  | nodes items =>
    cases content' with
    | nodes items' =>
      have hclose {rest : List String} : StartsFlush ("]" :: rest) := startsFlush_cons (by decide)
      cases items with
      | nil =>
        cases items' with
        | nil => exact ⟨rfl, (List.cons.inj heq).2⟩
        | cons => exact absurd (List.cons.inj heq).1 (by simp)
      | cons lines items =>
        cases items' with
        | nil => exact absurd (List.cons.inj heq).1 (by simp)
        | cons lines' items' =>
          simp only [fieldLines, List.cons_append, List.append_assoc, List.cons.injEq,
            true_and] at heq
          obtain ⟨hflatten, hbehind⟩ := map_further_append_inj hclose hclose heq
          have hitems := flatten_entries_injective h h' hflatten
          exact ⟨congrArg Content.nodes hitems, (List.cons.inj hbehind).2⟩
    | _ => cases halike

end Fields

/-- The fields of two nodes of one kind: they have the same keys and like contents. -/
def AlikeFields (field field' : String × Content) : Prop :=
  field.1 = field'.1 ∧ field.2.Alike field'.2

/-- The key is in place, and what the field holds is shown as it should be. -/
def IsField (field : String × Content) : Prop := IsFlush field.1 ∧ field.2.IsShown

theorem isField {key : String} {content : Content} (hkey : IsFlush key) (h : content.IsShown) :
    IsField (key, content) := ⟨hkey, h⟩

theorem flatMap_fieldLines_injective {fields fields' : List (String × Content)}
    (halike : List.Forall₂ AlikeFields fields fields') (h : ∀ field ∈ fields, IsField field)
    (h' : ∀ field ∈ fields', IsField field)
    (heq : fields.flatMap (fun field => fieldLines field.1 field.2) =
      fields'.flatMap fun field => fieldLines field.1 field.2) : fields = fields' := by
  have hstarts (fields : List (String × Content)) (h : ∀ field ∈ fields, IsField field) :
      StartsFlush (fields.flatMap fun field => fieldLines field.1 field.2) := by
    cases fields with
    | nil => nofun
    | cons field fields =>
      obtain ⟨hkey, hcontent⟩ := h field List.mem_cons_self
      exact startsFlush_fieldLines hkey hcontent _
  induction halike with
  | nil => rfl
  | @cons field field' fields fields' hfield hfields ih =>
    obtain ⟨⟨-, hcontent⟩, hrest⟩ := List.forall_mem_cons.mp h
    obtain ⟨⟨-, hcontent'⟩, hrest'⟩ := List.forall_mem_cons.mp h'
    obtain ⟨key, content⟩ := field
    obtain ⟨key', content'⟩ := field'
    obtain ⟨rfl, hlike⟩ := hfield
    rw [List.flatMap_cons, List.flatMap_cons] at heq
    obtain ⟨rfl, hbehind⟩ := fieldLines_append_inj hlike hcontent hcontent' (hstarts _ hrest)
      (hstarts _ hrest') heq
    rw [ih hrest hrest' hbehind]

/-! ### Nodes -/

theorem nodeLines_eq (name : String) (fields : List (String × Content)) :
    nodeLines name fields =
      (name ++ ":") :: (fields.flatMap fun field => fieldLines field.1 field.2).map (further 1) := by
  rw [nodeLines, List.map_flatMap]

theorem isEntry_nodeLines {name : String} (hname : IsFlush name)
    {fields : List (String × Content)} (h : ∀ field ∈ fields, IsField field) :
    IsEntry (nodeLines name fields) := by
  refine ⟨_, _, nodeLines_eq name fields, hname.append (by decide), ?_⟩
  refine List.forall_mem_flatMap.mpr fun field hfield => ?_
  obtain ⟨hkey, hcontent⟩ := h field hfield
  exact isOneLine_fieldLines hkey hcontent

/-- **The lines of a node give its name and, if its kind is known, its fields.** -/
theorem nodeLines_injective {name name' : String} {fields fields' : List (String × Content)}
    (heq : nodeLines name fields = nodeLines name' fields')
    (halike : name = name' → List.Forall₂ AlikeFields fields fields')
    (h : ∀ field ∈ fields, IsField field) (h' : ∀ field ∈ fields', IsField field) :
    name = name' ∧ fields = fields' := by
  rw [nodeLines_eq, nodeLines_eq] at heq
  obtain ⟨hfirst, hinner⟩ := List.cons.inj heq
  have hname : name = name' := by simpa using hfirst
  have hlines := List.map_injective_iff.mpr (fun _ _ => further_injective) hinner
  exact ⟨hname, flatMap_fieldLines_injective (halike hname) h h' hlines⟩

/-! ### Trees -/

/-- The name of a node. -/
def label : Expr → String
  | .literal .. => "Literal"
  | .symbol .. => "SymbolRef"
  | .function .. => "FunctionDef"
  | .block .. => "Block"
  | .assignment .. => "Assignment"
  | .call .. => "Call"
  | .chain .. => "InfixCall"
  | .invocation .. => "NoArgInvoke"

/-- The fields of a node. -/
def fields : Expr → List (String × Content)
  | .literal value _ => [("value", .value value.written)]
  | .symbol name _ => [("name", .value (Text.quote name))]
  | .function name parameters body _ =>
    [("parameters", .value (tuple parameters)), ("body", .node (treeLines body)),
      ("name", optionalName name)]
  | .block bracket statements _ =>
    [("scoped", truth (bracket == .brace)), ("statements", .nodes (allTreeLines statements))]
  | .assignment recursive name value _ =>
    [("recursive", truth recursive), ("name", .value (Text.quote name)),
      ("value", .node (treeLines value))]
  | .call callee arguments _ =>
    [("callee", .node (treeLines callee)), ("arguments", .nodes (allTreeLines arguments))]
  | .chain seed steps _ =>
    [("seed", .node (treeLines seed)), ("chain", .nodes (allStepLines steps))]
  | .invocation target _ => [("target", .node (treeLines target))]

/-- The fields of a step. -/
def stepFields (s : Step) : List (String × Content) :=
  [("operator", .node (treeLines s.operator)), ("extra_args", .nodes (allTreeLines s.extra))]

theorem treeLines_eq_nodeLines (e : Expr) : treeLines e = nodeLines (label e) (fields e) := by
  cases e <;> rfl

theorem allTreeLines_eq_map (xs : List Expr) : allTreeLines xs = xs.map treeLines := by
  induction xs with
  | nil => rfl
  | cons x xs ih => rw [allTreeLines, ih, List.map_cons]

theorem allStepLines_eq_map (ss : List Step) :
    allStepLines ss = ss.map fun s => nodeLines "InfixStep" (stepFields s) := by
  induction ss with
  | nil => rfl
  | cons s ss ih =>
    obtain ⟨p, xs⟩ := s
    rw [allStepLines, ih, List.map_cons]
    rfl

theorem isFlush_label (e : Expr) : IsFlush (label e) := by
  cases e <;> simp only [label] <;> decide

theorem isShown_truth (b : Bool) : (truth b).IsShown := Literal.lineFeed_not_mem_written (.truth b)

theorem isShown_optionalName (name : Option String) : (optionalName name).IsShown := by
  cases name with
  | none =>
    have hnone : IsOneLine "None" := by decide
    exact hnone
  | some name => exact lineFeed_not_mem_quote name

theorem isEntry_of_fields {e : Expr} (h : ∀ field ∈ fields e, IsField field) :
    IsEntry (treeLines e) := by
  rw [treeLines_eq_nodeLines]
  exact isEntry_nodeLines (isFlush_label e) h

theorem isEntry_allTreeLines {xs : List Expr} (h : ∀ x ∈ xs, IsEntry (treeLines x)) :
    ∀ lines ∈ allTreeLines xs, IsEntry lines := by
  rw [allTreeLines_eq_map]
  exact List.forall_mem_map.mpr h

theorem forall_mem_pair {P : String × Content → Prop} {field field' : String × Content} :
    (∀ f ∈ [field, field'], P f) ↔ P field ∧ P field' := by
  rw [List.forall_mem_cons, List.forall_mem_singleton]

theorem forall_mem_triple {P : String × Content → Prop} {field field' field'' : String × Content} :
    (∀ f ∈ [field, field', field''], P f) ↔ P field ∧ P field' ∧ P field'' := by
  rw [List.forall_mem_cons, forall_mem_pair]

theorem isField_stepFields {s : Step} (hoperator : IsEntry (treeLines s.operator))
    (hextra : ∀ x ∈ s.extra, IsEntry (treeLines x)) : ∀ field ∈ stepFields s, IsField field := by
  have hentries : (Content.nodes (allTreeLines s.extra)).IsShown := isEntry_allTreeLines hextra
  exact forall_mem_pair.mpr ⟨isField (by decide) hoperator, isField (by decide) hentries⟩

theorem isEntry_allStepLines {ss : List Step}
    (h : ∀ s ∈ ss, IsEntry (treeLines s.operator) ∧ ∀ x ∈ s.extra, IsEntry (treeLines x)) :
    ∀ lines ∈ allStepLines ss, IsEntry lines := by
  rw [allStepLines_eq_map]
  refine List.forall_mem_map.mpr fun s hs => isEntry_nodeLines (by decide) ?_
  exact isField_stepFields (h s hs).1 (h s hs).2

/-- **What a node shows are fields**, on lines of their own. -/
theorem isField_fields (e : Expr) : ∀ field ∈ fields e, IsField field := by
  induction e using Expr.induction with
  | h e ih =>
    have hchildren : ∀ x ∈ e.children, IsEntry (treeLines x) := fun x hx =>
      isEntry_of_fields (ih x hx)
    have hquote (name : String) : (Content.value (Text.quote name)).IsShown :=
      lineFeed_not_mem_quote name
    cases e with
    | literal v l =>
      have hvalue : (Content.value v.written).IsShown := v.lineFeed_not_mem_written
      exact List.forall_mem_singleton.mpr (isField (by decide) hvalue)
    | symbol name l => exact List.forall_mem_singleton.mpr (isField (by decide) (hquote name))
    | function name ps body l =>
      have hps : (Content.value (tuple ps)).IsShown := lineFeed_not_mem_tuple ps
      have hbody := hchildren body (List.mem_singleton_self body)
      have hname := isShown_optionalName name
      exact forall_mem_triple.mpr
        ⟨isField (by decide) hps, isField (by decide) hbody, isField (by decide) hname⟩
    | block b xs l =>
      have hscoped := isShown_truth (b == .brace)
      have hxs : (Content.nodes (allTreeLines xs)).IsShown := isEntry_allTreeLines hchildren
      exact forall_mem_pair.mpr ⟨isField (by decide) hscoped, isField (by decide) hxs⟩
    | assignment r name value l =>
      have hrecursive := isShown_truth r
      have hvalue := hchildren value (List.mem_singleton_self value)
      exact forall_mem_triple.mpr ⟨isField (by decide) hrecursive,
        isField (by decide) (hquote name), isField (by decide) hvalue⟩
    | call f xs l =>
      obtain ⟨hf, hrest⟩ := List.forall_mem_cons.mp hchildren
      have hxs : (Content.nodes (allTreeLines xs)).IsShown := isEntry_allTreeLines hrest
      exact forall_mem_pair.mpr ⟨isField (by decide) hf, isField (by decide) hxs⟩
    | chain seed ss l =>
      obtain ⟨hseed, hrest⟩ := (Expr.forall_mem_operands_chain (l := l)).mp hchildren
      have hss : (Content.nodes (allStepLines ss)).IsShown := isEntry_allStepLines hrest
      exact forall_mem_pair.mpr ⟨isField (by decide) hseed, isField (by decide) hss⟩
    | invocation target l =>
      have htarget := hchildren target (List.mem_singleton_self target)
      exact List.forall_mem_singleton.mpr (isField (by decide) htarget)

theorem isEntry_treeLines (e : Expr) : IsEntry (treeLines e) := isEntry_of_fields (isField_fields e)

theorem alike_optionalName (name name' : Option String) :
    (optionalName name).Alike (optionalName name') := by
  cases name <;> cases name' <;> trivial

/-- Nodes of one name have like fields. -/
theorem alikeFields_of_label {e e' : Expr} (h : label e = label e') :
    List.Forall₂ AlikeFields (fields e) (fields e') := by
  have hfield {key : String} {content content' : Content} (h : content.Alike content') :
      AlikeFields (key, content) (key, content') := ⟨rfl, h⟩
  cases e with
  | literal v l =>
    cases e' with
    | literal v' l' => exact .cons (hfield trivial) .nil
    | _ => exact absurd h (by simp [label])
  | symbol name l =>
    cases e' with
    | symbol name' l' => exact .cons (hfield trivial) .nil
    | _ => exact absurd h (by simp [label])
  | function name ps body l =>
    cases e' with
    | function name' ps' body' l' =>
      have hname := alike_optionalName name name'
      exact .cons (hfield trivial) (.cons (hfield trivial) (.cons (hfield hname) .nil))
    | _ => exact absurd h (by simp [label])
  | block b xs l =>
    cases e' with
    | block b' xs' l' => exact .cons (hfield trivial) (.cons (hfield trivial) .nil)
    | _ => exact absurd h (by simp [label])
  | assignment r name value l =>
    cases e' with
    | assignment r' name' value' l' =>
      exact .cons (hfield trivial) (.cons (hfield trivial) (.cons (hfield trivial) .nil))
    | _ => exact absurd h (by simp [label])
  | call f xs l =>
    cases e' with
    | call f' xs' l' => exact .cons (hfield trivial) (.cons (hfield trivial) .nil)
    | _ => exact absurd h (by simp [label])
  | chain seed ss l =>
    cases e' with
    | chain seed' ss' l' => exact .cons (hfield trivial) (.cons (hfield trivial) .nil)
    | _ => exact absurd h (by simp [label])
  | invocation target l =>
    cases e' with
    | invocation target' l' => exact .cons (hfield trivial) .nil
    | _ => exact absurd h (by simp [label])

/-- **The lines of a tree give its node**: the name and the fields. -/
theorem node_of_treeLines_eq {e e' : Expr} (h : treeLines e = treeLines e') :
    label e = label e' ∧ fields e = fields e' := by
  rw [treeLines_eq_nodeLines, treeLines_eq_nodeLines] at h
  exact nodeLines_injective h alikeFields_of_label (isField_fields e) (isField_fields e')

theorem stepFields_of_nodeLines_eq {s s' : Step}
    (h : nodeLines "InfixStep" (stepFields s) = nodeLines "InfixStep" (stepFields s')) :
    stepFields s = stepFields s' := by
  have hshown (s : Step) : ∀ field ∈ stepFields s, IsField field :=
    isField_stepFields (isEntry_treeLines s.operator) fun x _ => isEntry_treeLines x
  have halike : List.Forall₂ AlikeFields (stepFields s) (stepFields s') :=
    .cons ⟨rfl, trivial⟩ (.cons ⟨rfl, trivial⟩ .nil)
  exact (nodeLines_injective h (fun _ => halike) (hshown s) (hshown s')).2

theorem truth_injective {b b' : Bool} (h : truth b = truth b') : b = b' :=
  Literal.truth.inj (Literal.written_injective (Content.value.inj h))

mutual

/-- **Trees with the same lines are equal but for their locations.** -/
theorem unlocated_eq_of_treeLines_eq : (e e' : Expr) → treeLines e = treeLines e' →
    e.unlocated = e'.unlocated
  | .literal v l, e', h => by
    obtain ⟨hlabel, hfields⟩ := node_of_treeLines_eq h
    cases e' with
    | literal v' l' =>
      simp only [fields, List.cons.injEq, Prod.mk.injEq, true_and, and_true, Content.value.injEq]
        at hfields
      rw [Expr.unlocated, Expr.unlocated, Literal.written_injective hfields]
    | _ => exact absurd hlabel (by simp [label])
  | .symbol name l, e', h => by
    obtain ⟨hlabel, hfields⟩ := node_of_treeLines_eq h
    cases e' with
    | symbol name' l' =>
      simp only [fields, List.cons.injEq, Prod.mk.injEq, true_and, and_true, Content.value.injEq]
        at hfields
      rw [Expr.unlocated, Expr.unlocated, Text.quote_injective hfields]
    | _ => exact absurd hlabel (by simp [label])
  | .function name ps body l, e', h => by
    obtain ⟨hlabel, hfields⟩ := node_of_treeLines_eq h
    cases e' with
    | function name' ps' body' l' =>
      simp only [fields, List.cons.injEq, Prod.mk.injEq, true_and, and_true, Content.value.injEq,
        Content.node.injEq] at hfields
      obtain ⟨hps, hbody, hname⟩ := hfields
      rw [Expr.unlocated, Expr.unlocated, tuple_injective hps, optionalName_injective hname,
        unlocated_eq_of_treeLines_eq body body' hbody]
    | _ => exact absurd hlabel (by simp [label])
  | .block b xs l, e', h => by
    obtain ⟨hlabel, hfields⟩ := node_of_treeLines_eq h
    cases e' with
    | block b' xs' l' =>
      simp only [fields, List.cons.injEq, Prod.mk.injEq, true_and, and_true,
        Content.nodes.injEq] at hfields
      obtain ⟨hscoped, hxs⟩ := hfields
      have hb : b = b' := by
        have hbraces := truth_injective hscoped
        cases b <;> cases b' <;> first | rfl | cases hbraces
      rw [Expr.unlocated, Expr.unlocated, hb, unlocatedAll_eq_of_allTreeLines_eq xs xs' hxs]
    | _ => exact absurd hlabel (by simp [label])
  | .assignment r name value l, e', h => by
    obtain ⟨hlabel, hfields⟩ := node_of_treeLines_eq h
    cases e' with
    | assignment r' name' value' l' =>
      simp only [fields, List.cons.injEq, Prod.mk.injEq, true_and, and_true, Content.value.injEq,
        Content.node.injEq] at hfields
      obtain ⟨hr, hname, hvalue⟩ := hfields
      rw [Expr.unlocated, Expr.unlocated, truth_injective hr, Text.quote_injective hname,
        unlocated_eq_of_treeLines_eq value value' hvalue]
    | _ => exact absurd hlabel (by simp [label])
  | .call f xs l, e', h => by
    obtain ⟨hlabel, hfields⟩ := node_of_treeLines_eq h
    cases e' with
    | call f' xs' l' =>
      simp only [fields, List.cons.injEq, Prod.mk.injEq, true_and, and_true, Content.node.injEq,
        Content.nodes.injEq] at hfields
      obtain ⟨hf, hxs⟩ := hfields
      rw [Expr.unlocated, Expr.unlocated, unlocated_eq_of_treeLines_eq f f' hf,
        unlocatedAll_eq_of_allTreeLines_eq xs xs' hxs]
    | _ => exact absurd hlabel (by simp [label])
  | .chain seed ss l, e', h => by
    obtain ⟨hlabel, hfields⟩ := node_of_treeLines_eq h
    cases e' with
    | chain seed' ss' l' =>
      simp only [fields, List.cons.injEq, Prod.mk.injEq, true_and, and_true, Content.node.injEq,
        Content.nodes.injEq] at hfields
      obtain ⟨hseed, hss⟩ := hfields
      rw [Expr.unlocated, Expr.unlocated, unlocated_eq_of_treeLines_eq seed seed' hseed,
        unlocatedSteps_eq_of_allStepLines_eq ss ss' hss]
    | _ => exact absurd hlabel (by simp [label])
  | .invocation target l, e', h => by
    obtain ⟨hlabel, hfields⟩ := node_of_treeLines_eq h
    cases e' with
    | invocation target' l' =>
      simp only [fields, List.cons.injEq, Prod.mk.injEq, true_and, and_true, Content.node.injEq]
        at hfields
      rw [Expr.unlocated, Expr.unlocated, unlocated_eq_of_treeLines_eq target target' hfields]
    | _ => exact absurd hlabel (by simp [label])

theorem unlocatedAll_eq_of_allTreeLines_eq : (xs ys : List Expr) →
    allTreeLines xs = allTreeLines ys → Expr.unlocatedAll xs = Expr.unlocatedAll ys
  | [], [], _ => rfl
  | [], _ :: _, h => by cases h
  | _ :: _, [], h => by cases h
  | x :: xs, y :: ys, h => by
    obtain ⟨hx, hxs⟩ := List.cons.inj h
    rw [Expr.unlocatedAll, Expr.unlocatedAll, unlocated_eq_of_treeLines_eq x y hx,
      unlocatedAll_eq_of_allTreeLines_eq xs ys hxs]

theorem unlocatedSteps_eq_of_allStepLines_eq : (ss ts : List Step) →
    allStepLines ss = allStepLines ts → Expr.unlocatedSteps ss = Expr.unlocatedSteps ts
  | [], [], _ => rfl
  | [], .mk _ _ :: _, h => by cases h
  | .mk _ _ :: _, [], h => by cases h
  | .mk p xs :: ss, .mk q ys :: ts, h => by
    obtain ⟨hstep, hss⟩ := List.cons.inj h
    have hfields : stepFields (.mk p xs) = stepFields (.mk q ys) := stepFields_of_nodeLines_eq hstep
    simp only [stepFields, Step.operator, Step.extra, List.cons.injEq, Prod.mk.injEq, true_and,
      and_true, Content.node.injEq, Content.nodes.injEq] at hfields
    obtain ⟨hp, hxs⟩ := hfields
    rw [Expr.unlocatedSteps, Expr.unlocatedSteps, unlocated_eq_of_treeLines_eq p q hp,
      unlocatedAll_eq_of_allTreeLines_eq xs ys hxs, unlocatedSteps_eq_of_allStepLines_eq ss ts hss]

end

mutual

theorem treeLines_unlocated : (e : Expr) → treeLines e.unlocated = treeLines e
  | .literal _ _ | .symbol _ _ => rfl
  | .function _ _ body _ => by simp only [Expr.unlocated, treeLines, treeLines_unlocated body]
  | .block _ xs _ => by simp only [Expr.unlocated, treeLines, allTreeLines_unlocatedAll xs]
  | .assignment _ _ value _ => by simp only [Expr.unlocated, treeLines, treeLines_unlocated value]
  | .call f xs _ => by
    simp only [Expr.unlocated, treeLines, treeLines_unlocated f, allTreeLines_unlocatedAll xs]
  | .chain seed ss _ => by
    simp only [Expr.unlocated, treeLines, treeLines_unlocated seed,
      allStepLines_unlocatedSteps ss]
  | .invocation target _ => by simp only [Expr.unlocated, treeLines, treeLines_unlocated target]

theorem allTreeLines_unlocatedAll : (xs : List Expr) →
    allTreeLines (Expr.unlocatedAll xs) = allTreeLines xs
  | [] => rfl
  | x :: xs => by
    rw [Expr.unlocatedAll, allTreeLines, allTreeLines, treeLines_unlocated x,
      allTreeLines_unlocatedAll xs]

theorem allStepLines_unlocatedSteps : (ss : List Step) →
    allStepLines (Expr.unlocatedSteps ss) = allStepLines ss
  | [] => rfl
  | .mk p xs :: ss => by
    rw [Expr.unlocatedSteps, allStepLines, allStepLines, treeLines_unlocated p,
      allTreeLines_unlocatedAll xs, allStepLines_unlocatedSteps ss]

end

/-! ### Texts -/

/-- Lines without line feeds are found again in their text. -/
theorem splitNewlines_unlines {lines : List String} (h : ∀ line ∈ lines, IsOneLine line) :
    Text.splitNewlines (Text.unlines lines).toList = lines.map String.toList ++ [[]] := by
  induction lines with
  | nil => rfl
  | cons line lines ih =>
    obtain ⟨hline, hlines⟩ := List.forall_mem_cons.mp h
    have htext : (Text.unlines (line :: lines)).toList =
        line.toList ++ '\n' :: (Text.unlines lines).toList := by
      simp [Text.unlines, String.toList_join]
    rw [htext, Text.splitNewlines_append hline, ih hlines, List.map_cons, List.cons_append]

/-- **The listing of a tree shows all of it but the locations.** -/
theorem ofTree_eq_iff {e e' : Expr} : ofTree e = ofTree e' ↔ e.unlocated = e'.unlocated := by
  constructor
  · intro h
    have hlines := congrArg (fun text => Text.splitNewlines text.toList) h
    simp only [ofTree, splitNewlines_unlines (isEntry_treeLines _).isOneLine,
      List.append_cancel_right_eq] at hlines
    exact unlocated_eq_of_treeLines_eq e e'
      (List.map_injective_iff.mpr (fun _ _ => String.toList_injective) hlines)
  · intro h
    rw [ofTree, ofTree, ← treeLines_unlocated e, h, treeLines_unlocated e']

end Listing

/-- **Two programs have one listing iff their trees are equal.** -/
theorem Program.listing_eq_iff_same {depth depth' : Nat} {text text' : String}
    {filename filename' : Option String} {e e' : Expr} (h : parseTo depth text filename = .ok e)
    (h' : parseTo depth' text' filename' = .ok e') :
    Listing.ofTree e = Listing.ofTree e' ↔ e.same e' = true := by
  rw [Listing.ofTree_eq_iff,
    Expr.same_iff e e' (hasPlainLiteral_of_parseTo h) (hasPlainLiteral_of_parseTo h')]

/-- Grouping leaves no trace in a listing, brackets of a block do. -/
theorem Program.listing_eq_iff_same_brackets :
    (∃ e e', parseTo 9 "f (x)" = .ok e ∧ parseTo 5 "f x" = .ok e' ∧
      Listing.ofTree e = Listing.ofTree e') ∧
    ∃ e e', parseTo 9 "f (x;)" = .ok e ∧ parseTo 9 "f \x7bx\x7d" (some "p") = .ok e' ∧
      Listing.ofTree e ≠ Listing.ofTree e' := by
  have hgrouping : ((parseTo 9 "f (x)").toOption.bind fun e =>
      (parseTo 5 "f x").toOption.map e.same) = some true := by decide +kernel
  have hblocks : ((parseTo 9 "f (x;)").toOption.bind fun e =>
      (parseTo 9 "f \x7bx\x7d" (some "p")).toOption.map e.same) = some false := by decide +kernel
  constructor
  · cases h : parseTo 9 "f (x)" with
    | error err => rw [h] at hgrouping; cases hgrouping
    | ok e =>
      cases h' : parseTo 5 "f x" with
      | error err => rw [h, h'] at hgrouping; cases hgrouping
      | ok e' =>
        rw [h, h'] at hgrouping
        exact ⟨e, e', rfl, rfl, (listing_eq_iff_same h h').mpr (Option.some.inj hgrouping)⟩
  · cases h : parseTo 9 "f (x;)" with
    | error err => rw [h] at hblocks; cases hblocks
    | ok e =>
      cases h' : parseTo 9 "f \x7bx\x7d" (some "p") with
      | error err => rw [h, h'] at hblocks; cases hblocks
      | ok e' =>
        rw [h, h'] at hblocks
        have hsame : e.same e' = false := Option.some.inj hblocks
        refine ⟨e, e', rfl, rfl, fun hlisting => ?_⟩
        exact Bool.false_ne_true (hsame.symm.trans ((listing_eq_iff_same h h').mp hlisting))

end Juxta
