/-
  Juxta/Proofs/Layout/Flat.lean
  =============================
  **Blocks that could be on one line** — the flat text of a tree has every block in it on one line
  (`Layout.flatText`).  The layout settles inner blocks first, each with the indentation that it has
  if all blocks around it are broken, so that a block whose flat text fits may still be broken.

    * `Layout.text_eq_flatText`: a text without line feeds is the flat text;
    * `Layout.lineFeed_not_mem_text_iff`: a text has no line feed if no string has one and the flat
      text of every block in it fits where this block stands;
    * `Layout.Stands.length_flatText_le`: a block adds three characters at least to the flat texts
      of the blocks in it;
    * `Layout.onOneLine_of_render`: what this means for the blocks of a program.  Up to a step of
      indentation of three blanks, a block that fits is on one line with all blocks inside it.
-/
import Juxta.Proofs.Layout.Lines
import Juxta.Proofs.Layout.Returns

namespace Juxta

namespace Layout

/-! ### Flat texts -/

mutual

/-- The text of a tree with every block on one line. -/
def flatText : Expr → List Char
  | .literal v _ => literalText v
  | .symbol name _ => name.toList
  | .function name parameters body _ =>
    functionText name parameters (bodyText body (flatText body))
  | .block b xs _ =>
    if xs.isEmpty then [b.opener.char, b.closer.char]
    else flatBlock b (keepsSeparator b xs) (flatTexts xs)
  | .assignment recursive name value _ =>
    [' '].intercalate [(bindingKeyword recursive).lexeme.toList, name.toList, flatText value]
  | .call f xs _ => [' '].intercalate (operandText f (flatText f) :: flatArgumentTexts xs)
  | .chain seed steps _ =>
    [' '].intercalate (operandText seed (flatText seed) :: flatStepTexts steps)
  | .invocation target _ => operandText target (flatText target) ++ ['!']

/-- The flat texts of statements. -/
def flatTexts : List Expr → List (List Char)
  | [] => []
  | x :: xs => flatText x :: flatTexts xs

/-- The flat texts of the arguments of a call. -/
def flatArgumentTexts : List Expr → List (List Char)
  | [] => []
  | x :: xs =>
    (if xs.isEmpty then lastArgumentText x (flatText x) else operandText x (flatText x))
      :: flatArgumentTexts xs

/-- The flat texts of operands. -/
def flatOperandTexts : List Expr → List (List Char)
  | [] => []
  | x :: xs => operandText x (flatText x) :: flatOperandTexts xs

/-- The flat texts of the parts of steps. -/
def flatStepTexts : List Step → List (List Char)
  | [] => []
  | .mk p xs :: ss =>
    ('\x60' :: operandText p (flatText p)) :: (flatOperandTexts xs ++ flatStepTexts ss)

end

theorem flatTexts_eq_map (xs : List Expr) : flatTexts xs = xs.map flatText := by
  induction xs with
  | nil => rfl
  | cons x xs ih => rw [flatTexts, ih, List.map_cons]

theorem flatOperandTexts_eq_map (xs : List Expr) :
    flatOperandTexts xs = xs.map fun x => operandText x (flatText x) := by
  induction xs with
  | nil => rfl
  | cons x xs ih => rw [flatOperandTexts, ih, List.map_cons]

section Agreement

variable {c : Layout} {d : Nat}

theorem argumentTexts_eq_flat {xs : List Expr} (h : ∀ x ∈ xs, c.text d x = flatText x) :
    c.argumentTexts d xs = flatArgumentTexts xs := by
  induction xs with
  | nil => rfl
  | cons x xs ih =>
    obtain ⟨hx, hxs⟩ := List.forall_mem_cons.mp h
    rw [argumentTexts, flatArgumentTexts, hx, ih hxs]

theorem operandTexts_eq_flat {xs : List Expr} (h : ∀ x ∈ xs, c.text d x = flatText x) :
    c.operandTexts d xs = flatOperandTexts xs := by
  rw [operandTexts_eq_map, flatOperandTexts_eq_map]
  exact List.map_congr_left fun x hx => by rw [h x hx]

theorem stepTexts_eq_flat {ss : List Step}
    (h : ∀ s ∈ ss, c.text d s.operator = flatText s.operator ∧
      ∀ x ∈ s.extra, c.text d x = flatText x) : c.stepTexts d ss = flatStepTexts ss := by
  induction ss with
  | nil => rfl
  | cons s ss ih =>
    obtain ⟨p, xs⟩ := s
    obtain ⟨⟨hp, hxs⟩, hss⟩ := List.forall_mem_cons.mp h
    have hoperator : c.text d p = flatText p := hp
    have hextra : c.operandTexts d xs = flatOperandTexts xs := operandTexts_eq_flat hxs
    rw [stepTexts, flatStepTexts, hoperator, hextra, ih hss]

theorem oneLine_eq_flatText {b : Bracket} {xs : List Expr} (l : Option Location)
    (h : ∀ x ∈ xs, c.text (d + 1) x = flatText x) :
    c.oneLine d b xs = flatText (.block b xs l) := by
  rw [oneLine, flatText, texts_eq_map, flatTexts_eq_map, List.map_congr_left h]

/-- The text of a node whose parts have their flat texts is flat, if it is on one line. -/
theorem text_eq_flatText_of_children {e : Expr}
    (h : ∀ x ∈ e.children, c.text (below d e) x = flatText x)
    (hblock : ∀ b xs l, e = .block b xs l → c.text d e = c.oneLine d b xs) :
    c.text d e = flatText e := by
  cases e with
  | literal v l => rw [text, flatText]
  | symbol name l => rw [text, flatText]
  | function name ps body l =>
    have hbody : c.text d body = flatText body := h body (List.mem_singleton_self body)
    rw [text, flatText, hbody]
  | block b xs l => exact (hblock b xs l rfl).trans (oneLine_eq_flatText l h)
  | assignment r name value l =>
    have hvalue : c.text d value = flatText value := h value (List.mem_singleton_self value)
    rw [text, flatText, hvalue]
  | call f xs l =>
    obtain ⟨hf, hxs⟩ := List.forall_mem_cons.mp h
    have hcallee : c.text d f = flatText f := hf
    have harguments : c.argumentTexts d xs = flatArgumentTexts xs := argumentTexts_eq_flat hxs
    rw [text, flatText, hcallee, harguments]
  | chain seed ss l =>
    obtain ⟨hfirst, hsteps⟩ := (Expr.forall_mem_operands_chain (l := l)).mp h
    have hseed : c.text d seed = flatText seed := hfirst
    have hss : c.stepTexts d ss = flatStepTexts ss := stepTexts_eq_flat hsteps
    rw [text, flatText, hseed, hss]
  | invocation target l =>
    have htarget : c.text d target = flatText target := h target (List.mem_singleton_self target)
    rw [text, flatText, htarget]

theorem lineFeed_not_mem_child {e x : Expr} (h : '\n' ∉ c.text d e) (hx : x ∈ e.children) :
    '\n' ∉ c.text (below d e) x := by
  rw [← trees_pieces (c := c) (d := d), mem_trees_iff] at hx
  obtain ⟨before, after, hpieces⟩ := hx
  rw [text_eq_joined, hpieces, joined_append, joined_cons, text_tree] at h
  intro hmem
  exact h (by simp [hmem])

/-- **A text without line feeds is the flat text.** -/
theorem text_eq_flatText {e : Expr} (h : '\n' ∉ c.text d e) : c.text d e = flatText e := by
  induction e using Expr.induction generalizing d with
  | h e ih =>
    refine text_eq_flatText_of_children (fun x hx => ih x hx (lineFeed_not_mem_child h hx)) ?_
    rintro b xs l rfl
    rcases text_block_eq_or c d b xs l with ⟨-, htext⟩ | ⟨-, hbroken⟩
    · exact htext
    · exact absurd hbroken.lineFeed_mem h

end Agreement

/-! ### Line feeds in flat texts -/

theorem not_mem_intercalate {a : Char} {separator : List Char} {texts : List (List Char)}
    (hseparator : a ∉ separator) (h : ∀ t ∈ texts, a ∉ t) : a ∉ separator.intercalate texts := by
  cases texts with
  | nil => nofun
  | cons t ts =>
    obtain ⟨ht, hts⟩ := List.forall_mem_cons.mp h
    rw [intercalate_cons]
    simp only [List.mem_append, List.mem_flatMap, not_or, not_exists, not_and]
    exact ⟨ht, fun t' ht' => ⟨hseparator, hts t' ht'⟩⟩

theorem lineFeed_not_mem_operandText (e : Expr) {text : List Char} (h : '\n' ∉ text) :
    '\n' ∉ operandText e text := by
  unfold operandText
  split
  · exact h
  · simp [parenthesized, h]

theorem lineFeed_not_mem_lastArgumentText (e : Expr) {text : List Char} (h : '\n' ∉ text) :
    '\n' ∉ lastArgumentText e text := by
  cases e with
  | chain => exact h
  | _ => exact lineFeed_not_mem_operandText _ h

theorem lineFeed_not_mem_flatArgumentTexts {xs : List Expr} (h : ∀ x ∈ xs, '\n' ∉ flatText x) :
    ∀ t ∈ flatArgumentTexts xs, '\n' ∉ t := by
  induction xs with
  | nil => nofun
  | cons x xs ih =>
    obtain ⟨hx, hxs⟩ := List.forall_mem_cons.mp h
    refine List.forall_mem_cons.mpr ⟨?_, ih hxs⟩
    split
    · exact lineFeed_not_mem_lastArgumentText x hx
    · exact lineFeed_not_mem_operandText x hx

theorem lineFeed_not_mem_flatStepTexts {ss : List Step}
    (h : ∀ s ∈ ss, '\n' ∉ flatText s.operator ∧ ∀ x ∈ s.extra, '\n' ∉ flatText x) :
    ∀ t ∈ flatStepTexts ss, '\n' ∉ t := by
  have hoperands (xs : List Expr) (hxs : ∀ x ∈ xs, '\n' ∉ flatText x) :
      ∀ t ∈ flatOperandTexts xs, '\n' ∉ t := by
    rw [flatOperandTexts_eq_map]
    exact List.forall_mem_map.mpr fun x hx => lineFeed_not_mem_operandText x (hxs x hx)
  induction ss with
  | nil => nofun
  | cons s ss ih =>
    obtain ⟨p, xs⟩ := s
    obtain ⟨⟨hp, hxs⟩, hss⟩ := List.forall_mem_cons.mp h
    refine List.forall_mem_cons.mpr ⟨?_, List.forall_mem_append.mpr ⟨hoperands xs hxs, ih hss⟩⟩
    have hoperator : '\n' ∉ operandText p (flatText p) := lineFeed_not_mem_operandText p hp
    simpa using hoperator

/-- A flat text has no line feed but those of names and literals. -/
theorem lineFeed_not_mem_flatText {e : Expr} (h : e.Everywhere (Expr.Supplies ('\n' ∉ ·))) :
    '\n' ∉ flatText e := by
  induction e using Expr.induction with
  | h e ih =>
    obtain ⟨hself, hbelow⟩ := Expr.everywhere_iff.mp h
    have hchildren : ∀ x ∈ e.children, '\n' ∉ flatText x := fun x hx => ih x hx (hbelow x hx)
    cases e with
    | literal v l => exact hself.literal v rfl
    | symbol name l => exact hself.names name (by simp [Expr.names])
    | function name ps body l =>
      have hbody : '\n' ∉ bodyText body (flatText body) := by
        have hflat := hchildren body (List.mem_singleton_self body)
        unfold bodyText
        split
        · simp [parenthesized, hflat]
        · exact hflat
      have hnames := hself.names
      simp only [Expr.names, List.forall_mem_append] at hnames
      have hps : '\n' ∉ [',', ' '].intercalate (ps.map String.toList) :=
        not_mem_intercalate (by decide) (List.forall_mem_map.mpr hnames.2)
      refine not_mem_intercalate (by decide) (List.forall_mem_cons.mpr ⟨by decide, ?_⟩)
      rw [List.forall_mem_append, List.forall_mem_map]
      refine ⟨hnames.1, List.forall_mem_cons.mpr ⟨?_, List.forall_mem_singleton.mpr hbody⟩⟩
      simpa [parenthesized] using hps
    | block b xs l =>
      unfold flatText
      split
      · cases b <;> decide
      · rw [flatTexts_eq_map]
        exact lineFeed_not_mem_flatBlock (List.forall_mem_map.mpr hchildren) _
    | assignment r name value l =>
      have hname := hself.names name (by simp [Expr.names])
      have hvalue := hchildren value (List.mem_singleton_self value)
      refine not_mem_intercalate (by decide) (List.forall_mem_cons.mpr ⟨?_, ?_⟩)
      · cases r <;> decide
      · exact List.forall_mem_cons.mpr ⟨hname, List.forall_mem_singleton.mpr hvalue⟩
    | call f xs l =>
      obtain ⟨hf, hxs⟩ := List.forall_mem_cons.mp hchildren
      exact not_mem_intercalate (by decide) (List.forall_mem_cons.mpr
        ⟨lineFeed_not_mem_operandText f hf, lineFeed_not_mem_flatArgumentTexts hxs⟩)
    | chain seed ss l =>
      obtain ⟨hseed, hss⟩ := (Expr.forall_mem_operands_chain (l := l)).mp hchildren
      exact not_mem_intercalate (by decide) (List.forall_mem_cons.mpr
        ⟨lineFeed_not_mem_operandText seed hseed, lineFeed_not_mem_flatStepTexts hss⟩)
    | invocation target l =>
      have htarget := hchildren target (List.mem_singleton_self target)
      have hoperand := lineFeed_not_mem_operandText target htarget
      simpa [flatText] using hoperand

/-! ### Blocks that fit -/

/-- Whether the flat text of a tree is not too long inside `k` blocks. -/
def FitsFlat (c : Layout) (k : Nat) (e : Expr) : Prop :=
  (((c.margin k).length + (flatText e).length : Nat) : Int) ≤ c.maxLineLength

section Fitting

variable {c : Layout} {d : Nat}

theorem lineFeed_not_mem_of_stands {e x : Expr} {path : List Expr} {before after : List Char}
    (h : Stands c d e path before x after) (hflat : '\n' ∉ c.text d e) :
    '\n' ∉ c.text (d + blocks path) x := by
  rw [h.text_eq] at hflat
  intro hmem
  exact hflat (by simp [hmem])

theorem fitsFlat_of_lineFeed_not_mem {b : Bracket} {xs : List Expr} {l : Option Location}
    (hne : xs ≠ []) (h : '\n' ∉ c.text d (.block b xs l)) : c.FitsFlat d (.block b xs l) := by
  have hflat : c.text d (.block b xs l) = flatText (.block b xs l) := text_eq_flatText h
  rcases text_block_eq_or c d b xs l with ⟨hstays, htext⟩ | ⟨-, hbroken⟩
  · rcases hstays with rfl | ⟨-, hfits⟩
    · exact absurd rfl hne
    · rwa [← htext, hflat] at hfits
  · exact absurd hbroken.lineFeed_mem h

/-- **When a text is on one line.**  No name and no literal of it has a line feed, and the flat text
    of every block fits where this block stands. -/
theorem lineFeed_not_mem_text_iff {e : Expr}
    (hnames : ∀ n ∈ e.nodes, ∀ name ∈ n.names, '\n' ∉ name.toList) :
    '\n' ∉ c.text d e ↔ (∀ n ∈ e.nodes, ∀ v ∈ n.literal?, '\n' ∉ literalText v) ∧
      ∀ path before b xs l after, Stands c d e path before (.block b xs l) after → xs ≠ [] →
        c.FitsFlat (d + blocks path) (.block b xs l) := by
  constructor
  · refine fun h => ⟨fun n hn v hv => ?_, fun path before b xs l after hstands hne => ?_⟩
    · obtain ⟨path, before, after, hstands⟩ := exists_stands c d hn
      have hflat := lineFeed_not_mem_of_stands hstands h
      cases n with
      | literal w l =>
        cases hv
        simpa only [text] using hflat
      | _ => cases hv
    · exact fitsFlat_of_lineFeed_not_mem hne (lineFeed_not_mem_of_stands hstands h)
  · rintro ⟨hliterals, hfits⟩
    have hsupplies : e.Everywhere (Expr.Supplies ('\n' ∉ ·)) := fun n hn =>
      ⟨hnames n hn, hliterals n hn⟩
    clear hnames hliterals
    induction e using Expr.induction generalizing d with
    | h e ih =>
      have hchildren : ∀ x ∈ e.children, '\n' ∉ c.text (below d e) x := by
        refine fun x hx => ih x hx ?_ ((Expr.everywhere_iff.mp hsupplies).2 x hx)
        intro path before b xs l after hstands hne
        rw [← trees_pieces (c := c) (d := d), mem_trees_iff] at hx
        obtain ⟨ps, qs, hpieces⟩ := hx
        rw [below_add]
        exact hfits _ _ b xs l _ (.inside hpieces hstands) hne
      have hflat : ∀ x ∈ e.children, c.text (below d e) x = flatText x := fun x hx =>
        text_eq_flatText (hchildren x hx)
      by_cases hblock : ∃ b xs l, e = .block b xs l
      · obtain ⟨b, xs, l, rfl⟩ := hblock
        refine (lineFeed_not_mem_text_block_iff l).mpr ?_
        by_cases hempty : xs = []
        · exact .inl hempty
        · have hself : c.FitsFlat d (.block b xs l) := hfits [] [] b xs l [] .self hempty
          have honeLine : c.oneLine d b xs = flatText (.block b xs l) :=
            oneLine_eq_flatText l hflat
          rw [FitsFlat, ← honeLine] at hself
          exact .inr ⟨hchildren, hself⟩
      · have htext : c.text d e = flatText e :=
          text_eq_flatText_of_children hflat fun b xs l he => absurd ⟨b, xs, l, he⟩ hblock
        rw [htext]
        exact lineFeed_not_mem_flatText hsupplies

end Fitting

/-! ### What a node adds to the flat texts below it -/

theorem length_add_le_intercalate (separator : List Char) {text : List Char}
    {texts : List (List Char)} (h : text ∈ texts) :
    text.length + separator.length * (texts.length - 1) ≤
      (separator.intercalate texts).length := by
  have hrest (ts : List (List Char)) :
      separator.length * ts.length ≤ (ts.flatMap (separator ++ ·)).length ∧ ∀ t ∈ ts,
        t.length + separator.length * ts.length ≤ (ts.flatMap (separator ++ ·)).length := by
    induction ts with
    | nil => simp
    | cons t ts ih =>
      obtain ⟨hall, hmem⟩ := ih
      rw [List.flatMap_cons, List.length_append, List.length_append, List.length_cons,
        Nat.mul_succ]
      refine ⟨by omega, List.forall_mem_cons.mpr ⟨by omega, fun t' ht' => ?_⟩⟩
      have := hmem t' ht'
      omega
  cases texts with
  | nil => cases h
  | cons t ts =>
    rw [intercalate_cons, List.length_append, List.length_cons, Nat.add_sub_cancel]
    rcases List.mem_cons.mp h with rfl | hts
    · exact Nat.add_le_add_left (hrest ts).1 _
    · exact Nat.le_add_left_of_le ((hrest ts).2 text hts)

theorem length_le_intercalate {separator text : List Char} {texts : List (List Char)}
    (h : text ∈ texts) : text.length ≤ (separator.intercalate texts).length :=
  Nat.le_trans (Nat.le_add_right ..) (length_add_le_intercalate separator h)

theorem length_le_operandText (e : Expr) (text : List Char) :
    text.length ≤ (operandText e text).length := by
  unfold operandText
  split
  · exact Nat.le_refl _
  · simp [parenthesized, Nat.add_assoc]

theorem length_le_lastArgumentText (e : Expr) (text : List Char) :
    text.length ≤ (lastArgumentText e text).length := by
  cases e with
  | chain => exact Nat.le_refl _
  | _ => exact length_le_operandText _ text

theorem exists_mem_flatArgumentTexts {x : Expr} {xs : List Expr} (h : x ∈ xs) :
    ∃ t ∈ flatArgumentTexts xs, (flatText x).length ≤ t.length := by
  induction xs with
  | nil => cases h
  | cons y xs ih =>
    rcases List.mem_cons.mp h with rfl | hxs
    · refine ⟨_, List.mem_cons_self, ?_⟩
      split
      · exact length_le_lastArgumentText x _
      · exact length_le_operandText x _
    · obtain ⟨t, ht, hlength⟩ := ih hxs
      exact ⟨t, List.mem_cons_of_mem _ ht, hlength⟩

theorem exists_mem_flatStepTexts {x : Expr} {ss : List Step}
    (h : x ∈ ss.flatMap fun s => s.operator :: s.extra) :
    ∃ t ∈ flatStepTexts ss, (flatText x).length ≤ t.length := by
  induction ss with
  | nil => cases h
  | cons s ss ih =>
    obtain ⟨p, xs⟩ := s
    rcases List.mem_append.mp (List.flatMap_cons ▸ h) with hstep | hss
    · rcases List.mem_cons.mp hstep with rfl | hxs
      · have hoperator := length_le_operandText x (flatText x)
        exact ⟨_, List.mem_cons_self, Nat.le_succ_of_le hoperator⟩
      · have ht : operandText x (flatText x) ∈ flatOperandTexts xs :=
          flatOperandTexts_eq_map xs ▸ List.mem_map_of_mem hxs
        exact ⟨_, List.mem_cons_of_mem _ (List.mem_append_left _ ht), length_le_operandText x _⟩
    · obtain ⟨t, ht, hlength⟩ := ih hss
      exact ⟨t, List.mem_cons_of_mem _ (List.mem_append_right _ ht), hlength⟩

/-- What a binding lacks in parentheses. -/
def slack (e : Expr) : Nat := if e.isAssignment then 1 else 0

theorem length_le_flatBlock {b : Bracket} {x : Expr} {xs : List Expr} (h : x ∈ xs) :
    (flatText x).length + 3 ≤
      (flatBlock b (keepsSeparator b xs) (flatTexts xs)).length + slack x := by
  have hmem : flatText x ∈ flatTexts xs := flatTexts_eq_map xs ▸ List.mem_map_of_mem h
  have hlength : (flatTexts xs).length = xs.length := by rw [flatTexts_eq_map, List.length_map]
  have hinner := length_add_le_intercalate [';', ' '] hmem
  rw [hlength] at hinner
  simp only [List.length_cons, List.length_nil] at hinner
  cases b with
  | brace =>
    simp only [flatBlock, List.length_cons, List.length_append, List.length_nil]
    omega
  | paren =>
    simp only [flatBlock, parenthesized, List.length_cons, List.length_append, List.length_nil]
    -- Between parentheses there are a `;` or several statements, or the only one is a binding.
    cases xs with
    | nil => cases h
    | cons y ys =>
      cases ys with
      | nil =>
        obtain rfl := List.mem_singleton.mp h
        cases hbinding : x.isAssignment <;> simp [keepsSeparator, slack, hbinding] <;> omega
      | cons z zs =>
        simp only [List.length_cons] at hinner
        omega

/-- **What a node adds to the flat texts below it**: a block adds three characters at least, but two
    to a binding. -/
theorem length_flatText_child_le {e x : Expr} (h : x ∈ e.children) :
    (flatText x).length + (if e.isBlock then 3 else 0) + slack e ≤
      (flatText e).length + slack x := by
  cases e with
  | literal v l => cases h
  | symbol name l => cases h
  | function name ps body l =>
    obtain rfl := List.mem_singleton.mp h
    have hbody : (flatText x).length ≤ (bodyText x (flatText x)).length := by
      unfold bodyText
      split
      · simp [parenthesized, Nat.add_assoc]
      · exact Nat.le_refl _
    have hall : (flatText (.function name ps x l)).length =
        (functionText name ps []).length + (bodyText x (flatText x)).length := by
      rw [flatText, functionText_eq, List.length_append]
    have hslack : slack (.function name ps x l) = 0 := rfl
    simp only [Expr.isBlock, Bool.false_eq_true, if_false]
    omega
  | block b xs l =>
    have hne : xs.isEmpty = false := by
      cases xs with
      | nil => cases h
      | cons => rfl
    have hall : flatText (.block b xs l) = flatBlock b (keepsSeparator b xs) (flatTexts xs) := by
      rw [flatText, hne, if_neg Bool.false_ne_true]
    rw [hall]
    exact length_le_flatBlock h
  | assignment r name value l =>
    obtain rfl := List.mem_singleton.mp h
    have hmem : flatText x ∈ [(bindingKeyword r).lexeme.toList, name.toList, flatText x] := by simp
    have hvalue := length_add_le_intercalate [' '] hmem
    simp only [List.length_cons, List.length_nil] at hvalue
    change (flatText x).length + 0 + 1 ≤ _
    rw [flatText]
    omega
  | call f xs l =>
    change (flatText x).length ≤ _
    have ht : ∃ t ∈ operandText f (flatText f) :: flatArgumentTexts xs,
        (flatText x).length ≤ t.length := by
      rcases List.mem_cons.mp h with rfl | hxs
      · exact ⟨_, List.mem_cons_self, length_le_operandText x _⟩
      · obtain ⟨t, ht, hlength⟩ := exists_mem_flatArgumentTexts hxs
        exact ⟨t, List.mem_cons_of_mem _ ht, hlength⟩
    obtain ⟨t, hmem, hlength⟩ := ht
    exact Nat.le_add_right_of_le (Nat.le_trans hlength (length_le_intercalate hmem))
  | chain seed ss l =>
    change (flatText x).length ≤ _
    have ht : ∃ t ∈ operandText seed (flatText seed) :: flatStepTexts ss,
        (flatText x).length ≤ t.length := by
      rcases List.mem_cons.mp h with rfl | hss
      · exact ⟨_, List.mem_cons_self, length_le_operandText x _⟩
      · obtain ⟨t, ht, hlength⟩ := exists_mem_flatStepTexts hss
        exact ⟨t, List.mem_cons_of_mem _ ht, hlength⟩
    obtain ⟨t, hmem, hlength⟩ := ht
    exact Nat.le_add_right_of_le (Nat.le_trans hlength (length_le_intercalate hmem))
  | invocation target l =>
    obtain rfl := List.mem_singleton.mp h
    change (flatText x).length ≤ _
    have hoperand := length_le_operandText x (flatText x)
    rw [flatText, List.length_append]
    omega

section Places

variable {c : Layout} {d : Nat} {e : Expr} {path : List Expr} {before after : List Char}

theorem Stands.length_flatText_add_le {x : Expr} (h : Stands c d e path before x after) :
    (flatText x).length + 3 * blocks path + slack e ≤ (flatText e).length + slack x := by
  induction h with
  | self => exact Nat.le_refl _
  | @inside d e y x ps qs path before after hpieces _ ih =>
    have hy : y ∈ e.children := by
      rw [← trees_pieces (c := c) (d := d), hpieces]
      simp
    have hnode := length_flatText_child_le hy
    have hblocks : 3 * blocks (e :: path) = 3 * blocks path + if e.isBlock then 3 else 0 := by
      rw [blocks, blocks, List.countP_cons]
      split <;> omega
    omega

/-- **Every block adds three characters at least to the flat text of a block in it.** -/
theorem Stands.length_flatText_le {b b' : Bracket} {xs xs' : List Expr} {l l' : Option Location}
    (h : Stands c d (.block b' xs' l') path before (.block b xs l) after) :
    (flatText (.block b xs l)).length + 3 * blocks path ≤ (flatText (.block b' xs' l')).length :=
  h.length_flatText_add_le

/-- The blocks in a block that fits do so too, where a step of indentation is not wider than what a
    block adds. -/
theorem FitsFlat.of_stands {b b' : Bracket} {xs xs' : List Expr} {l l' : Option Location}
    (hsize : c.indentSize ≤ 3) (hfits : c.FitsFlat d (.block b' xs' l'))
    (h : Stands c d (.block b' xs' l') path before (.block b xs l) after) :
    c.FitsFlat (d + blocks path) (.block b xs l) := by
  have hlength := h.length_flatText_le
  have hmargin : c.indentSize.toNat * blocks path ≤ 3 * blocks path :=
    Nat.mul_le_mul_right _ (Int.toNat_le.mpr hsize)
  unfold FitsFlat at hfits ⊢
  rw [margin, List.length_replicate] at hfits ⊢
  rw [Nat.mul_add]
  omega

end Places

/-! ### Blocks of a program -/

/-- Inside `d` blocks, the text of a tree is flat, and every block in it is on one line. -/
structure OnOneLine (c : Layout) (d : Nat) (e : Expr) : Prop where
  text : c.text d e = flatText e
  block : ∀ path before b xs l after, Stands c d e path before (.block b xs l) after →
    '\n' ∉ c.text (d + blocks path) (.block b xs l)

/-- No string in the tree has a line feed. -/
def HasFlatStrings (e : Expr) : Prop :=
  ∀ n ∈ e.nodes, ∀ s, n.literal? = some (.text s) → '\n' ∉ s.toList

section Programs

variable {c : Layout} {d : Nat} {e : Expr}

theorem onOneLine_block_iff {b : Bracket} {xs : List Expr} {l : Option Location} :
    OnOneLine c d (.block b xs l) ↔ '\n' ∉ c.text d (.block b xs l) := by
  refine ⟨fun h => h.block [] [] b xs l [] .self, fun h => ⟨text_eq_flatText h, ?_⟩⟩
  intro path before b' xs' l' after hstands
  exact lineFeed_not_mem_of_stands hstands h

theorem hasFlatStrings_iff (hwritable : ∀ n ∈ e.nodes, ∀ v ∈ n.literal?, v.Writable) :
    HasFlatStrings e ↔ ∀ n ∈ e.nodes, ∀ v ∈ n.literal?, '\n' ∉ literalText v := by
  have hforeign : IsForeign '\n' := by decide
  constructor
  · refine fun h n hn v hv => hforeign.not_mem_literalText (hwritable n hn v hv) ?_
    rintro s rfl
    exact h n hn s hv
  · intro h n hn s hs hmem
    refine h n hn (.text s) hs ?_
    change '\n' ∈ quoted s.toList
    simp [quoted, hmem]

theorem Stands.nodes_subset {x : Expr} {path : List Expr} {before after : List Char}
    (h : Stands c d e path before x after) : x.nodes ⊆ e.nodes := by
  induction h with
  | self => exact List.Subset.refl _
  | @inside d e y x ps qs path before after hpieces _ ih =>
    have hy : y ∈ e.children := by
      rw [← trees_pieces (c := c) (d := d), hpieces]
      simp
    exact fun n hn => Expr.mem_nodes_iff.mpr (.inr ⟨y, hy, ih hn⟩)

/-- **When a block is on one line with all blocks in it.**  The string literals have no line feed
    and each of these blocks fits where it stands; up to a step of three blanks it is enough that
    the outermost one fits. -/
theorem onOneLine_of_render {limit : Nat} {text : String}
    (hnames : ∀ n ∈ e.nodes, ∀ name ∈ n.names, Scan.ofText name.toList = .token (.symbol name))
    (h : c.render e limit = .ok text) :
    (∀ n ∈ e.nodes, ∃ path before after, Stands c 0 e path before n after) ∧
    ∀ path before b xs l after, Stands c 0 e path before (.block b xs l) after →
      (∃ ending, (ending = [] ∨ ending = ['\n']) ∧
        text.toList = before ++ c.text (blocks path) (.block b xs l) ++ after ++ ending) ∧
      (OnOneLine c (blocks path) (.block b xs l) ↔ HasFlatStrings (.block b xs l) ∧
        ∀ path' before' b' xs' l' after',
          Stands c (blocks path) (.block b xs l) path' before' (.block b' xs' l') after' →
          xs' ≠ [] → c.FitsFlat (blocks path + blocks path') (.block b' xs' l')) ∧
      (c.indentSize ≤ 3 → HasFlatStrings (.block b xs l) →
        c.FitsFlat (blocks path) (.block b xs l) → OnOneLine c (blocks path) (.block b xs l)) := by
  obtain ⟨-, hblemish, rfl⟩ := render_eq_ok_iff.mp h
  refine ⟨fun n hn => exists_stands c 0 hn, fun path before b xs l after hstands => ?_⟩
  have hsubset := hstands.nodes_subset
  have hwritable : ∀ n ∈ (Expr.block b xs l).nodes, ∀ v ∈ n.literal?, v.Writable := fun n hn =>
    (e.blemish?_eq_none_iff.mp hblemish n (hsubset hn)).literal
  have hfeeds : ∀ n ∈ (Expr.block b xs l).nodes, ∀ name ∈ n.names, '\n' ∉ name.toList := by
    have hforeign : IsForeign '\n' := by decide
    intro n hn name hname
    exact hforeign.not_mem_name
      ((Scan.ofText_eq_symbol_iff name).mp (hnames n (hsubset hn) name hname))
  have hiff := lineFeed_not_mem_text_iff (c := c) (d := blocks path) hfeeds
  rw [← onOneLine_block_iff, ← hasFlatStrings_iff hwritable] at hiff
  refine ⟨?_, hiff, fun hsize hflat hfits => hiff.mpr ⟨hflat, ?_⟩⟩
  · obtain ⟨ending, hending, htext⟩ := exists_programText_eq c e
    exact ⟨ending, hending, by rw [String.toList_ofList, htext, hstands.text_eq, Nat.zero_add]⟩
  · intro path' before' b' xs' l' after' hinner _
    exact hfits.of_stands hsize hinner

end Programs

/-- A name in braces, in parentheses. -/
def bracedName : Expr := .block .paren [.block .brace [.symbol "a" none] none] none

theorem hasFlatStrings_bracedName : HasFlatStrings bracedName := by
  intro n hn s hs
  simp only [bracedName, Expr.nodes, Expr.nodesAll, List.append_nil, List.mem_cons,
    List.not_mem_nil, or_false] at hn
  rcases hn with rfl | rfl | rfl <;> cases hs

/-- Eight characters fit into a line of eight, and with three blanks a step so does the block inside
    on a line of its own. -/
theorem onOneLine_bracedName :
    let c : Layout := { indentSize := 3, maxLineLength := 8 }
    c.render bracedName = .ok "(\x7b a \x7d;)\n" ∧ OnOneLine c 0 bracedName := by
  intro c
  have hnames : ∀ n ∈ bracedName.nodes, ∀ name ∈ n.names,
      Scan.ofText name.toList = .token (.symbol name) := by decide +kernel
  have hrender : c.render bracedName = .ok "(\x7b a \x7d;)\n" := by decide +kernel
  obtain ⟨-, hblocks⟩ := onOneLine_of_render hnames hrender
  obtain ⟨-, -, hflat⟩ := hblocks [] [] .paren _ none [] .self
  have hfits : c.FitsFlat 0 bracedName := by
    unfold FitsFlat
    decide +kernel
  exact ⟨hrender, hflat (by decide) hasFlatStrings_bracedName hfits⟩

/-- With four blanks a step the block inside is too long for a line of its own.  It is broken, and
    so is the block around it, although all could be on one line. -/
theorem not_onOneLine_of_fitsFlat : ¬ ∀ (c : Layout) (e : Expr) (limit : Nat) (text : String),
    (∀ n ∈ e.nodes, ∀ name ∈ n.names, Scan.ofText name.toList = .token (.symbol name)) →
    c.render e limit = .ok text → ∀ path before b xs l after,
      Stands c 0 e path before (.block b xs l) after → HasFlatStrings (.block b xs l) →
      c.FitsFlat (blocks path) (.block b xs l) → OnOneLine c (blocks path) (.block b xs l) := by
  intro h
  let c : Layout := { indentSize := 4, maxLineLength := 8 }
  have hnames : ∀ n ∈ bracedName.nodes, ∀ name ∈ n.names,
      Scan.ofText name.toList = .token (.symbol name) := by decide +kernel
  have hfits : c.FitsFlat 0 bracedName := by
    unfold FitsFlat
    decide +kernel
  have hrender : c.render bracedName = .ok "(\n    \x7b\n        a\n    \x7d;\n)\n" := by
    decide +kernel
  have hline : OnOneLine c 0 bracedName :=
    h c bracedName _ _ hnames hrender [] [] _ _ none [] .self hasFlatStrings_bracedName hfits
  have hbroken : '\n' ∈ c.text 0 bracedName := by decide +kernel
  exact onOneLine_block_iff.mp hline hbroken

end Layout

end Juxta
