/-
  Juxta/Proofs/Layout/Lines.lean
  ==============================
  **The lines of a canonical text** — a block is written on one line or broken.  A broken block
  ends a line with its opener, gives every statement a line of its own and begins a line with its
  closer (`Layout.IsBroken`); how far these lines are indented depends on the number of blocks
  around alone, wherever the block stands: in a call, a chain, a function or in parentheses.

    * `Layout.lineFeed_mem_text_block_iff`: a block has a line feed in its text iff it is broken,
      and so are then all blocks around it;
    * `Layout.lineFeed_not_mem_text_block_iff`: it is broken when a statement is written on
      several lines or the one line would be too long;
    * `Layout.openQuote_of_blank`: no line ends in a blank, except in a string.

  The last one is a run of a small automaton over the text, that stops where a line ends in a
  blank (`Layout.lineStep`).  The layout keeps that a text is passed (`Layout.keeps_solid`).
-/
import Juxta.Proofs.Layout.Assembly
import Juxta.Proofs.Layout.Independence

namespace Juxta

namespace Layout

/-! ### Broken blocks -/

section Blocks

/-- The blanks in front of a line inside `k` blocks. -/
def margin (c : Layout) (k : Nat) : List Char := List.replicate (c.indentSize.toNat * k) ' '

/-- The text is that of a block inside `k` others on several lines: one for the opener, one for
    each statement and one for the closer. -/
def IsBroken (c : Layout) (k : Nat) (b : Bracket) (xs : List Expr) (text : List Char) : Prop :=
  ∃ lines : List (List Char),
    List.Forall₂ (fun x line => ∃ stop, (stop = [] ∨ stop = [';']) ∧
      line = c.margin (k + 1) ++ c.text (k + 1) x ++ stop) xs lines ∧
    text = ['\n'].intercalate ([b.opener.char] :: lines ++ [c.margin k ++ [b.closer.char]])

/-- The text of a block inside `k` others on one line. -/
def oneLine (c : Layout) (k : Nat) (b : Bracket) (xs : List Expr) : List Char :=
  if xs.isEmpty then [b.opener.char, b.closer.char]
  else flatBlock b (keepsSeparator b xs) (c.texts (k + 1) xs)

theorem indent_eq_margin (c : Layout) (k : Nat) : c.indent k = c.margin k := by
  have hwidth : (k * c.indentSize).toNat = c.indentSize.toNat * k := by
    rcases Int.le_total 0 c.indentSize with hsize | hsize
    · obtain ⟨n, hn⟩ := Int.eq_ofNat_of_zero_le hsize
      rw [hn, ← Int.natCast_mul, Int.toNat_natCast, Int.toNat_natCast, Nat.mul_comm]
    · rw [Int.toNat_of_nonpos hsize, Nat.zero_mul]
      exact Int.toNat_of_nonpos (Int.mul_nonpos_of_nonneg_of_nonpos (Int.natCast_nonneg k) hsize)
  rw [indent, margin, hwidth]

variable {c : Layout} {k : Nat} {b : Bracket} {xs : List Expr}

theorem IsBroken.lineFeed_mem {text : List Char} (h : IsBroken c k b xs text) : '\n' ∈ text := by
  obtain ⟨lines, -, rfl⟩ := h
  rw [List.cons_append, intercalate_cons]
  simp

theorem forall₂_statementLines (keep : Bool) :
    List.Forall₂ (fun x line => ∃ stop, (stop = [] ∨ stop = [';']) ∧
      line = c.margin (k + 1) ++ c.text (k + 1) x ++ stop) xs
      (statementLines (c.indent (k + 1)) keep (c.texts (k + 1) xs)) := by
  induction xs with
  | nil => exact .nil
  | cons x xs ih =>
    refine .cons ⟨_, ?_, by rw [indent_eq_margin]⟩ ih
    split
    · exact .inr rfl
    · exact .inl rfl

theorem isBroken_brokenBlock (keep : Bool) :
    IsBroken c k b xs (c.brokenBlock k b keep (c.texts (k + 1) xs)) := by
  refine ⟨_, forall₂_statementLines keep, ?_⟩
  rw [brokenBlock, indent_eq_margin c k]

theorem lineFeed_not_mem_flatBlock {texts : List (List Char)} (h : ∀ text ∈ texts, '\n' ∉ text)
    (keep : Bool) : '\n' ∉ flatBlock b keep texts := by
  have hinner : '\n' ∉ [';', ' '].intercalate texts := by
    cases texts with
    | nil => nofun
    | cons text texts =>
      obtain ⟨htext, htexts⟩ := List.forall_mem_cons.mp h
      rw [intercalate_cons]
      simpa [htext] using htexts
  cases b <;> cases keep <;> simp [flatBlock, parenthesized, hinner]

/-- Whether the text of a block is that on one line. -/
def StaysOnLine (c : Layout) (k : Nat) (b : Bracket) (xs : List Expr) : Prop :=
  xs = [] ∨ (∀ x ∈ xs, '\n' ∉ c.text (k + 1) x) ∧
    (((c.margin k).length + (c.oneLine k b xs).length : Nat) : Int) ≤ c.maxLineLength

theorem text_block_eq_or (c : Layout) (k : Nat) (b : Bracket) (xs : List Expr)
    (l : Option Location) : (StaysOnLine c k b xs ∧ c.text k (.block b xs l) = c.oneLine k b xs) ∨
      (¬ StaysOnLine c k b xs ∧ IsBroken c k b xs (c.text k (.block b xs l))) := by
  cases xs with
  | nil => exact .inl ⟨.inl rfl, rfl⟩
  | cons x xs =>
    have hfits : c.fits k (c.texts (k + 1) (x :: xs)) (c.oneLine k b (x :: xs)) = true ↔
        StaysOnLine c k b (x :: xs) := by
      simp [fits, StaysOnLine, texts_eq_map, indent_eq_margin]
    have htext : c.text k (.block b (x :: xs) l) =
        if c.fits k (c.texts (k + 1) (x :: xs)) (c.oneLine k b (x :: xs)) then
          c.oneLine k b (x :: xs)
        else c.brokenBlock k b (keepsSeparator b (x :: xs)) (c.texts (k + 1) (x :: xs)) := rfl
    rw [htext, ← hfits]
    split
    next h => exact .inl ⟨h, rfl⟩
    next h => exact .inr ⟨h, isBroken_brokenBlock _⟩

theorem lineFeed_not_mem_oneLine (h : StaysOnLine c k b xs) : '\n' ∉ c.oneLine k b xs := by
  unfold oneLine
  split
  · cases b <;> decide
  next hne =>
    rcases h with rfl | ⟨htexts, -⟩
    · exact absurd rfl hne
    · rw [texts_eq_map]
      exact lineFeed_not_mem_flatBlock (List.forall_mem_map.mpr htexts) _

/-- **A block is broken, if its text is not on one line.** -/
theorem lineFeed_mem_text_block_iff (l : Option Location) :
    '\n' ∈ c.text k (.block b xs l) ↔ IsBroken c k b xs (c.text k (.block b xs l)) := by
  refine ⟨fun hmem => ?_, IsBroken.lineFeed_mem⟩
  rcases text_block_eq_or c k b xs l with ⟨hstays, htext⟩ | ⟨-, h⟩
  · rw [htext] at hmem
    exact absurd hmem (lineFeed_not_mem_oneLine hstays)
  · exact h

/-- **When a block is on one line.** -/
theorem lineFeed_not_mem_text_block_iff (l : Option Location) :
    '\n' ∉ c.text k (.block b xs l) ↔ StaysOnLine c k b xs := by
  rcases text_block_eq_or c k b xs l with ⟨h, htext⟩ | ⟨h, hbroken⟩
  · rw [htext]
    exact iff_of_true (lineFeed_not_mem_oneLine h) h
  · exact iff_of_false (not_not_intro hbroken.lineFeed_mem) h

end Blocks

/-! ### The ends of lines -/

/-- The string that a text ends in, after one character more. -/
def openQuote : Option QuoteMark → Char → Option QuoteMark
  | none, c => QuoteMark.ofChar? c
  | some mark, c => if c = mark.char then none else some mark

/-- The string that a text ends in, and whether it ends in a blank outside of strings, after one
    character more.  There is none after a line that ends so. -/
def lineStep : Option QuoteMark × Bool → Char → Option (Option QuoteMark × Bool)
  | (quote, blank), c =>
    if blank && c == '\n' then none else some (openQuote quote c, quote.isNone && c == ' ')

/-- Wherever the text stands outside of strings, no line of it ends in a blank, and what is behind
    it is outside of strings and not behind a blank. -/
def Solid (text : List Char) : Prop :=
  ∀ blank, text.foldlM lineStep (none, blank) = some (none, false)

theorem Solid.append {text text' : List Char} (h : Solid text) (h' : Solid text') :
    Solid (text ++ text') := by
  intro blank
  rw [List.foldlM_append, h blank]
  exact h' false

theorem Solid.blank {text : List Char} (h : Solid text) : Solid (' ' :: text) := by
  intro blank
  cases blank <;> exact h true

theorem Solid.feed {text text' : List Char} (h : Solid text) (h' : Solid text') :
    Solid (text ++ '\n' :: text') := by
  intro blank
  rw [List.foldlM_append, h blank]
  exact h' false

/-- A character that is no blank, no line feed and no quote mark. -/
def IsPlain (c : Char) : Prop := c ∉ [' ', '\n', '"', '\'']

instance : DecidablePred IsPlain := fun _ => inferInstanceAs (Decidable (_ ∉ _))

theorem solid_singleton {c : Char} (h : IsPlain c) : Solid [c] := by
  simp only [IsPlain, List.mem_cons, List.not_mem_nil, or_false, not_or] at h
  obtain ⟨hblank, hfeed, hdouble, hsingle⟩ := h
  have hquote : QuoteMark.ofChar? c = none := by
    simp [QuoteMark.ofChar?, QuoteMark.char, Ne.symm hdouble, Ne.symm hsingle]
  intro blank
  simp [lineStep, openQuote, hblank, hfeed, hquote]

theorem solid_of_isPlain {text : List Char} (hne : text ≠ []) (h : ∀ c ∈ text, IsPlain c) :
    Solid text := by
  induction text with
  | nil => exact absurd rfl hne
  | cons c text ih =>
    obtain ⟨hc, htext⟩ := List.forall_mem_cons.mp h
    cases text with
    | nil => exact solid_singleton hc
    | cons d text => exact (solid_singleton hc).append (ih (by simp) htext)

/-- A text between quote marks that it does not hold is passed, whatever it holds. -/
theorem solid_string (mark : QuoteMark) {text : List Char} (h : mark.char ∉ text) :
    Solid (mark.char :: (text ++ [mark.char])) := by
  have hopen (blank : Bool) : lineStep (none, blank) mark.char = some (some mark, false) := by
    cases mark <;> cases blank <;> rfl
  have hclose : lineStep (some mark, false) mark.char = some (none, false) := by
    cases mark <;> rfl
  have hbody : text.foldlM lineStep (some mark, false) = some (some mark, false) := by
    induction text with
    | nil => rfl
    | cons c text ih =>
      obtain ⟨hc, htext⟩ := not_or.mp (List.mem_cons.not.mp h)
      have hstep : lineStep (some mark, false) c = some (some mark, false) := by
        simp [lineStep, openQuote, Ne.symm hc]
      rw [List.foldlM_cons, hstep]
      exact ih htext
  intro blank
  rw [List.foldlM_cons, hopen]
  change (text ++ [mark.char]).foldlM lineStep (some mark, false) = _
  rw [List.foldlM_append, hbody]
  change List.foldlM lineStep (some mark, false) [mark.char] = _
  rw [List.foldlM_cons, hclose]
  rfl

/-- Characters of one kind are plain if blanks, line feeds and quote marks are not of this kind. -/
theorem solid_of_kind {p : Char → Bool} (h : [' ', '\n', '"', '\''].any p = false)
    {text : List Char} (hne : text ≠ []) (htext : ∀ c ∈ text, p c = true) : Solid text := by
  refine solid_of_isPlain hne fun c hc hmem => ?_
  have hany : [' ', '\n', '"', '\''].any p = true := List.any_eq_true.mpr ⟨c, hmem, htext c hc⟩
  exact Bool.false_ne_true (h.symm.trans hany)

theorem solid_word {word : List Char} (h : Text.IsWord word) : Solid word := by
  have hne : word ≠ [] := by
    obtain ⟨c, rest, rfl, -⟩ := h
    exact List.cons_ne_nil c rest
  exact solid_of_kind (p := Text.isWordPart) (by decide) hne fun _ hc => h.isWordPart hc

theorem solid_name {name : String} (h : Text.IsName name) : Solid name.toList := by
  rcases h with ⟨hword, -⟩ | ⟨hne, hoperator⟩
  · exact solid_word hword
  · exact solid_of_kind (by decide) hne hoperator

theorem solid_digits {digits : List Char} (hne : digits ≠ [])
    (h : ∀ c ∈ digits, c.isDigit = true) : Solid digits :=
  solid_of_kind (by decide) hne h

theorem keeps_solid : Keeps Solid where
  append := Solid.append
  blank := Solid.blank
  feed := Solid.feed
  mark p := solid_singleton (by cases p <;> decide)
  keyword k := solid_word k.isWord_lexeme

theorem solid_signed (negative : Bool) {text : List Char} (h : Solid text) :
    Solid ((if negative then ['-'] else []) ++ text) := by
  cases negative with
  | true => exact (solid_singleton (by decide)).append h
  | false => exact h

theorem solid_quoted {text : List Char} (h : ¬ ('"' ∈ text ∧ '\'' ∈ text)) :
    Solid (quoted text) := by
  by_cases hdouble : '"' ∈ text
  · have htext : quoted text = QuoteMark.single.char :: (text ++ [QuoteMark.single.char]) := by
      simp [quoted, hdouble, QuoteMark.char]
    rw [htext]
    exact solid_string .single fun hsingle => h ⟨hdouble, hsingle⟩
  · have htext : quoted text = QuoteMark.double.char :: (text ++ [QuoteMark.double.char]) := by
      simp [quoted, hdouble, QuoteMark.char]
    rw [htext]
    exact solid_string .double hdouble

theorem solid_literalText {v : Literal} (h : v.Writable) : Solid (literalText v) := by
  cases v with
  | integer n =>
    have hdigits : Solid (Nat.toDigits 10 n.natAbs) :=
      solid_digits Nat.toDigits_ne_nil fun c hc =>
        Nat.isDigit_of_mem_toDigits (by decide) (by decide) hc
    have hsigned := solid_signed (decide (n < 0)) hdigits
    simpa [literalText] using hsigned
  | decimal x =>
    cases x with
    | nan => cases h.1
    | infinity _ => cases h.1
    | finite negative m =>
      refine solid_signed negative ?_
      obtain ⟨whole, fraction, htext, hwhole, hfraction, hleft, hright, -⟩ :=
        m.numeral.exists_positional
      rw [htext]
      exact (solid_digits hwhole hleft).append
        ((solid_singleton (by decide)).append (solid_digits hfraction hright))
  | text s => exact solid_quoted h
  | truth b => cases h

/-- **A tree that is written with readable names has a text without blanks at the ends of
    lines.** -/
theorem solid_text (c : Layout) {e : Expr} (hnames : ∀ n ∈ e.nodes, ∀ name ∈ n.names,
    Scan.ofText name.toList = .token (.symbol name)) (h : e.blemish? = none) :
    Solid (c.text 0 e) := by
  refine keeps_solid.text c e 0 fun n hn => ⟨fun name hname => ?_, fun v hv => ?_⟩
  · exact solid_name ((Scan.ofText_eq_symbol_iff name).mp (hnames n hn name hname))
  · exact solid_literalText ((e.blemish?_eq_none_iff.mp h n hn).literal v hv)

theorem fst_of_foldlM_lineStep {text : List Char} {s s' : Option QuoteMark × Bool}
    (h : text.foldlM lineStep s = some s') : s'.1 = text.foldl openQuote s.1 := by
  induction text generalizing s with
  | nil => cases h; rfl
  | cons c text ih =>
    rw [List.foldlM_cons, Option.bind_eq_bind, Option.bind_eq_some_iff] at h
    obtain ⟨next, hstep, hrest⟩ := h
    have hnext : next.1 = openQuote s.1 c := by
      unfold lineStep at hstep
      dsimp only at hstep
      split at hstep <;> cases hstep
      rfl
    rw [ih hrest, hnext, List.foldl_cons]

/-- **A line ends in a blank in strings only.** -/
theorem openQuote_of_blank {text : List Char}
    (h : ∃ quote, text.foldlM lineStep (none, false) = some (quote, false))
    {before after : List Char} (htext : text = before ++ ' ' :: after)
    (hend : ∀ c ∈ after.head?, c = '\n') : before.foldl openQuote none ≠ none := by
  obtain ⟨quote, hrun⟩ := h
  intro hnone
  rw [htext, List.foldlM_append, Option.bind_eq_bind, Option.bind_eq_some_iff] at hrun
  obtain ⟨⟨quote', blank⟩, hbefore, hrun⟩ := hrun
  have hquote : quote' = none := (fst_of_foldlM_lineStep hbefore).trans hnone
  have hstep : lineStep (quote', blank) ' ' = some (none, true) := by
    rw [hquote]
    cases blank <;> rfl
  rw [List.foldlM_cons, hstep] at hrun
  change after.foldlM lineStep (none, true) = _ at hrun
  cases after with
  | nil => cases hrun
  | cons c after =>
    cases hend c rfl
    cases hrun

/-- What is written is the text of the tree, with at most one line feed behind it. -/
theorem exists_programText_eq (c : Layout) (e : Expr) :
    ∃ ending, (ending = [] ∨ ending = ['\n']) ∧ c.programText e = c.text 0 e ++ ending := by
  unfold programText
  dsimp only
  split
  · exact ⟨_, .inr rfl, rfl⟩
  · exact ⟨_, .inl rfl, (List.append_nil _).symm⟩

/-! ### The layout of a tree -/

/-- How a block is laid out inside the blocks of a path. -/
structure LaidOut (c : Layout) (path : List Expr) (b : Bracket) (xs : List Expr)
    (l : Option Location) : Prop where
  /-- It is on one line or broken. -/
  broken : '\n' ∈ c.text (blocks path) (.block b xs l) ↔
    IsBroken c (blocks path) b xs (c.text (blocks path) (.block b xs l))
  /-- If it is broken, so is every block around it. -/
  around : IsBroken c (blocks path) b xs (c.text (blocks path) (.block b xs l)) →
    ∀ outer b' xs' l' inner, path = outer ++ .block b' xs' l' :: inner →
      IsBroken c (blocks outer) b' xs' (c.text (blocks outer) (.block b' xs' l'))
  /-- The text that it has on one line. -/
  oneLine : '\n' ∉ c.text (blocks path) (.block b xs l) →
    c.text (blocks path) (.block b xs l) = c.oneLine (blocks path) b xs
  /-- It is on one line if that is possible and not too long. -/
  fits : (∀ x ∈ xs, '\n' ∉ c.text (blocks path + 1) x) →
    ('\n' ∉ c.text (blocks path) (.block b xs l) ↔ xs = [] ∨
      (((c.margin (blocks path)).length + (c.oneLine (blocks path) b xs).length : Nat) : Int) ≤
        c.maxLineLength)

variable {c : Layout} {e : Expr} {limit : Nat}

theorem lineFeed_mem_text_of_stands {d : Nat} {x y : Expr} {outer inner : List Expr}
    {before after : List Char} (h : Stands c d e (outer ++ y :: inner) before x after)
    (hmem : '\n' ∈ c.text (d + blocks (outer ++ y :: inner)) x) :
    '\n' ∈ c.text (d + blocks outer) y := by
  obtain ⟨u, v, u', v', -, hinner, -, -⟩ := h.exists_split
  have hblocks : d + blocks (outer ++ y :: inner) = d + blocks outer + blocks (y :: inner) := by
    rw [blocks, List.countP_append, Nat.add_assoc]
    rfl
  rw [hinner.text_eq, ← hblocks]
  simp [hmem]

theorem laidOut_of_stands {path : List Expr} {b : Bracket} {xs : List Expr} {l : Option Location}
    {before after : List Char} (h : Stands c 0 e path before (.block b xs l) after) :
    LaidOut c path b xs l where
  broken := lineFeed_mem_text_block_iff l
  around hbroken := by
    rintro outer b' xs' l' inner rfl
    have hmem := lineFeed_mem_text_of_stands h (by simpa using hbroken.lineFeed_mem)
    rw [Nat.zero_add] at hmem
    exact (lineFeed_mem_text_block_iff l').mp hmem
  oneLine hflat := by
    rcases text_block_eq_or c (blocks path) b xs l with h | ⟨-, hbroken⟩
    · exact h.2
    · exact absurd hbroken.lineFeed_mem hflat
  fits htexts := by
    rw [lineFeed_not_mem_text_block_iff, StaysOnLine, and_iff_right htexts]

/-- **Blocks are laid out by their depth.**  Every node of a tree that is written has its place in
    the text; the blocks are laid out by the number of blocks around them, and outside of strings
    no line ends in a blank. -/
theorem laidOut_of_render
    (hnames : ∀ n ∈ e.nodes, ∀ name ∈ n.names, Scan.ofText name.toList = .token (.symbol name))
    {text : String} (h : c.render e limit = .ok text) :
    (∀ n ∈ e.nodes, ∃ path before after, Stands c 0 e path before n after) ∧
    (∃ ending, (ending = [] ∨ ending = ['\n']) ∧
      ∀ path before n after, Stands c 0 e path before n after →
        text.toList = before ++ c.text (blocks path) n ++ after ++ ending) ∧
    (∀ path before b xs l after, Stands c 0 e path before (.block b xs l) after →
      LaidOut c path b xs l) ∧
    ∀ before after, text.toList = before ++ ' ' :: after → (∀ c ∈ after.head?, c = '\n') →
      before.foldl openQuote none ≠ none := by
  obtain ⟨-, hblemish, rfl⟩ := render_eq_ok_iff.mp h
  obtain ⟨ending, hending, htext⟩ := exists_programText_eq c e
  refine ⟨fun n hn => exists_stands c 0 hn, ⟨ending, hending, ?_⟩, ?_, ?_⟩
  · intro path before n after hstands
    rw [String.toList_ofList, htext, hstands.text_eq, Nat.zero_add]
  · intro path before b xs l after hstands
    exact laidOut_of_stands hstands
  · intro before after heq hend
    have hrun : ∃ quote, (c.programText e).foldlM lineStep (none, false) = some (quote, false) := by
      rw [htext, List.foldlM_append, solid_text c hnames hblemish false]
      rcases hending with rfl | rfl
      · exact ⟨none, rfl⟩
      · exact ⟨none, rfl⟩
    exact openQuote_of_blank hrun (by rwa [String.toList_ofList] at heq) hend

/-- The line feed of a string breaks both blocks around it, however long lines may be; the third
    block stays on its line. -/
theorem laidOut_of_render_nestedBlocks :
    let c : Layout := { indentSize := 3, maxLineLength := 500 }
    ∃ text, c.render nestedBlocks = .ok text ∧
      text.toList.count '\n' = 7 ∧
      (∀ path before b xs l after, Stands c 0 nestedBlocks path before (.block b xs l) after →
        LaidOut c path b xs l) ∧
      ∀ before after, text.toList = before ++ ' ' :: after → (∀ c ∈ after.head?, c = '\n') →
        before.foldl openQuote none ≠ none := by
  intro c
  have hnames : ∀ n ∈ nestedBlocks.nodes, ∀ name ∈ n.names,
      Scan.ofText name.toList = .token (.symbol name) := by decide +kernel
  have hunblemished : nestedBlocks.Everywhere Expr.Unblemished := by decide +kernel
  have hrender : c.render nestedBlocks = .ok _ :=
    render_eq_ok_iff.mpr
      ⟨by decide +kernel, nestedBlocks.blemish?_eq_none_iff.mpr hunblemished, rfl⟩
  obtain ⟨-, -, hblocks, hends⟩ := laidOut_of_render hnames hrender
  exact ⟨_, hrender, by decide +kernel, hblocks, hends⟩

end Layout

end Juxta
