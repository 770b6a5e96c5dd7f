/-
  Juxta/Proofs/Layout/Shapes.lean
  ===============================
  **The tokens of a layout** — `Layout.shapes` lists the tokens that the text of a tree is
  made of.  It knows nothing of indentation, line lengths and blanks: `spells_programText`
  shows that under all settings the text of a tree spells the same tokens.

  A node is `Legible` when its names are names and its literal has a text that is read as a
  literal.  Nothing is asked of the shape of the tree.
-/
import Juxta.Proofs.Decimal.ReadBack
import Juxta.Proofs.Expr.Nodes
import Juxta.Proofs.Layout.Writing

namespace Juxta

namespace Layout

/-! ### The tokens of a tree -/

/-- Tokens in parentheses. -/
def parens (ss : List Shape) : List Shape :=
  .punctuation .openParen :: (ss ++ [.punctuation .closeParen])

/-- The sign of a negative number is a name of its own. -/
def signShapes (negative : Bool) : List Shape := if negative then [.symbol "-"] else []

/-- The digits of a magnitude on either side of its point. -/
def magnitudeShape (m : Magnitude) : Shape :=
  .decimal (String.ofList (m.numeral.positional.takeWhile (· != '.')))
    (String.ofList ((m.numeral.positional.dropWhile (· != '.')).drop 1))

/-- The tokens of a literal, if it has a text that is read as one. -/
def literalShapes : Literal → List Shape
  | .integer n => signShapes (n < 0) ++ [.integer (String.ofList (Nat.toDigits 10 n.natAbs))]
  | .decimal (.finite negative m) => signShapes negative ++ [magnitudeShape m]
  | .text s => [.string (if s.toList.contains '"' then .single else .double) s]
  | .decimal _ | .truth _ => []

/-- The tokens of a tree in the place of an operand. -/
def operandShapes (e : Expr) (ss : List Shape) : List Shape := if isClosed e then ss else parens ss

/-- The tokens of a tree in the place of the last argument. -/
def lastArgumentShapes (e : Expr) (ss : List Shape) : List Shape :=
  match e with
  | .chain .. => ss
  | _ => operandShapes e ss

/-- The tokens of the body of a function. -/
def bodyShapes (body : Expr) (ss : List Shape) : List Shape :=
  if !body.isBraceBlock && ss.head? == some (.punctuation .openBrace) then parens ss else ss

/-- The tokens of a function, from those of its body. -/
def functionShapes (name : Option String) (parameters : List String) (body : List Shape) :
    List Shape :=
  .keyword .function :: (name.toList.map .symbol
    ++ (parens (separated .comma (parameters.map fun p => [.symbol p])) ++ body))

/-- The tokens of a block, from those of its statements. -/
def blockShapes (bracket : Bracket) (keep : Bool) (sss : List (List Shape)) : List Shape :=
  .punctuation bracket.opener :: (separated .semicolon sss
    ++ ((if keep then [.punctuation .semicolon] else []) ++ [.punctuation bracket.closer]))

mutual

/-- The tokens of a tree. -/
def shapes : Expr → List Shape
  | .literal v _ => literalShapes v
  | .symbol name _ => [.symbol name]
  | .function name parameters body _ =>
    functionShapes name parameters (bodyShapes body (shapes body))
  | .block bracket xs _ => blockShapes bracket (keepsSeparator bracket xs) (shapesAll xs)
  | .assignment recursive name value _ =>
    .keyword (bindingKeyword recursive) :: .symbol name :: shapes value
  | .call f xs _ => operandShapes f (shapes f) ++ (argumentShapes xs).flatten
  | .chain seed steps _ => operandShapes seed (shapes seed) ++ (stepShapes steps).flatten
  | .invocation target _ => operandShapes target (shapes target) ++ [.punctuation .bang]

/-- The tokens of several trees. -/
def shapesAll : List Expr → List (List Shape)
  | [] => []
  | x :: xs => shapes x :: shapesAll xs

/-- The tokens of the arguments of a call. -/
def argumentShapes : List Expr → List (List Shape)
  | [] => []
  | x :: xs =>
    (if xs.isEmpty then lastArgumentShapes x (shapes x) else operandShapes x (shapes x))
      :: argumentShapes xs

/-- The tokens of several operands. -/
def operandShapesAll : List Expr → List (List Shape)
  | [] => []
  | x :: xs => operandShapes x (shapes x) :: operandShapesAll xs

/-- The tokens of steps. -/
def stepShapes : List Step → List (List Shape)
  | [] => []
  | .mk p xs :: ss =>
    (.punctuation .backtick :: operandShapes p (shapes p))
      :: (operandShapesAll xs ++ stepShapes ss)

end

end Layout

/-! ### Legible trees -/

/-- The text of the literal is read as one, but for a sign. -/
def Literal.Legible : Literal → Prop
  | .integer n => (Nat.toDigits 10 n.natAbs).length ≤ Scan.digitLimit
  | .decimal x => x.isFinite = true
  | .text s => ¬ ('"' ∈ s.toList ∧ '\'' ∈ s.toList)
  | .truth _ => False

/-- The names of the node are names, and its literal is legible. -/
structure Expr.Legible (n : Expr) : Prop where
  names : ∀ name ∈ n.names, Text.IsName name
  literal : ∀ v ∈ n.literal?, v.Legible

namespace Layout

/-! ### Literals -/

theorem isOperator_minus : Text.IsOperator "-".toList :=
  ⟨by decide, List.all_eq_true.mp (by decide)⟩

theorem isName_minus : Text.IsName "-" := Or.inr isOperator_minus

/-- A sign in front of a digit is a token of its own. -/
theorem writes_signed {text : List Char} {ss : List Shape} (negative : Bool)
    (h : Writes text ss) (hdigit : ∀ rest, Text.Stops Text.isOperatorChar (text ++ rest)) :
    Writes ((if negative then ['-'] else []) ++ text) (signShapes negative ++ ss) := by
  cases negative with
  | false => exact h
  | true =>
    intro rest ss' hrest hspells
    have hends : (Shape.symbol "-").EndsBefore (text ++ rest) := by
      refine ⟨fun hword => ?_, fun _ => hdigit rest⟩
      exact absurd isOperator_minus hword.not_isOperator
    exact .lexeme (s := .symbol "-") isName_minus hends (h hrest hspells)

theorem isLexeme_integer {n : Nat} (h : (Nat.toDigits 10 n).length ≤ Scan.digitLimit) :
    (Shape.integer (String.ofList (Nat.toDigits 10 n))).IsLexeme := by
  refine ⟨?_, ?_⟩
  · rw [String.toList_ofList]
    exact ⟨Nat.toDigits_ne_nil, fun c hc => Nat.isDigit_of_mem_toDigits (by decide) (by decide) hc⟩
  · rw [← String.length_toList, String.toList_ofList]
    exact h

/-- The digits of a magnitude and its point are its positional notation. -/
theorem exists_magnitudeShape (m : Magnitude) : ∃ whole fraction,
    magnitudeShape m = .decimal (String.ofList whole) (String.ofList fraction) ∧
      m.numeral.positional = whole ++ '.' :: fraction ∧ whole ≠ [] ∧
      (∀ c ∈ whole, c.isDigit = true) ∧ Text.IsDigits fraction ∧
      (Numeral.ofDigits whole fraction).toBinary64 false = .finite false m := by
  obtain ⟨whole, fraction, htext, hwhole, hfraction, hwholeDigits, hfractionDigits, hvalue⟩ :=
    m.numeral.exists_positional
  have hrun : ∀ c ∈ whole, (c != '.') = true := by
    intro c hc
    have hdigit := hwholeDigits c hc
    rw [bne_iff_ne]
    rintro rfl
    exact absurd hdigit (by decide)
  have hstop : Text.Stops (· != '.') ('.' :: fraction) := Text.stops_cons.mpr (by decide)
  refine ⟨whole, fraction, ?_, htext, hwhole, hwholeDigits, ⟨hfraction, hfractionDigits⟩, ?_⟩
  · rw [magnitudeShape, htext, Text.takeWhile_append hrun hstop, Text.dropWhile_append hrun hstop]
    rfl
  · rw [hvalue, Numeral.toBinary64_withFraction, m.toBinary64_numeral]

theorem isLexeme_magnitudeShape (m : Magnitude) : (magnitudeShape m).IsLexeme := by
  obtain ⟨whole, fraction, hshape, -, -, hwhole, hfraction, -⟩ := exists_magnitudeShape m
  rw [hshape]
  exact ⟨by simpa using hwhole, by simpa using hfraction⟩

theorem lexeme_magnitudeShape (m : Magnitude) :
    (magnitudeShape m).lexeme.toList = m.numeral.positional := by
  obtain ⟨whole, fraction, hshape, htext, -⟩ := exists_magnitudeShape m
  rw [hshape, htext]
  simp [Shape.lexeme, String.toList_append]

theorem stops_of_isDigit {text : List Char} (hne : text ≠ [])
    (h : ∀ c ∈ text.head?, c.isDigit = true) (rest : List Char) :
    Text.Stops Text.isOperatorChar (text ++ rest) := by
  obtain ⟨c, text, rfl⟩ := List.exists_cons_of_ne_nil hne
  exact Text.stops_cons.mpr (Text.isOperatorChar_of_isDigit (h c rfl))

theorem writes_literalText {v : Literal} (h : v.Legible) :
    Writes (literalText v) (literalShapes v) := by
  cases v with
  | integer n =>
    have hdigits := writes_lexeme (isLexeme_integer h)
    rw [Shape.lexeme, String.toList_ofList] at hdigits
    have hsigned := writes_signed (n < 0) hdigits (stops_of_isDigit Nat.toDigits_ne_nil
      fun c hc => Nat.isDigit_of_mem_toDigits (by decide) (by decide) (List.mem_of_mem_head? hc))
    simpa [literalText, literalShapes] using hsigned
  | decimal x =>
    cases x with
    | nan => cases h
    | infinity _ => cases h
    | finite negative m =>
      obtain ⟨whole, fraction, -, htext, hne, hwhole, -⟩ := exists_magnitudeShape m
      have hdigits := writes_lexeme (isLexeme_magnitudeShape m)
      rw [lexeme_magnitudeShape] at hdigits
      refine writes_signed negative hdigits (stops_of_isDigit ?_ ?_)
      · rw [htext]
        simp
      · intro c hc
        obtain ⟨d, whole, rfl⟩ := List.exists_cons_of_ne_nil hne
        rw [htext] at hc
        cases hc
        exact hwhole _ List.mem_cons_self
  | text s =>
    have hquoted (mark : QuoteMark) (hmark : mark.char ∉ s.toList) :
        Writes (mark.char :: (s.toList ++ [mark.char])) [.string mark s] := by
      have htext :
          (Shape.string mark s).lexeme.toList = mark.char :: (s.toList ++ [mark.char]) := by
        simp [Shape.lexeme, String.toList_append, Char.toString_eq_singleton]
      have hwrites : Writes (Shape.string mark s).lexeme.toList [.string mark s] :=
        writes_lexeme hmark
      rwa [htext] at hwrites
    by_cases hdouble : '"' ∈ s.toList
    · have hsingle : '\'' ∉ s.toList := fun hmem => h ⟨hdouble, hmem⟩
      simpa [literalText, literalShapes, quoted, hdouble, QuoteMark.char] using
        hquoted .single hsingle
    · simpa [literalText, literalShapes, quoted, hdouble, QuoteMark.char] using
        hquoted .double hdouble
  | truth b => cases h

/-! ### Operands, blocks and functions -/

section Pieces

variable {text : List Char} {ss : List Shape}

theorem writes_parenthesized (h : Writes text ss) : Writes (parenthesized text) (parens ss) :=
  writes_mark .openParen (h.append_mark .closeParen writes_nil)

theorem writes_operandText (e : Expr) (h : Writes text ss) :
    Writes (operandText e text) (operandShapes e ss) := by
  unfold operandText operandShapes
  split
  · exact h
  · exact writes_parenthesized h

theorem writes_lastArgumentText (e : Expr) (h : Writes text ss) :
    Writes (lastArgumentText e text) (lastArgumentShapes e ss) := by
  cases e with
  | chain => exact h
  | _ => exact writes_operandText _ h

theorem writes_name {name : String} (h : Text.IsName name) :
    Writes name.toList [.symbol name] := writes_lexeme (s := .symbol name) h

theorem writes_names {names : List String} (h : ∀ name ∈ names, Text.IsName name) :
    List.Forall₂ Writes (names.map String.toList) (names.map fun name => [.symbol name]) := by
  induction names with
  | nil => exact .nil
  | cons name names ih =>
    obtain ⟨hname, hnames⟩ := List.forall_mem_cons.mp h
    exact .cons (writes_name hname) (ih hnames)

theorem writes_functionText {name : Option String} {parameters : List String}
    (hname : ∀ n ∈ name.toList, Text.IsName n) (hparams : ∀ p ∈ parameters, Text.IsName p)
    (h : Writes text ss) :
    Writes (functionText name parameters text) (functionShapes name parameters ss) := by
  have hkeyword : Writes ['f', 'n'] [.keyword .function] :=
    writes_lexeme (s := .keyword .function) trivial
  have hlist : Writes (parenthesized ([',', ' '].intercalate (parameters.map String.toList)))
      (parens (separated .comma (parameters.map fun p => [.symbol p]))) :=
    writes_parenthesized (writes_separated .comma (writes_names hparams))
  have hpieces : Writes (functionText name parameters text) ([.keyword .function] ::
      ((name.toList.map fun n => [.symbol n]) ++
        [parens (separated .comma (parameters.map fun p => [.symbol p])), ss])).flatten :=
    writes_intercalate (.cons hkeyword
      (List.rel_append (writes_names hname) (.cons hlist (.cons h .nil))))
  have hflat : (name.toList.map fun n => [Shape.symbol n]).flatten = name.toList.map .symbol := by
    cases name <;> rfl
  simpa [functionShapes, hflat] using hpieces

/-- The separator that the only statement of a block keeps. -/
theorem writes_kept (keep : Bool) {tail : List Char} {ss' : List Shape} (h : Writes text ss)
    (htail : Writes tail ss') (hboundary : ∀ rest, Text.AtBoundary (tail ++ rest)) :
    Writes (text ++ ((if keep then [';'] else []) ++ tail))
      (ss ++ ((if keep then [.punctuation .semicolon] else []) ++ ss')) := by
  cases keep with
  | false => exact h.append htail fun rest _ => hboundary rest
  | true => exact h.append_mark .semicolon htail

theorem writes_flatBlock (b : Bracket) (keep : Bool) {texts : List (List Char)}
    {sss : List (List Shape)} (h : List.Forall₂ Writes texts sss) :
    Writes (flatBlock b keep texts) (blockShapes b keep sss) := by
  have hstatements : Writes ([';', ' '].intercalate texts) (separated .semicolon sss) :=
    writes_separated .semicolon h
  cases b with
  | brace =>
    have hclose : Writes [' ', '\x7d'] [.punctuation .closeBrace] :=
      writes_blank (by decide) (writes_mark .closeBrace writes_nil)
    have hbody := writes_kept keep hstatements hclose
      fun rest => Text.atBoundary_blank (by decide) _
    have htext : flatBlock .brace keep texts = '\x7b' :: ' ' ::
        ([';', ' '].intercalate texts ++ ((if keep then [';'] else []) ++ [' ', '\x7d'])) := by
      simp [flatBlock]
    rw [htext]
    exact writes_mark .openBrace (writes_blank (by decide) hbody)
  | paren =>
    have hclose : Writes [')'] [.punctuation .closeParen] := writes_mark .closeParen writes_nil
    have hbody := writes_kept keep hstatements hclose
      fun rest => Text.atBoundary_mark .closeParen _
    have htext : flatBlock .paren keep texts =
        '(' :: ([';', ' '].intercalate texts ++ ((if keep then [';'] else []) ++ [')'])) := by
      simp [flatBlock, parenthesized]
    rw [htext]
    exact writes_mark .openParen hbody

/-- Statements on lines of their own, and what comes after them on a line of its own. -/
theorem writes_statementLines (n : Nat) (keep : Bool) {tail : List Char} {ss' : List Shape}
    (htail : Writes ('\n' :: tail) ss') {texts : List (List Char)} {sss : List (List Shape)}
    (h : List.Forall₂ Writes texts sss) (htext : Writes text ss) :
    Writes ((statementLines (List.replicate n ' ') keep (text :: texts)).flatMap (['\n'] ++ ·)
        ++ '\n' :: tail)
      (ss ++ (sss.flatMap (.punctuation .semicolon :: ·)
        ++ ((if keep then [.punctuation .semicolon] else []) ++ ss'))) := by
  induction h generalizing text ss with
  | nil =>
    have hline := writes_kept keep htext htail fun rest => Text.atBoundary_blank (by decide) _
    have hlast : (statementLines (List.replicate n ' ') keep [text]).flatMap (['\n'] ++ ·)
        ++ '\n' :: tail = '\n' :: (List.replicate n ' '
          ++ (text ++ ((if keep then [';'] else []) ++ '\n' :: tail))) := by
      simp [statementLines]
    rw [hlast]
    exact writes_blank (by decide) (writes_indent n hline)
  | @cons text' ss₁ texts sss htext' _ ih =>
    have hlater := ih htext'
    have hline : (statementLines (List.replicate n ' ') keep (text :: text' :: texts)).flatMap
        (['\n'] ++ ·) ++ '\n' :: tail = '\n' :: (List.replicate n ' ' ++ (text ++ ';' ::
          ((statementLines (List.replicate n ' ') keep (text' :: texts)).flatMap (['\n'] ++ ·)
            ++ '\n' :: tail))) := by
      simp [statementLines]
    rw [hline, List.flatMap_cons]
    have hmarked := htext.append_mark .semicolon hlater
    simp only [List.append_assoc, List.cons_append] at hmarked ⊢
    exact writes_blank (by decide) (writes_indent n hmarked)

theorem writes_brokenBlock (c : Layout) (d : Nat) (b : Bracket) (keep : Bool)
    {texts : List (List Char)} {sss : List (List Shape)} (h : List.Forall₂ Writes texts sss)
    (hne : texts ≠ []) : Writes (c.brokenBlock d b keep texts) (blockShapes b keep sss) := by
  cases h with
  | nil => exact absurd rfl hne
  | @cons text ss texts sss htext h =>
    have hclose : Writes ('\n' :: (c.indent d ++ [b.closer.char])) [.punctuation b.closer] :=
      writes_blank (by decide) (writes_indent _ (writes_mark b.closer writes_nil))
    have hlines := writes_statementLines (((d + 1 : Nat) * c.indentSize).toNat) keep hclose h htext
    have hblock : c.brokenBlock d b keep (text :: texts) = b.opener.char ::
        ((statementLines (c.indent (d + 1)) keep (text :: texts)).flatMap (['\n'] ++ ·)
          ++ '\n' :: (c.indent d ++ [b.closer.char])) := by
      rw [brokenBlock, List.cons_append, intercalate_cons, List.flatMap_append]
      simp
    rw [hblock, blockShapes, separated, List.append_assoc]
    exact writes_mark b.opener hlines

theorem writes_blockText (c : Layout) (d : Nat) (b : Bracket) {keep : Bool}
    {texts : List (List Char)} {sss : List (List Shape)} (h : List.Forall₂ Writes texts sss)
    (hkeep : texts = [] → keep = false) :
    Writes (c.blockText d b keep texts) (blockShapes b keep sss) := by
  by_cases hnil : texts = []
  · rw [hkeep hnil]
    subst hnil
    cases h
    exact writes_mark b.opener (writes_mark b.closer writes_nil)
  · have hne : texts.isEmpty = false := by simpa using hnil
    rw [blockText, hne, if_neg (by decide)]
    dsimp only
    split
    · exact writes_flatBlock b keep h
    · exact writes_brokenBlock c d b keep h hnil

end Pieces

/-! ### Bodies of functions -/

/-- A text and its tokens are not empty, and begin with an opening brace together. -/
structure Opens (text : List Char) (ss : List Shape) : Prop where
  text_ne_nil : text ≠ []
  shapes_ne_nil : ss ≠ []
  head_iff : text.head? = some '\x7b' ↔ ss.head? = some (.punctuation .openBrace)

theorem Opens.append {text : List Char} {ss : List Shape} (h : Opens text ss)
    (text' : List Char) (ss' : List Shape) : Opens (text ++ text') (ss ++ ss') := by
  refine ⟨by simp [h.text_ne_nil], by simp [h.shapes_ne_nil], ?_⟩
  rw [List.head?_append_of_ne_nil _ h.text_ne_nil, List.head?_append_of_ne_nil _ h.shapes_ne_nil]
  exact h.head_iff

theorem opens_cons {c : Char} {s : Shape} (h : c = '\x7b' ↔ s = .punctuation .openBrace)
    (text : List Char) (ss : List Shape) : Opens (c :: text) (s :: ss) := by
  refine ⟨by simp, by simp, ?_⟩
  simpa using h

theorem opens_parenthesized (text : List Char) (ss : List Shape) :
    Opens (parenthesized text) (parens ss) := opens_cons (by decide) _ _

theorem opens_operandText (e : Expr) {text : List Char} {ss : List Shape} (h : Opens text ss) :
    Opens (operandText e text) (operandShapes e ss) := by
  unfold operandText operandShapes
  split
  · exact h
  · exact opens_parenthesized text ss

/-- Of all lexemes only the opening brace begins like one. -/
theorem opens_lexeme {s : Shape} (hs : s.IsLexeme) : Opens s.lexeme.toList [s] := by
  have hread := Scan.ofText_append hs (s.endsBefore_of_atBoundary Text.atBoundary_nil)
  have hne : s.lexeme.toList ≠ [] := by
    rw [← List.length_pos_iff, String.length_toList]
    exact hs.length_pos
  obtain ⟨c, tail, htext⟩ := List.exists_cons_of_ne_nil hne
  rw [htext] at hread ⊢
  refine opens_cons ⟨?_, ?_⟩ _ _
  · rintro rfl
    have hbrace : Scan.ofText ('\x7b' :: (tail ++ [])) = .token (.punctuation .openBrace) := rfl
    rw [List.cons_append, hbrace] at hread
    cases hread
    rfl
  · rintro rfl
    cases htext
    rfl

theorem opens_signed (negative : Bool) {text : List Char} {ss : List Shape} (h : Opens text ss) :
    Opens ((if negative then ['-'] else []) ++ text) (signShapes negative ++ ss) := by
  cases negative with
  | false => exact h
  | true => exact opens_cons (by decide) _ _

theorem opens_literalText {v : Literal} (h : v.Legible) :
    Opens (literalText v) (literalShapes v) := by
  cases v with
  | integer n =>
    have hdigits := opens_lexeme (isLexeme_integer h)
    rw [Shape.lexeme, String.toList_ofList] at hdigits
    simpa [literalText, literalShapes] using opens_signed (n < 0) hdigits
  | decimal x =>
    cases x with
    | nan => cases h
    | infinity _ => cases h
    | finite negative m =>
      have hdigits := opens_lexeme (isLexeme_magnitudeShape m)
      rw [lexeme_magnitudeShape] at hdigits
      exact opens_signed negative hdigits
  | text s =>
    have hmark : (if s.toList.contains '"' then '\'' else '"') ≠ '\x7b' := by
      split <;> decide
    refine opens_cons (iff_of_false hmark ?_) _ _
    exact Shape.noConfusion
  | truth b => cases h

theorem exists_blockText (c : Layout) (d : Nat) (b : Bracket) (keep : Bool)
    (texts : List (List Char)) : ∃ rest, c.blockText d b keep texts = b.opener.char :: rest := by
  unfold blockText
  split
  · exact ⟨_, rfl⟩
  · dsimp only
    split
    · cases b <;> exact ⟨_, rfl⟩
    · rw [brokenBlock, List.cons_append, intercalate_cons]
      exact ⟨_, rfl⟩

variable {c : Layout} {d : Nat}

/-- The text of a tree begins with an opening brace when its tokens do. -/
theorem opens_text : (e : Expr) → e.Everywhere Expr.Legible → Opens (c.text d e) (shapes e)
  | .literal v _, h => opens_literalText (h.self.literal v rfl)
  | .symbol name _, h => opens_lexeme (s := .symbol name) (h.self.names name (by simp [Expr.names]))
  | .function _ _ _ _, _ => by
    rw [text, functionText, intercalate_cons]
    exact (opens_lexeme (s := .keyword .function) trivial).append _ _
  | .block b _ _, _ => by
    obtain ⟨rest, htext⟩ := exists_blockText c d b _ _
    rw [text, htext]
    exact opens_cons (by cases b <;> decide) _ _
  | .assignment r _ _ _, _ => by
    rw [text, intercalate_cons]
    exact (opens_lexeme (s := .keyword (bindingKeyword r)) trivial).append _ _
  | .call f _ _, h => by
    have hf := opens_operandText f (opens_text f (Expr.everywhere_call.mp h).2.1)
    rw [text, intercalate_cons]
    exact hf.append _ _
  | .chain seed _ _, h => by
    have hseed := opens_operandText seed (opens_text seed (Expr.everywhere_chain.mp h).2.1)
    rw [text, intercalate_cons]
    exact hseed.append _ _
  | .invocation target _, h => by
    have htarget := opens_operandText target (opens_text target (Expr.everywhere_invocation.mp h).2)
    exact htarget.append _ _

/-! ### All trees -/

theorem writes_bodyText {body : Expr} {text : List Char} {ss : List Shape} (h : Writes text ss)
    (hopens : Opens text ss) : Writes (bodyText body text) (bodyShapes body ss) := by
  have hhead : (text.head? == some '\x7b') = (ss.head? == some (.punctuation .openBrace)) := by
    rw [Bool.eq_iff_iff, beq_iff_eq, beq_iff_eq]
    exact hopens.head_iff
  rw [bodyText, bodyShapes, hhead]
  split
  · exact writes_parenthesized h
  · exact h

mutual

/-- **The text of a tree spells its tokens**, whatever the layout and the depth. -/
theorem writes_text : (e : Expr) → (d : Nat) → e.Everywhere Expr.Legible →
    Writes (c.text d e) (shapes e)
  | .literal v _, d, h => writes_literalText (h.self.literal v rfl)
  | .symbol name _, d, h => writes_name (h.self.names name (by simp [Expr.names]))
  | .function name ps body _, d, h => by
    obtain ⟨hself, hbody⟩ := Expr.everywhere_function.mp h
    have hnames := hself.names
    simp only [Expr.names, List.forall_mem_append] at hnames
    exact writes_functionText hnames.1 hnames.2
      (writes_bodyText (writes_text body d hbody) (opens_text body hbody))
  | .block b xs _, d, h => by
    have hxs := writes_texts xs (d + 1) (Expr.everywhere_block.mp h).2
    refine writes_blockText c d b hxs fun hnil => ?_
    cases xs with
    | nil => rfl
    | cons x xs => cases hnil
  | .assignment r name value _, d, h => by
    obtain ⟨hself, hvalue⟩ := Expr.everywhere_assignment.mp h
    have hkeyword : Writes (bindingKeyword r).lexeme.toList [.keyword (bindingKeyword r)] :=
      writes_lexeme (s := .keyword (bindingKeyword r)) trivial
    have hname := writes_name (hself.names name (by simp [Expr.names]))
    simpa [text, shapes] using
      writes_intercalate (.cons hkeyword (.cons hname (.cons (writes_text value d hvalue) .nil)))
  | .call f xs _, d, h => by
    obtain ⟨-, hf, hxs⟩ := Expr.everywhere_call.mp h
    exact writes_intercalate (.cons (writes_operandText f (writes_text f d hf))
      (writes_argumentTexts xs d hxs))
  | .chain seed ss _, d, h => by
    obtain ⟨-, hseed, hss⟩ := Expr.everywhere_chain.mp h
    exact writes_intercalate (.cons (writes_operandText seed (writes_text seed d hseed))
      (writes_stepTexts ss d hss))
  | .invocation target _, d, h => by
    have htarget := writes_text target d (Expr.everywhere_invocation.mp h).2
    exact (writes_operandText target htarget).append_mark .bang writes_nil

theorem writes_texts : (xs : List Expr) → (d : Nat) → (∀ x ∈ xs, x.Everywhere Expr.Legible) →
    List.Forall₂ Writes (c.texts d xs) (shapesAll xs)
  | [], _, _ => .nil
  | x :: xs, d, h => by
    obtain ⟨hx, hxs⟩ := List.forall_mem_cons.mp h
    exact .cons (writes_text x d hx) (writes_texts xs d hxs)

theorem writes_argumentTexts : (xs : List Expr) → (d : Nat) →
    (∀ x ∈ xs, x.Everywhere Expr.Legible) →
    List.Forall₂ Writes (c.argumentTexts d xs) (argumentShapes xs)
  | [], _, _ => .nil
  | x :: xs, d, h => by
    obtain ⟨hx, hxs⟩ := List.forall_mem_cons.mp h
    refine .cons ?_ (writes_argumentTexts xs d hxs)
    split
    · exact writes_lastArgumentText x (writes_text x d hx)
    · exact writes_operandText x (writes_text x d hx)

theorem writes_operandTexts : (xs : List Expr) → (d : Nat) →
    (∀ x ∈ xs, x.Everywhere Expr.Legible) →
    List.Forall₂ Writes (c.operandTexts d xs) (operandShapesAll xs)
  | [], _, _ => .nil
  | x :: xs, d, h => by
    obtain ⟨hx, hxs⟩ := List.forall_mem_cons.mp h
    exact .cons (writes_operandText x (writes_text x d hx)) (writes_operandTexts xs d hxs)

theorem writes_stepTexts : (ss : List Step) → (d : Nat) →
    (∀ s ∈ ss, s.operator.Everywhere Expr.Legible ∧ ∀ x ∈ s.extra, x.Everywhere Expr.Legible) →
    List.Forall₂ Writes (c.stepTexts d ss) (stepShapes ss)
  | [], _, _ => .nil
  | .mk p xs :: ss, d, h => by
    obtain ⟨⟨hp, hxs⟩, hss⟩ := List.forall_mem_cons.mp h
    exact .cons (writes_mark .backtick (writes_operandText p (writes_text p d hp)))
      (List.rel_append (writes_operandTexts xs d hxs) (writes_stepTexts ss d hss))

end

/-- **The text of a program spells the tokens of its tree.** -/
theorem spells_programText (c : Layout) {e : Expr} (h : e.Everywhere Expr.Legible) :
    Text.Spells (c.programText e) (shapes e) := by
  have hwrites := writes_text (c := c) e 0 h
  simp only [programText]
  split
  · have hline := hwrites.append_blank (c := '\n') (by decide) writes_nil
    rw [List.append_nil] at hline
    exact hline.spells
  · exact hwrites.spells

end Layout

end Juxta
