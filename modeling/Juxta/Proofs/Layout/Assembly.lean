/-
  Juxta/Proofs/Layout/Assembly.lean
  =================================
  **What every canonical text has from its parts** — the layout puts texts together with blanks,
  line feeds, marks and keywords only.  A property of texts that is kept by that (`Layout.Keeps`)
  is a property of the text of every tree whose names and literals have it (`Keeps.text`).
-/
import Juxta.Proofs.Layout.Pieces

namespace Juxta

/-- The names of the node and the text of its literal have the property. -/
structure Expr.Supplies (P : List Char → Prop) (n : Expr) : Prop where
  names : ∀ name ∈ n.names, P name.toList
  literal : ∀ v ∈ n.literal?, P (Layout.literalText v)

namespace Layout

/-- The layout keeps the property when it puts texts together. -/
structure Keeps (P : List Char → Prop) : Prop where
  append : ∀ {text text' : List Char}, P text → P text' → P (text ++ text')
  blank : ∀ {text : List Char}, P text → P (' ' :: text)
  feed : ∀ {text text' : List Char}, P text → P text' → P (text ++ '\n' :: text')
  mark : ∀ p : Punctuation, P [p.char]
  keyword : ∀ k : Keyword, P k.lexeme.toList

namespace Keeps

variable {P : List Char → Prop} (hP : Keeps P)

/-! ### Sequences -/

theorem intercalate {separator : List Char}
    (hseparator : ∀ {text text' : List Char}, P text → P text' → P (text ++ (separator ++ text')))
    {text : List Char} {texts : List (List Char)} (htext : P text) (htexts : ∀ t ∈ texts, P t) :
    P (separator.intercalate (text :: texts)) := by
  rw [intercalate_cons]
  induction texts generalizing text with
  | nil => simpa using htext
  | cons t texts ih =>
    obtain ⟨ht, hrest⟩ := List.forall_mem_cons.mp htexts
    rw [List.flatMap_cons, ← List.append_assoc]
    exact ih (hseparator htext ht) hrest

include hP

section Sequences

variable {text : List Char} {texts : List (List Char)} (htext : P text) (htexts : ∀ t ∈ texts, P t)
include htext htexts

theorem spaced : P ([' '].intercalate (text :: texts)) :=
  intercalate (fun h h' => hP.append h (hP.blank h')) htext htexts

theorem separated (p : Punctuation) : P ([p.char, ' '].intercalate (text :: texts)) := by
  refine intercalate (fun {t t'} h h' => ?_) htext htexts
  have hnext : P ([p.char] ++ ' ' :: t') := hP.append (hP.mark p) (hP.blank h')
  exact hP.append h hnext

theorem lines : P (['\n'].intercalate (text :: texts)) := intercalate hP.feed htext htexts

end Sequences

theorem indented (n : Nat) {text : List Char} (h : P text) : P (List.replicate n ' ' ++ text) := by
  induction n with
  | zero => exact h
  | succ n ih => exact hP.blank ih

/-! ### Operands and bodies -/

section Operands

variable {text : List Char} (h : P text)
include h

theorem parenthesized : P (parenthesized text) :=
  hP.append (hP.mark .openParen) (hP.append h (hP.mark .closeParen))

theorem operandText (e : Expr) : P (operandText e text) := by
  unfold Layout.operandText
  split
  · exact h
  · exact hP.parenthesized h

theorem lastArgumentText (e : Expr) : P (lastArgumentText e text) := by
  cases e with
  | chain => exact h
  | _ => exact hP.operandText h _

theorem bodyText (body : Expr) : P (bodyText body text) := by
  unfold Layout.bodyText
  split
  · exact hP.parenthesized h
  · exact h

end Operands

theorem parameters {names : List String} (h : ∀ name ∈ names, P name.toList) :
    P (Layout.parenthesized ([',', ' '].intercalate (names.map String.toList))) := by
  cases names with
  | nil => exact hP.append (hP.mark .openParen) (hP.mark .closeParen)
  | cons name names =>
    obtain ⟨hname, hnames⟩ := List.forall_mem_cons.mp h
    exact hP.parenthesized (hP.separated hname (List.forall_mem_map.mpr hnames) .comma)

theorem functionText {name : Option String} {parameters : List String} {body : List Char}
    (hname : ∀ n ∈ name.toList, P n.toList) (hparameters : ∀ p ∈ parameters, P p.toList)
    (hbody : P body) : P (functionText name parameters body) := by
  refine hP.spaced (hP.keyword .function) ?_
  rw [List.forall_mem_append, List.forall_mem_map]
  exact ⟨hname, List.forall_mem_cons.mpr
    ⟨hP.parameters hparameters, List.forall_mem_singleton.mpr hbody⟩⟩

/-! ### Blocks -/

theorem stop {text : List Char} (h : P text) (keep : Bool) :
    P (text ++ if keep then [';'] else []) := by
  cases keep with
  | true => exact hP.append h (hP.mark .semicolon)
  | false => simpa using h

section Blocks

variable {text : List Char} {texts : List (List Char)} (h : ∀ t ∈ text :: texts, P t)
include h

theorem flatBlock (b : Bracket) (keep : Bool) : P (flatBlock b keep (text :: texts)) := by
  obtain ⟨htext, htexts⟩ := List.forall_mem_cons.mp h
  have hinner := hP.stop (hP.separated htext htexts .semicolon) keep
  cases b with
  | brace =>
    exact hP.append (hP.mark .openBrace)
      (hP.blank (hP.append hinner (hP.blank (hP.mark .closeBrace))))
  | paren => exact hP.parenthesized hinner

theorem statementLines (n : Nat) (keep : Bool) :
    ∀ line ∈ statementLines (List.replicate n ' ') keep (text :: texts), P line := by
  induction texts generalizing text with
  | nil =>
    have htext := hP.stop (hP.indented n (h text (List.mem_singleton_self _))) (keep || false)
    exact List.forall_mem_singleton.mpr htext
  | cons t texts ih =>
    obtain ⟨htext, hrest⟩ := List.forall_mem_cons.mp h
    exact List.forall_mem_cons.mpr ⟨hP.stop (hP.indented n htext) _, ih hrest⟩

theorem blockText (c : Layout) (d : Nat) (b : Bracket) (keep : Bool) :
    P (c.blockText d b keep (text :: texts)) := by
  unfold Layout.blockText
  rw [if_neg (by simp)]
  dsimp only
  split
  · exact hP.flatBlock h b keep
  · refine hP.lines (hP.mark b.opener) (List.forall_mem_append.mpr ⟨?_, ?_⟩)
    · exact hP.statementLines h _ keep
    · exact List.forall_mem_singleton.mpr (hP.indented _ (hP.mark b.closer))

end Blocks

/-! ### Trees -/

section Lists

variable {c : Layout} {d : Nat} {xs : List Expr} (h : ∀ x ∈ xs, P (c.text d x))
include h

theorem operandTexts : ∀ t ∈ c.operandTexts d xs, P t := by
  rw [operandTexts_eq_map]
  exact List.forall_mem_map.mpr fun x hx => hP.operandText (h x hx) x

theorem argumentTexts : ∀ t ∈ c.argumentTexts d xs, P t := by
  induction xs with
  | nil => nofun
  | cons x xs ih =>
    obtain ⟨hx, hxs⟩ := List.forall_mem_cons.mp h
    refine List.forall_mem_cons.mpr ⟨?_, ih hxs⟩
    split
    · exact hP.lastArgumentText hx x
    · exact hP.operandText hx x

end Lists

theorem stepTexts {c : Layout} {d : Nat} {ss : List Step}
    (h : ∀ s ∈ ss, ∀ x ∈ s.operator :: s.extra, P (c.text d x)) : ∀ t ∈ c.stepTexts d ss, P t := by
  induction ss with
  | nil => nofun
  | cons s ss ih =>
    obtain ⟨p, xs⟩ := s
    obtain ⟨hs, hss⟩ := List.forall_mem_cons.mp h
    obtain ⟨hp, hxs⟩ := List.forall_mem_cons.mp hs
    refine List.forall_mem_cons.mpr ⟨?_, List.forall_mem_append.mpr ⟨?_, ih hss⟩⟩
    · exact hP.append (hP.mark .backtick) (hP.operandText hp p)
    · exact hP.operandTexts hxs

/-- **What the layout keeps holds of the text of a tree**, if it holds of the names and the
    literals in the tree. -/
theorem text (c : Layout) (e : Expr) (d : Nat) (h : e.Everywhere (Expr.Supplies P)) :
    P (c.text d e) := by
  induction e using Expr.induction generalizing d with
  | h e ih =>
    obtain ⟨hself, hbelow⟩ := Expr.everywhere_iff.mp h
    have hchildren : ∀ x ∈ e.children, ∀ d, P (c.text d x) := fun x hx d =>
      ih x hx d (hbelow x hx)
    cases e with
    | literal v l => exact hself.literal v rfl
    | symbol name l => exact hself.names name (by simp [Expr.names])
    | function name ps body l =>
      have hnames := hself.names
      simp only [Expr.names, List.forall_mem_append] at hnames
      have hbody := hchildren body (by simp [Expr.children]) d
      exact hP.functionText hnames.1 hnames.2 (hP.bodyText hbody body)
    | block b xs l =>
      rw [Layout.text, texts_eq_map]
      cases xs with
      | nil => exact hP.append (hP.mark b.opener) (hP.mark b.closer)
      | cons x xs =>
        exact hP.blockText (List.forall_mem_map.mpr fun y hy => hchildren y hy (d + 1)) c d b _
    | assignment r name value l =>
      have hname := hself.names name (by simp [Expr.names])
      refine hP.spaced (hP.keyword (bindingKeyword r)) (List.forall_mem_cons.mpr ⟨hname, ?_⟩)
      exact List.forall_mem_singleton.mpr (hchildren value (by simp [Expr.children]) d)
    | call f xs l =>
      obtain ⟨hf, hxs⟩ := List.forall_mem_cons.mp hchildren
      exact hP.spaced (hP.operandText (hf d) f) (hP.argumentTexts fun x hx => hxs x hx d)
    | chain seed ss l =>
      obtain ⟨hseed, hss⟩ := List.forall_mem_cons.mp hchildren
      refine hP.spaced (hP.operandText (hseed d) seed) (hP.stepTexts fun s hs x hx => ?_)
      exact hss x (List.mem_flatMap.mpr ⟨s, hs, hx⟩) d
    | invocation target l =>
      have htarget := hchildren target (by simp [Expr.children, Expr.operands]) d
      exact hP.append (hP.operandText htarget target) (hP.mark .bang)

end Keeps

end Layout

end Juxta
