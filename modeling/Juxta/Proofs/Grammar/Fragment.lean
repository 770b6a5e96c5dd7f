/-
  Juxta/Proofs/Grammar/Fragment.lean
  ==================================
  **Texts inside texts** — a text that has a tree by itself keeps it wherever an expression may
  stand.  Two facts make this so:

    * its tokens are the same in front of every boundary, for a text that is scanned to its end
      spells them (`Cursor.Scans.spells`);
    * they are read as the same tree in front of everything that stops an expression
      (`Grammar.ReadsExpression`), for the reader asks no more of what comes after them.

  `Fragment text P` says of a piece of text that its tokens are of the class `P` wherever it
  stands.  `Program.HasTree.fragment` makes a fragment of a text that has a tree, fragments are put
  together piece by piece, and `Program.readsFrom_of_fragment` reads the whole.
-/
import Juxta.Proofs.Grammar.Completeness
import Juxta.Proofs.Grammar.NormalForm
import Juxta.Proofs.Grammar.Statements
import Juxta.Proofs.Grammar.Text
import Juxta.Proofs.Layout.Writing
import Juxta.Proofs.Token.Factorisation

namespace Juxta

/-! ### The tokens of a text -/

/-- What is scanned to its end is spelled out. -/
theorem Cursor.Scans.spells {k : Cursor} {ts : List Token} (h : k.Scans ts none) :
    ∃ ss, ts.map Token.shape = ss ++ [.endOfInput] ∧ Text.Spells k.rest ss := by
  generalize hf : (none : Option ScanError) = f at h
  induction h with
  | @last k k' t hn ht =>
    obtain ⟨hshape, hblank⟩ := Scanner.isBlank_of_isEnd hn ht
    refine ⟨[], by simp [hshape], ?_⟩
    simpa using Text.Spells.nil.append_blank hblank
  | fault => cases hf
  | more hn ht _ ih =>
    obtain ⟨ss, hss, hspells⟩ := ih hf
    obtain ⟨lead, htext, hlead, hlexeme, hends⟩ := Scanner.exists_lead hn ht
    refine ⟨_ :: ss, by rw [List.map_cons, hss, List.cons_append], ?_⟩
    rw [htext]
    exact .append_blank hlead (.lexeme hlexeme hends hspells)

theorem Cursor.Scans.unique {k : Cursor} {ts ts' : List Token} (h : k.Scans ts none)
    (h' : k.Scans ts' none) : ts = ts' := by
  obtain ⟨l, hall⟩ := Scanner.all_of_scans h
  obtain ⟨l', hall'⟩ := Scanner.all_of_scans h'
  rw [hall] at hall'
  cases hall'
  rfl

/-- A text spells one sequence of tokens only. -/
theorem Text.Spells.unique {text : List Char} {ss ss' : List Shape} (h : Spells text ss)
    (h' : Spells text ss') : ss = ss' := by
  obtain ⟨ts, hts, hss⟩ := h.exists_scans (k := .start text none) rfl
  obtain ⟨ts', hts', hss'⟩ := h'.exists_scans (k := .start text none) rfl
  rw [hts.unique hts', hss'] at hss
  exact (List.append_cancel_right hss).symm

/-- The tokens of a text stand in front of the end of input. -/
theorem Text.Spells.exists_tokens {text : List Char} {ss : List Shape} (h : Spells text ss)
    (filename : Option String) :
    ∃ ts last, (Cursor.start text filename).Scans (ts ++ [last]) none ∧ last.isEnd = true ∧
      ts.map Token.shape = ss := by
  obtain ⟨all, hscans, hshapes⟩ := h.exists_scans (k := .start text filename) rfl
  obtain ⟨ts, ending, rfl, hts, hending⟩ := List.map_eq_append_iff.mp hshapes
  obtain ⟨last, rfl, hlast⟩ := List.map_eq_singleton_iff.mp hending
  refine ⟨ts, last, hscans, ?_, hts⟩
  rw [Token.isEnd, Token.kind, hlast]
  rfl

/-! ### Pieces of text and their tokens -/

/-- Wherever the text stands in front of a boundary, its tokens are of the class. -/
def Fragment (text : List Char) (P : List Token → Prop) : Prop :=
  ∃ ss, Layout.Writes text ss ∧ ∀ ts : List Token, ts.map Token.shape = ss → P ts

namespace Fragment

variable {text text' : List Char} {P Q R : List Token → Prop}

theorem imp (h : Fragment text P) (hPQ : ∀ ts, P ts → Q ts) : Fragment text Q := by
  obtain ⟨ss, hwrites, hP⟩ := h
  exact ⟨ss, hwrites, fun ts hts => hPQ ts (hP ts hts)⟩

theorem nil (h : P []) : Fragment [] P := by
  refine ⟨[], Layout.writes_nil, fun ts hts => ?_⟩
  obtain rfl := List.map_eq_nil_iff.mp hts
  exact h

/-- A piece that begins at a boundary may stand behind any other. -/
theorem append (h : Fragment text P) (h' : Fragment text' Q) (hboundary : Text.AtBoundary text')
    (hR : ∀ us vs, P us → Q vs → R (us ++ vs)) : Fragment (text ++ text') R := by
  obtain ⟨ss, hwrites, hP⟩ := h
  obtain ⟨ss', hwrites', hQ⟩ := h'
  refine ⟨ss ++ ss', hwrites.append hwrites' fun rest hrest => hboundary.append hrest, ?_⟩
  intro ts hts
  obtain ⟨us, vs, rfl, hus, hvs⟩ := List.map_eq_append_iff.mp hts
  exact hR us vs (hP us hus) (hQ vs hvs)

theorem blanks (h : Fragment text P) {blank : List Char}
    (hblank : ∀ c ∈ blank, Text.isBlank c = true) : Fragment (blank ++ text) P := by
  obtain ⟨ss, hwrites, hP⟩ := h
  refine ⟨ss, ?_, hP⟩
  intro rest ss' hrest hspells
  rw [List.append_assoc]
  exact .append_blank hblank (hwrites hrest hspells)

theorem blank (h : Fragment text P) {c : Char} (hc : Text.isBlank c = true) :
    Fragment (c :: text) P :=
  h.blanks (List.forall_mem_singleton.mpr hc)

/-- A mark may stand in front of any piece. -/
theorem mark (h : Fragment text P) (p : Punctuation)
    (hQ : ∀ t ts, t.kind = .punctuation p → P ts → Q (t :: ts)) : Fragment (p.char :: text) Q := by
  obtain ⟨ss, hwrites, hP⟩ := h
  refine ⟨.punctuation p :: ss, Layout.writes_mark p hwrites, fun ts hts => ?_⟩
  obtain ⟨t, us, rfl, ht, hus⟩ := List.map_eq_cons_iff.mp hts
  exact hQ t us (congrArg Shape.kind ht) (hP us hus)

/-- A lexeme may stand in front of a piece that begins at a boundary. -/
theorem lexeme (h : Fragment text P) {s : Shape} (hs : s.IsLexeme)
    (hboundary : Text.AtBoundary text) (hQ : ∀ t ts, t.shape = s → P ts → Q (t :: ts)) :
    Fragment (s.lexeme.toList ++ text) Q := by
  have hlexeme : Fragment s.lexeme.toList fun ts => ∃ t, ts = [t] ∧ t.shape = s := by
    refine ⟨[s], Layout.writes_lexeme hs, fun ts hts => ?_⟩
    exact List.map_eq_singleton_iff.mp hts
  refine hlexeme.append h hboundary ?_
  rintro _ vs ⟨t, rfl, ht⟩ hvs
  exact hQ t vs ht hvs

end Fragment

/-! ### Expressions in front of what stops them -/

namespace Grammar

open TokenList

variable {depth depth' : Nat} {e : Expr} {ts rest : List Token}

theorem startsExpression_of_expression (h : expression depth ts = .ok e rest) :
    Kind.startsExpression (kind ts) = true := by
  obtain ⟨us, rfl, hus⟩ := expression_takes depth h
  rw [kind_append (hus.ne_nil rfl)]
  exact hus.generates.follows.startsExpression

/-- A reading in one place is one in all places, and at every greater depth. -/
theorem readsExpression_of_expression (hle : depth ≤ depth') (hrest : Stops rest)
    (h : expression depth (ts ++ rest) = .ok e rest) {ts' : List Token}
    (hts' : ts'.map Token.shape = ts.map Token.shape) :
    ReadsExpression (expression depth') ts' e := by
  intro rest' hrest'
  obtain ⟨us, hus, hcarry⟩ := carries_expression hle h
  obtain rfl := List.append_cancel_right hus
  obtain ⟨e', he', hsame⟩ := hcarry hts' (Or.inr ⟨hrest, hrest'⟩)
  exact ⟨startsExpression_of_expression he', e', he', hsame⟩

theorem ReadsExpression.congr {nested : Reader (List Token) Expr} {e' : Expr}
    (h : ReadsExpression nested ts e) (hsame : e.unlocated = e'.unlocated) :
    ReadsExpression nested ts e' := by
  intro rest hrest
  obtain ⟨hstart, e'', he'', hsame'⟩ := h hrest
  exact ⟨hstart, e'', he'', hsame'.trans hsame⟩

theorem ReadsExpression.mono (h : ReadsExpression (expression depth) ts e)
    (hle : depth ≤ depth') : ReadsExpression (expression depth') ts e := by
  intro rest hrest
  obtain ⟨-, e', he', hsame⟩ := h hrest
  exact (readsExpression_of_expression hle hrest he' rfl).congr hsame hrest

/-- A program is an expression in front of the end of input. -/
theorem expression_of_program (h : program depth ts = .ok e rest) :
    expression depth ts = .ok e rest := by
  rw [program, nextIs_bind] at h
  split at h
  · obtain ⟨e', mid, he, h₁⟩ := bind_eq_ok.mp h
    rw [nextIs_bind] at h₁
    split at h₁
    · obtain ⟨rfl, rfl⟩ := pure_eq_ok.mp h₁
      exact he
    · exact absurd h₁ (refuse_ne_ok _ _ _ _)
  · exact absurd h (refuse_ne_ok _ _ _ _)

end Grammar

/-! ### Texts -/

namespace Program

open Grammar TokenList

variable {depth : Nat} {text : String} {e : Expr}

/-- The text has the tree, up to locations, under one label. -/
def HasTree (depth : Nat) (text : String) (e : Expr) : Prop :=
  ∃ filename e', parseTo depth text filename = .ok e' ∧ e'.unlocated = e.unlocated

/-- The text has the tree, up to locations, under every label, and also where more than `depth`
    expressions may be nested in each other. -/
def ReadsFrom (depth : Nat) (text : String) (e : Expr) : Prop :=
  ∀ depth' ≥ depth, ∀ filename, ∃ e',
    parseTo depth' text filename = .ok e' ∧ e'.unlocated = e.unlocated

/-- Equality of trees, which can be computed, shows that a text has a tree. -/
theorem hasTree_of_same (filename : Option String) (he : e.Everywhere Expr.HasPlainLiteral)
    (h : (parseTo depth text filename).toOption.any (·.same e) = true) :
    HasTree depth text e := by
  cases hparse : parseTo depth text filename with
  | error f =>
    rw [hparse] at h
    cases h
  | ok e' =>
    rw [hparse] at h
    have hplain := hasPlainLiteral_of_parseTo hparse
    exact ⟨filename, e', hparse, (Expr.same_iff e' e hplain he).mp h⟩

/-- **A text that has a tree** has it wherever it stands. -/
theorem HasTree.fragment (h : HasTree depth text e) :
    Fragment text.toList (ReadsExpression (expression depth) · e) := by
  obtain ⟨filename, e', he', hsame⟩ := h
  obtain ⟨ts, last, hscans, hlast, hprogram⟩ := exists_program_of_parseTo he'
  obtain ⟨ss, hss, hspells⟩ := hscans.spells
  have hend : kind [last] = .endOfInput := by simpa [Token.isEnd] using hlast
  rw [List.map_append] at hss
  have hshapes : ts.map Token.shape = ss := List.append_inj_left' hss rfl
  refine ⟨ss, Layout.writes_of_spells hspells, fun ts' hts' => ?_⟩
  have hreads : ReadsExpression (expression depth) ts' e' :=
    readsExpression_of_expression (Nat.le_refl depth) (stops_of_end hend)
      (expression_of_program hprogram) (hts'.trans hshapes.symm)
  exact hreads.congr hsame

/-- A text is read as its tokens are. -/
theorem readsFrom_of_fragment (h : Fragment text.toList (ReadsExpression (expression depth) · e)) :
    ReadsFrom depth text e := by
  obtain ⟨ss, hwrites, hreads⟩ := h
  intro depth' hdepth filename
  obtain ⟨used, last, hscans, hlast, hused⟩ := hwrites.spells.exists_tokens filename
  have hend : kind [last] = .endOfInput := by simpa [Token.isEnd] using hlast
  obtain ⟨hstart, e', he', hsame⟩ := (hreads used hused).mono hdepth (stops_of_end hend)
  exact ⟨e', parseTo_of_scans hscans (program_eq_ok hstart he' hend), hsame⟩

/-- Whether a text is read does not depend on its label. -/
theorem exists_parseTo_iff (depth : Nat) (text : String) (filename filename' : Option String) :
    (∃ e, parseTo depth text filename = .ok e) ↔ ∃ e, parseTo depth text filename' = .ok e := by
  have hrelabel (f g : Option String) (e : Expr) (h : parseTo depth text f = .ok e) :
      ∃ e', parseTo depth text g = .ok e' := by
    have htree : HasTree depth text e := ⟨f, e, h, rfl⟩
    obtain ⟨e', he', -⟩ := readsFrom_of_fragment htree.fragment depth (Nat.le_refl depth) g
    exact ⟨e', he'⟩
  constructor
  · rintro ⟨e, h⟩
    exact hrelabel filename filename' e h
  · rintro ⟨e, h⟩
    exact hrelabel filename' filename e h

end Program

end Juxta
