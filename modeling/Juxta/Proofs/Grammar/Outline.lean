/-
  Juxta/Proofs/Grammar/Outline.lean
  =================================
  **The outline of a text** — the bindings of a tree are listed in the order in which the walk
  through the tree meets them.  If the tree comes from a text, this is the order of the text:

    * `Cursor.Scans.inOrder`: each token begins behind the one before it;
    * `Accounts.exists_sublist`: some of the signs of a tree belong to some of its tokens, in the
      same order; here these are the keywords with which bindings begin;
    * `Expr.bindings_outline` says what the bindings of any tree are, and where those of a text
      stand in it.
-/
import Juxta.Proofs.Expr.Outline
import Juxta.Proofs.Grammar.Account
import Juxta.Proofs.Grammar.Excerpt

namespace Juxta

/-! ### Tokens in order -/

namespace Scanner

variable {text : List Char} {filename : Option String} {start stop : Nat}

theorem StandsAt.lt_stop {t : Token} (h : StandsAt text filename (.ok t) start stop)
    (ht : t.isEnd = false) : start < stop := by
  cases h with
  | token hlexeme =>
    have hpos := hlexeme.length_pos
    omega
  | endOfInput => cases ht

end Scanner

theorem Scanner.StandsAt.offset_eq {text : List Char} {filename : Option String} {t : Token}
    {start stop : Nat} (h : StandsAt text filename (.ok t) start stop) :
    t.location.offset = start := by
  obtain ⟨length, hlocation⟩ := h.location_eq
  rw [hlocation]
  rfl

/-- The token begins behind `n` characters of the text or later. -/
def Token.BeginsIn (text : List Char) (filename : Option String) (n : Nat) (t : Token) : Prop :=
  ∃ start stop, n ≤ start ∧ Scanner.StandsAt text filename (.ok t) start stop

theorem Token.BeginsIn.le_offset {text : List Char} {filename : Option String} {t : Token}
    {n : Nat} (h : t.BeginsIn text filename n) : (n : Int) ≤ t.location.offset := by
  obtain ⟨start, stop, hstart, hstands⟩ := h
  rw [hstands.offset_eq]
  exact Int.ofNat_le.mpr hstart

theorem Token.BeginsIn.mono {text : List Char} {filename : Option String} {t : Token}
    {m n : Nat} (h : t.BeginsIn text filename n) (hm : m ≤ n) : t.BeginsIn text filename m := by
  obtain ⟨start, stop, hstart, hstands⟩ := h
  exact ⟨start, stop, Nat.le_trans hm hstart, hstands⟩

/-- The tokens of a scan stand in the text, each behind the one before it. -/
theorem Cursor.Scans.inOrder {text : List Char} {filename : Option String} {n : Nat}
    {k : Cursor} {ts : List Token} {f : Option ScanError} (h : k.Scans ts f)
    (hn : n ≤ text.length) (hk : k = .behind text filename n) :
    (∀ t ∈ ts, t.BeginsIn text filename n) ∧
      ts.Pairwise fun t u => t.location.offset < u.location.offset := by
  induction h generalizing n with
  | last hnext =>
    rw [hk] at hnext
    obtain ⟨start, stop, hstart, -, -, hstands⟩ := Scanner.exists_standsAt_of_next hn hnext
    constructor
    · intro t ht
      rw [List.mem_singleton.mp ht]
      exact ⟨start, stop, hstart, hstands⟩
    · exact List.pairwise_singleton _ _
  | fault => exact ⟨nofun, .nil⟩
  | more hnext ht _ ih =>
    rw [hk] at hnext
    obtain ⟨start, stop, hstart, hstop, hafter, hstands⟩ :=
      Scanner.exists_standsAt_of_next hn hnext
    obtain ⟨hlater, hpairwise⟩ := ih hstop hafter
    have hlt := hstands.lt_stop ht
    constructor
    · intro u hu
      rcases List.mem_cons.mp hu with rfl | hu
      · exact ⟨start, stop, hstart, hstands⟩
      · exact (hlater u hu).mono (by omega)
    · refine List.pairwise_cons.mpr ⟨?_, hpairwise⟩
      intro u hu
      have hle := (hlater u hu).le_offset
      rw [hstands.offset_eq]
      omega

/-! ### Tokens of bindings -/

/-- Some of the signs that account for tokens belong to some of the tokens. -/
theorem Accounts.exists_sublist {ts : List Token} {ss rs : List (Sign × Option Location)}
    (h : Accounts ts ss) (hrs : rs.Sublist ss) :
    ∃ us, us.Sublist ts ∧
      List.Forall₂ (fun t s => t.shape.sign? = some s.1 ∧ ∀ l ∈ s.2, l = t.location) us rs := by
  induction h generalizing rs with
  | nothing =>
    obtain rfl := List.sublist_nil.mp hrs
    exact ⟨[], .slnil, .nil⟩
  | vanished _ _ _ ih =>
    obtain ⟨us, hus, hrel⟩ := ih hrs
    exact ⟨us, hus.cons _, hrel⟩
  | sign ht hl _ ih =>
    cases hrs with
    | cons _ hrs =>
      obtain ⟨us, hus, hrel⟩ := ih hrs
      exact ⟨us, hus.cons _, hrel⟩
    | cons_cons _ hrs =>
      obtain ⟨us, hus, hrel⟩ := ih hrs
      exact ⟨_ :: us, hus.cons_cons _, .cons ⟨ht, hl⟩ hrel⟩

/-- A keyword of a text is the text at its location. -/
theorem Token.BeginsIn.keyword {text : List Char} {filename : Option String} {n : Nat} {t : Token}
    {k : Keyword} (h : t.BeginsIn text filename n) (ht : t.shape.sign? = some (.keyword k)) :
    ∃ start, t.location = Text.locationAt text filename start k.lexeme.length ∧
      (text.drop start).take k.lexeme.length = k.lexeme.toList := by
  obtain ⟨start, stop, -, hstands⟩ := h
  cases hstands with
  | @token s _ hlexeme hprefix =>
    obtain rfl : s = .keyword k := by
      have hkind := Shape.sign?_eq_keyword.mp ht
      cases s <;> cases hkind
      rfl
    obtain ⟨after, hafter⟩ := hprefix
    refine ⟨start, rfl, ?_⟩
    rw [← hafter, ← String.length_toList]
    exact List.take_left
  | endOfInput => cases ht

/-- A keyword that is a part of a text does not begin behind its end. -/
theorem Keyword.le_length_of_take_drop {text : List Char} {n : Nat} {k : Keyword}
    (h : (text.drop n).take k.lexeme.length = k.lexeme.toList) : n ≤ text.length := by
  by_contra hlt
  rw [List.drop_of_length_le (Nat.le_of_not_le hlt), List.take_nil] at h
  revert h
  cases k <;> decide

namespace Expr

/-- A node of a text that binds a name is somewhere in the text. -/
theorem LocatedIn.exists_location {ts : List Token} {n : Expr} {k : Keyword}
    (h : n.LocatedIn ts) (hk : n.bindingKeyword? = some k) : ∃ l, n.location = some l := by
  cases n with
  | function name =>
    obtain ⟨t, -, -, -, -, -, -, -, -, hl⟩ := h
    exact ⟨t.location, hl⟩
  | assignment =>
    obtain ⟨t, -, -, -, -, -, -, hl⟩ := h
    exact ⟨t.location, hl⟩
  | _ => cases hk

theorem exists_of_mem_bindingSigns {ns : List Expr} {s : Sign × Option Location}
    (h : s ∈ bindingSigns ns) : ∃ n ∈ ns, ∃ k, n.bindingKeyword? = some k ∧
      s = (.keyword k, n.location) := by
  obtain ⟨n, hn, hs⟩ := List.mem_filterMap.mp h
  obtain ⟨k, hk, hs⟩ := Option.map_eq_some_iff.mp hs
  exact ⟨n, hn, k, hk, hs.symm⟩

/-- Keywords with the numbers of characters in front of them, and what they are as signs. -/
def markSigns (text : List Char) (filename : Option String) (marks : List (Keyword × Nat)) :
    List (Sign × Option Location) :=
  marks.map fun m =>
    (.keyword m.1, some (Text.locationAt text filename m.2 m.1.lexeme.length))

/-- Signs that are keywords, and belong to tokens of a text, are keywords of the text. -/
theorem exists_marks {text : List Char} {filename : Option String} {us : List Token}
    {rs : List (Sign × Option Location)}
    (h : List.Forall₂ (fun t s => t.shape.sign? = some s.1 ∧ ∀ l ∈ s.2, l = t.location) us rs)
    (hus : ∀ t ∈ us, t.BeginsIn text filename 0)
    (hrs : ∀ s ∈ rs, ∃ k l, s = (.keyword k, some l)) :
    ∃ marks : List (Keyword × Nat), rs = markSigns text filename marks ∧
      us.map (·.location.offset) = marks.map (fun m => (m.2 : Int)) ∧
      ∀ m ∈ marks, (text.drop m.2).take m.1.lexeme.length = m.1.lexeme.toList := by
  induction h with
  | nil => exact ⟨[], rfl, rfl, nofun⟩
  | @cons t s us rs hts _ ih =>
    obtain ⟨htoken, hus⟩ := List.forall_mem_cons.mp hus
    obtain ⟨⟨k, l, rfl⟩, hlater⟩ := List.forall_mem_cons.mp hrs
    obtain ⟨marks, rfl, hoffsets, htext⟩ := ih hus hlater
    obtain ⟨start, hlocation, hstart⟩ := htoken.keyword hts.1
    obtain rfl : l = t.location := hts.2 l rfl
    refine ⟨(k, start) :: marks, ?_, ?_, List.forall_mem_cons.mpr ⟨hstart, htext⟩⟩
    · rw [hlocation]
      rfl
    · rw [List.map_cons, hoffsets, hlocation]
      rfl

/-- The keywords with which the bindings of a text begin. -/
theorem exists_marks_of_parseTo {depth : Nat} {text : String} {filename : Option String}
    {e : Expr} (h : Program.parseTo depth text filename = .ok e) :
    ∃ marks : List (Keyword × Nat),
      bindingSigns e.nodes = markSigns text.toList filename marks ∧
      (∀ m ∈ marks, (text.toList.drop m.2).take m.1.lexeme.length = m.1.lexeme.toList) ∧
      marks.Pairwise fun m m' => m.2 < m'.2 := by
  obtain ⟨ts, last, hscans, -, hbuilds⟩ := Program.exists_scans_of_parseTo h
  have hlocated : ∀ s ∈ bindingSigns e.nodes, ∃ k l, s = (.keyword k, some l) := by
    intro s hs
    obtain ⟨n, hn, k, hk, rfl⟩ := exists_of_mem_bindingSigns hs
    obtain ⟨l, hl⟩ := (hbuilds.locatedIn n hn).exists_location hk
    exact ⟨k, l, by rw [hl]⟩
  have hstart : Cursor.start text.toList filename = .behind text.toList filename 0 := rfl
  obtain ⟨hbegin, hpairwise⟩ := hscans.inOrder (Nat.zero_le _) hstart
  obtain ⟨us, hsub, hrel⟩ := hbuilds.accounts.exists_sublist (bindingSigns_sublist e)
  have hsub : us.Sublist (ts ++ [last]) := hsub.trans (List.sublist_append_left _ _)
  obtain ⟨marks, hmarks, hoffsets, htext⟩ :=
    exists_marks hrel (fun t ht => hbegin t (hsub.subset ht)) hlocated
  refine ⟨marks, hmarks, htext, ?_⟩
  have hsorted : (us.map (·.location.offset)).Pairwise (· < ·) :=
    List.pairwise_map.mpr (hpairwise.sublist hsub)
  rw [hoffsets, List.pairwise_map] at hsorted
  exact hsorted.imp Int.ofNat_lt.mp

/-! ### Bindings in the order of the source -/

/-- The bindings are at the locations of the nodes that bind a name. -/
theorem map_location_walkAll_bindings (e : Expr) :
    (Binding.walkAll [] e.bindings).map (·.2.location) = (bindingSigns e.nodes).map (·.2) := by
  have hwalk : Binding.walkAll [] e.bindings = (e.walk []).filterMap shown :=
    walkAll_bindings [] e
  calc (Binding.walkAll [] e.bindings).map (·.2.location)
      = (e.walk []).filterMap fun p => p.2.label?.map Binding.Label.location := by
        rw [hwalk, List.map_filterMap]
        apply List.filterMap_congr
        intro p _
        rw [shown, Option.map_map]
        rfl
    _ = ((e.walk []).map (·.2)).filterMap fun n => n.bindingKeyword?.map fun _ => n.location := by
        rw [List.filterMap_map]
        apply List.filterMap_congr
        intro p _
        exact label?_map_location p.2
    _ = (bindingSigns e.nodes).map (·.2) := by
        rw [map_snd_walk, bindingSigns, List.map_filterMap]
        apply List.filterMap_congr
        intro n _
        rw [Option.map_map]
        rfl

theorem map_keyword_bindingSigns (ns : List Expr) :
    (bindingSigns ns).map (·.1) = (ns.filterMap bindingKeyword?).map .keyword := by
  rw [bindingSigns, List.map_filterMap, List.map_filterMap]
  apply List.filterMap_congr
  intro n _
  rw [Option.map_map]
  rfl

theorem keywords_eq_of_bindingSigns {text : List Char} {filename : Option String} {e : Expr}
    {marks : List (Keyword × Nat)} (h : bindingSigns e.nodes = markSigns text filename marks) :
    e.nodes.filterMap bindingKeyword? = marks.map (·.1) := by
  have hkeywords := congrArg (List.map (·.1)) h
  rw [map_keyword_bindingSigns, markSigns, List.map_map] at hkeywords
  have hinjective : Function.Injective Sign.keyword := by
    rintro k k' ⟨⟩
    rfl
  apply hinjective.list_map
  rw [hkeywords, List.map_map]
  rfl

theorem locations_eq_of_bindingSigns {text : List Char} {filename : Option String} {e : Expr}
    {marks : List (Keyword × Nat)} (h : bindingSigns e.nodes = markSigns text filename marks) :
    (Binding.walkAll [] e.bindings).map (·.2.location) = marks.map (fun m =>
      some (Text.locationAt text filename m.2 m.1.lexeme.length)) := by
  rw [map_location_walkAll_bindings, h, markSigns, List.map_map]
  rfl

/-- **The bindings of a tree are the one outline whose walk is that of the tree**, of which only
    the nodes that bind a name are shown.  In a text they begin with their keywords, one behind
    the other. -/
theorem bindings_outline (e : Expr) :
    (∀ bs, Binding.walkAll [] bs = (e.walk []).filterMap shown ↔ bs = e.bindings) ∧
    (∀ n ∈ e.nodes, ∀ label, n.label? = some label →
      (label.kind = .function ↔ n.isFunction = true ∨
        ∃ r name value l, n = .assignment r name value l ∧ value.isFunction = true)) ∧
    ∀ depth text filename, Program.parseTo depth text filename = .ok e →
      ∃ marks : List (Keyword × Nat),
        e.nodes.filterMap bindingKeyword? = marks.map (·.1) ∧
        (Binding.walkAll [] e.bindings).map (·.2.location) = marks.map (fun m =>
          some (Text.locationAt text.toList filename m.2 m.1.lexeme.length)) ∧
        (∀ m ∈ marks, (text.toList.drop m.2).take m.1.lexeme.length = m.1.lexeme.toList) ∧
        marks.Pairwise fun m m' => m.2 < m'.2 := by
  refine ⟨fun bs => ?_, fun n _ label hlabel => label?_kind hlabel, fun depth text filename h => ?_⟩
  · have hwalk : Binding.walkAll [] e.bindings = (e.walk []).filterMap shown :=
      walkAll_bindings [] e
    constructor
    · intro hbs
      exact Binding.walkAll_injective bs e.bindings (hbs.trans hwalk.symm)
    · rintro rfl
      exact hwalk
  · obtain ⟨marks, hmarks, htext, hsorted⟩ := exists_marks_of_parseTo h
    refine ⟨marks, keywords_eq_of_bindingSigns hmarks, ?_, htext, hsorted⟩
    rw [map_location_walkAll_bindings, hmarks, markSigns, List.map_map]
    rfl

/-- Bindings in an operator, in its extra argument and in a function without a name, each with the
    names of those above it, its own name and its kind. -/
theorem bindings_outline_chain :
    ∃ e, Program.parseTo 200 "f (let a 1) `(letrec b fn (x) let c x) (fn (y) fn d y)!" = .ok e ∧
      (Binding.walkAll [] e.bindings).map (fun p => (p.1.map (·.name), p.2.name, p.2.kind)) =
        [([], "a", .variable), ([], "b", .function), (["b"], "c", .variable),
          ([], "d", .function)] ∧
      ∃ marks : List (Keyword × Nat),
        (Binding.walkAll [] e.bindings).map (·.2.location) = marks.map (fun m =>
          some (Text.locationAt "f (let a 1) `(letrec b fn (x) let c x) (fn (y) fn d y)!".toList
            none m.2 m.1.lexeme.length)) ∧
        marks.map (·.1) = [.binding, .recursiveBinding, .binding, .function] ∧
        marks.Pairwise fun m m' => m.2 < m'.2 := by
  have hnames : ((Program.parseTo 200
      "f (let a 1) \x60(letrec b fn (x) let c x) (fn (y) fn d y)!").toOption.map fun e =>
        ((Binding.walkAll [] e.bindings).map fun p => (p.1.map (·.name), p.2.name, p.2.kind),
          e.nodes.filterMap bindingKeyword?)) =
      some ([([], "a", .variable), ([], "b", .function), (["b"], "c", .variable),
          ([], "d", .function)],
        [.binding, .recursiveBinding, .binding, .function]) := by decide +kernel
  cases h : Program.parseTo 200
      "f (let a 1) \x60(letrec b fn (x) let c x) (fn (y) fn d y)!" with
  | error failure =>
    rw [h] at hnames
    cases hnames
  | ok e =>
    rw [h] at hnames
    obtain ⟨hwalk, hkeywords⟩ := Prod.mk.inj (Option.some.inj hnames)
    obtain ⟨marks, hmarks, hlocations, -, hsorted⟩ := (bindings_outline e).2.2 _ _ _ h
    exact ⟨e, rfl, hwalk, marks, hlocations, hmarks.symm.trans hkeywords, hsorted⟩

end Expr

end Juxta
