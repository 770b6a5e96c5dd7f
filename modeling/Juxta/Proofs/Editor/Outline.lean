/-
  Juxta/Proofs/Editor/Outline.lean
  ================================
  **The outline that an editor is sent** — one symbol for each binding of a tree, under the symbol
  of the binding that encloses it.

    * `DocumentSymbol.bindings` reads the bindings off an outline; they are those of the tree but
      for their locations (`bindings_ofBindings`);
    * `DocumentSymbol.listedAll` has the symbols in the order of `Binding.walkAll`;
    * `outline_mirrors`: a binding of a text is shown at its keyword, and a binding without a
      location over as many code units as its name has characters.  Where a character of the
      name takes two code units, the range is too short for the name.
-/
import Juxta.Proofs.Editor.LineEnds

namespace Juxta

/-! ### What is shown -/

namespace Binding

mutual

/-- The binding without its location and those of the bindings in it. -/
def unlocated : Binding → Binding
  | .mk name kind detail _ children => .mk name kind detail none (unlocatedAll children)

def unlocatedAll : List Binding → List Binding
  | [] => []
  | b :: bs => unlocated b :: unlocatedAll bs

end

end Binding

namespace Editor.DocumentSymbol

mutual

/-- The binding that a symbol shows, without its location. -/
def binding : DocumentSymbol → Binding
  | .mk name kind detail _ children => .mk name kind detail none (bindings children)

def bindings : List DocumentSymbol → List Binding
  | [] => []
  | s :: ss => binding s :: bindings ss

end

mutual

theorem binding_ofBinding (lines : List (List Char)) :
    (b : Binding) → binding (ofBinding lines b) = b.unlocated
  | .mk name kind detail location children => by
    rw [ofBinding, binding, bindings_ofBindings lines children, Binding.unlocated]

/-- Each binding is shown, and nothing else. -/
theorem bindings_ofBindings (lines : List (List Char)) :
    (bs : List Binding) → bindings (ofBindings lines bs) = Binding.unlocatedAll bs
  | [] => rfl
  | b :: bs => by
    rw [ofBindings, bindings, binding_ofBinding lines b, bindings_ofBindings lines bs,
      Binding.unlocatedAll]

end

/-! ### Symbols in order -/

mutual

/-- A symbol and those in it, in pre-order. -/
def listed : DocumentSymbol → List DocumentSymbol
  | .mk name kind detail range children => .mk name kind detail range children :: listedAll children

def listedAll : List DocumentSymbol → List DocumentSymbol
  | [] => []
  | s :: ss => listed s ++ listedAll ss

end

mutual

theorem map_listed_ofBinding (lines : List (List Char)) (above : List Binding.Label) :
    (b : Binding) → (listed (ofBinding lines b)).map (fun s => (s.name, s.range)) =
      (b.walk above).map fun p => (p.2.name, rangeOfLabel lines p.2)
  | .mk name kind detail location children => by
    rw [ofBinding, listed, List.map_cons, map_listedAll_ofBindings lines _ children, Binding.walk]
    rfl

/-- The symbols come in the order of the bindings, each with its name and its range. -/
theorem map_listedAll_ofBindings (lines : List (List Char)) (above : List Binding.Label) :
    (bs : List Binding) → (listedAll (ofBindings lines bs)).map (fun s => (s.name, s.range)) =
      (Binding.walkAll above bs).map fun p => (p.2.name, rangeOfLabel lines p.2)
  | [] => rfl
  | b :: bs => by
    rw [ofBindings, listedAll, List.map_append, map_listed_ofBinding lines above b,
      map_listedAll_ofBindings lines above bs, Binding.walkAll, List.map_append]

end

/-- Symbols and bindings, one by one. -/
theorem forall₂_listedAll_ofTree (text : String) (e : Expr) :
    List.Forall₂ (fun s p => s.name = p.2.name ∧
        s.range = rangeOfLabel (Text.splitNewlines text.toList) p.2)
      (listedAll (ofTree text e)) (Binding.walkAll [] e.bindings) := by
  have hlisted := map_listedAll_ofBindings (Text.splitNewlines text.toList) [] e.bindings
  rw [← List.forall₂_eq_eq_eq, List.forall₂_map_left_iff, List.forall₂_map_right_iff] at hlisted
  exact hlisted.imp fun s p h => Prod.mk.inj h

theorem map_range_listedAll_ofTree (text : String) (e : Expr) :
    (listedAll (ofTree text e)).map range =
      (Binding.walkAll [] e.bindings).map fun p =>
        rangeOfLabel (Text.splitNewlines text.toList) p.2 := by
  have hlisted := map_listedAll_ofBindings (Text.splitNewlines text.toList) [] e.bindings
  have hranges := congrArg (List.map Prod.snd) hlisted
  rw [List.map_map, List.map_map] at hranges
  exact hranges

/-! ### Where symbols are shown -/

/-- A name is marked over all of its code units unless one of its characters takes two. -/
theorem onLine_length_eq_iff (name : String) :
    Range.onLine 0 0 name.length = .onLine 0 0 (Text.width16 name.toList) ↔
      ∀ c ∈ name.toList, c.toNat < 0x10000 := by
  rw [← Text.length_eq_width16_iff, String.length_toList]
  constructor
  · intro h
    exact congrArg (fun range : Range => range.stop.character) h
  · intro h
    rw [← h]

/-- The range of a keyword that stands in a text covers it. -/
theorem covers_keyword {text : List Char} {n : Nat} {k : Keyword} (filename : Option String)
    (h : (text.drop n).take k.lexeme.length = k.lexeme.toList) :
    (Range.ofLocation (Text.locationAt text filename n k.lexeme.length)
      (Text.splitNewlines text)).Covers text n k.lexeme.toList := by
  have hne : k.lexeme.toList ≠ [] := by cases k <;> decide
  have hn : n ≤ text.length := Keyword.le_length_of_take_drop h
  have hprefix : k.lexeme.toList <+: text.drop n := by
    rw [← h]
    exact List.take_prefix _ _
  refine Range.covers_ofLocation hn filename hprefix (fun hnil => absurd hnil hne) ?_
  rw [String.length_toList]

/-- The symbols of a text are shown at the keywords with which its bindings begin. -/
theorem exists_covered_of_parseTo {depth : Nat} {text : String} {filename : Option String}
    {e : Expr} (h : Program.parseTo depth text filename = .ok e) :
    ∃ marks : List (Keyword × Nat),
      e.nodes.filterMap Expr.bindingKeyword? = marks.map (·.1) ∧
      (Binding.walkAll [] e.bindings).map (·.2.location) = marks.map (fun m =>
        some (Text.locationAt text.toList filename m.2 m.1.lexeme.length)) ∧
      List.Forall₂ (fun s m => s.range.Covers text.toList m.2 m.1.lexeme.toList)
        (listedAll (ofTree text e)) marks := by
  obtain ⟨marks, hmarks, htext, -⟩ := Expr.exists_marks_of_parseTo h
  have hlocations := Expr.locations_eq_of_bindingSigns hmarks
  have hcovers : List.Forall₂ (fun range m => range.Covers text.toList m.2 m.1.lexeme.toList)
      ((listedAll (ofTree text e)).map range) marks := by
    have hpairs := hlocations
    rw [← List.forall₂_eq_eq_eq, List.forall₂_map_left_iff, List.forall₂_map_right_iff,
      List.forall₂_iff_zip] at hpairs
    obtain ⟨hlength, hlocation⟩ := hpairs
    rw [map_range_listedAll_ofTree, List.forall₂_map_left_iff, List.forall₂_iff_zip]
    refine ⟨hlength, fun {p m} hpair => ?_⟩
    rw [rangeOfLabel_of_location (hlocation hpair)]
    exact covers_keyword filename (htext m (List.of_mem_zip hpair).2)
  exact ⟨marks, Expr.keywords_eq_of_bindingSigns hmarks, hlocations,
    List.forall₂_map_left_iff.mp hcovers⟩

/-- **An outline mirrors the bindings of a tree**, symbol by symbol, and the whole range of a
    symbol is selected.  If the tree comes from the text, each symbol is at the keyword with which
    its binding begins.  A symbol whose binding has no location spans as many code units as its
    name has characters; they are those of the name exactly if each character takes one. -/
theorem outline_mirrors (text : String) (e : Expr) :
    bindings (ofTree text e) = Binding.unlocatedAll e.bindings ∧
    (∀ depth filename, Program.parseTo depth text filename = .ok e →
      ∃ marks : List (Keyword × Nat),
        e.nodes.filterMap Expr.bindingKeyword? = marks.map (·.1) ∧
        (Binding.walkAll [] e.bindings).map (·.2.location) = marks.map (fun m =>
          some (Text.locationAt text.toList filename m.2 m.1.lexeme.length)) ∧
        List.Forall₂ (fun s m => s.selectionRange = s.range ∧
            s.range.Covers text.toList m.2 m.1.lexeme.toList)
          (listedAll (ofTree text e)) marks) ∧
    List.Forall₂ (fun s p => s.name = p.2.name ∧ (p.2.location = none →
        s.selectionRange = s.range ∧ s.range = .onLine 0 0 s.name.length ∧
        (s.range = .onLine 0 0 (Text.width16 s.name.toList) ↔
          ∀ c ∈ s.name.toList, c.toNat < 0x10000)))
      (listedAll (ofTree text e)) (Binding.walkAll [] e.bindings) := by
  refine ⟨bindings_ofBindings _ _, fun depth filename h => ?_, ?_⟩
  · obtain ⟨marks, hkeywords, hlocations, hcovers⟩ := exists_covered_of_parseTo h
    exact ⟨marks, hkeywords, hlocations, hcovers.imp fun s m hs => ⟨rfl, hs⟩⟩
  · refine (forall₂_listedAll_ofTree text e).imp fun s p hs => ⟨hs.1, fun hnone => ?_⟩
    obtain ⟨hname, hrange⟩ := hs
    rw [rangeOfLabel_of_none hnone, ← hname] at hrange
    refine ⟨rfl, hrange, ?_⟩
    rw [hrange]
    exact onLine_length_eq_iff s.name

/-- A name with a character of two code units, bound where there is no text, and a keyword behind
    such a character. -/
theorem not_outline_mirrors_astralName :
    (∃ s, listedAll (ofTree "" (.assignment false "𝒳" (.literal (.integer 1) none) none)) = [s] ∧
      s.range = .onLine 0 0 1 ∧ s.range ≠ .onLine 0 0 (Text.width16 "𝒳".toList)) ∧
    ∃ e s, Program.parseTo 200 "𝒳 (let x 1)" = .ok e ∧
      listedAll (ofTree "𝒳 (let x 1)" e) = [s] ∧
      s.range = .onLine 0 4 7 ∧ s.range.Covers "𝒳 (let x 1)".toList 3 "let".toList := by
  constructor
  · obtain ⟨-, -, hlisted⟩ :=
      outline_mirrors "" (.assignment false "𝒳" (.literal (.integer 1) none) none)
    obtain ⟨-, hrange⟩ := (List.forall₂_cons.mp hlisted).1
    obtain ⟨-, hlength, hexact⟩ := hrange rfl
    refine ⟨_, rfl, hlength, fun h => ?_⟩
    exact absurd (hexact.mp h '𝒳' (by decide)) (by decide)
  · have hread : ((Program.parseTo 200 "𝒳 (let x 1)").toOption.map fun e =>
        ((listedAll (ofTree "𝒳 (let x 1)" e)).map range,
          (Binding.walkAll [] e.bindings).map (·.2.location),
          e.nodes.filterMap Expr.bindingKeyword?)) =
        some ([.onLine 0 4 7], [some ⟨1, 4, 3, 3, none⟩], [.binding]) := by decide +kernel
    cases hparse : Program.parseTo 200 "𝒳 (let x 1)" with
    | error err =>
      rw [hparse] at hread
      cases hread
    | ok e =>
      rw [hparse] at hread
      obtain ⟨hranges, hparts⟩ := Prod.mk.inj (Option.some.inj hread)
      obtain ⟨hplaces, hwords⟩ := Prod.mk.inj hparts
      obtain ⟨s, hs, hrange⟩ := List.map_eq_singleton_iff.mp hranges
      obtain ⟨marks, hkeywords, hlocations, hcovers⟩ :=
        (outline_mirrors "𝒳 (let x 1)" e).2.1 200 none hparse
      rw [hs] at hcovers
      rw [hwords] at hkeywords
      rw [hplaces] at hlocations
      obtain ⟨⟨k, n⟩, rfl, hk⟩ := List.map_eq_singleton_iff.mp hkeywords.symm
      obtain rfl : k = .binding := hk
      obtain ⟨hlocation, -⟩ := List.cons.inj hlocations
      obtain rfl : n = 3 := by
        have hoffset := congrArg Location.offset (Option.some.inj hlocation)
        exact (Int.ofNat.inj hoffset).symm
      exact ⟨e, s, rfl, hs, hrange, (List.forall₂_cons.mp hcovers).1.2⟩

end Editor.DocumentSymbol

end Juxta
