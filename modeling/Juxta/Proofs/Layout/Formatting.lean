/-
  Juxta/Proofs/Layout/Formatting.lean
  ===================================
  **Programs that are read can be formatted**, but for decimal literals that overflow: of all
  that keeps a tree from being written, a tree that was read can only hold a decimal literal
  whose value is rounded to infinity (`Program.format_ok_iff`).

  No binding is an operand in such a tree, so that the first blemish is that of the first literal
  with one (`Expr.blemish?_eq_findSome?`); and the literals of the tree are those of the tokens
  (`Expr.exists_literal_iff`).
-/
import Juxta.Proofs.Decimal.Range
import Juxta.Proofs.Grammar.Account
import Juxta.Proofs.Layout.RoundTrip

namespace Juxta

namespace Expr

/-! ### The first blemish -/

/-- What keeps a literal from being written. -/
def literalBlemish? : Expr → Option FormatError
  | .literal v location => v.problem?.map (⟨·, location⟩)
  | _ => none

/-- No operand of the node is a binding. -/
def HasOperands (n : Expr) : Prop := ∀ x ∈ n.operands, x.isAssignment = false

theorem Place.blame?_eq_literalBlemish? {p : Place}
    (h : p.operand = true → p.node.isAssignment = false) :
    p.blame? = p.node.literalBlemish? := by
  obtain ⟨n, operand⟩ := p
  cases n with
  | assignment _ _ _ _ =>
    cases operand with
    | false => rfl
    | true => cases h rfl
  | _ => rfl

/-- Without bindings as operands the first blemish is that of a literal. -/
theorem blemish?_eq_findSome? (e : Expr) (h : e.Everywhere HasOperands) :
    e.blemish? = e.nodes.findSome? literalBlemish? := by
  rw [blemish?_eq_findSome?_places, ← e.map_node_places, ← List.head?_filterMap,
    ← List.head?_filterMap, List.filterMap_map]
  refine congrArg List.head? (List.filterMap_congr fun p hp => ?_)
  obtain ⟨x, operand⟩ := p
  refine Place.blame?_eq_literalBlemish? fun hoperand => ?_
  obtain rfl : operand = true := hoperand
  obtain ⟨n, hn, hx⟩ := mem_places_operand.mp hp
  exact h n hn x hx

/-! ### The literals of a tree -/

theorem value_mem_ownSigns {n : Expr} {v : Literal} :
    .content (.value v) ∈ n.ownSigns ↔ n.literal? = some v := by
  cases n with
  | literal w _ => simp [ownSigns, literal?, eq_comm]
  | block b _ _ => cases b <;> simp [ownSigns, literal?]
  | _ => simp [ownSigns, literal?]

/-- The literals of a tree are those of the tokens that it accounts for. -/
theorem AccountsFor.exists_literal_iff {e : Expr} {ts : List Token} (h : e.AccountsFor ts)
    (v : Literal) :
    (∃ n ∈ e.nodes, n.literal? = some v) ↔ ∃ t ∈ ts, t.shape.literal? = some v := by
  have hsigns : Sign.content (.value v) ∈ e.signs.map (·.1) ↔
      ∃ n ∈ e.nodes, n.literal? = some v := by
    rw [← List.one_le_count_iff, count_signs, List.one_le_count_iff]
    simp [value_mem_ownSigns]
  have hreading : Content.value v ∈ e.reading ↔ Sign.content (.value v) ∈ e.signs.map (·.1) := by
    simp only [Expr.reading, List.mem_filterMap, List.mem_map]
    refine exists_congr fun s => and_congr_right fun _ => ?_
    cases s.1 <;> simp [Sign.content?]
  rw [← hsigns, ← hreading, h.reading, List.mem_filterMap]
  refine exists_congr fun t => and_congr_right fun _ => ?_
  cases t.shape <;> simp [Shape.content?, Shape.literal?]

end Expr

/-! ### Decimal literals that overflow -/

/-- A decimal literal whose value is half a unit above the largest number, or more. -/
def Shape.Overflows : Shape → Prop
  | .decimal whole fraction =>
    Binary64.overflow * 10 ^ fraction.length ≤
      Nat.ofDigitChars 10 (whole.toList ++ fraction.toList) 0
  | _ => False

theorem Shape.literal?_eq_infinity_iff {s : Shape} :
    s.literal? = some (.decimal (.infinity false)) ↔ s.Overflows := by
  cases s with
  | decimal whole fraction =>
    have hvalue := Numeral.toBinary64_ofDigits_eq_infinity_iff whole.toList fraction.toList
    rw [String.length_toList] at hvalue
    simpa [literal?, Overflows] using hvalue
  | _ => simp [literal?, Overflows]

theorem Literal.Normal.problem?_eq {v : Literal} (h : v.Normal) {p : FormatProblem} :
    v.problem? = some p ↔ v = .decimal (.infinity false) ∧ p = .decimal (.infinity false) := by
  cases v with
  | integer n =>
    have hn : ¬ n < 0 := Int.not_lt.mpr h
    simp [problem?, hn]
  | decimal x =>
    cases x with
    | nan => cases h
    | infinity negative =>
      obtain rfl : negative = false := h
      simp [problem?, Binary64.isFinite, eq_comm]
    | finite negative m =>
      obtain rfl : negative = false := h
      simp [problem?, Binary64.isFinite, Binary64.isNegative]
  | text s =>
    have hs : ¬ ('"' ∈ s.toList ∧ '\'' ∈ s.toList) := h
    simp [problem?, String.contains_char_eq]
    tauto
  | truth b => cases h

/-- Of the literals in normal form only infinity is in the way. -/
theorem Expr.Normal.literalBlemish?_eq {n : Expr} (h : n.Normal) :
    n.literalBlemish? = if n.literal? = some (.decimal (.infinity false)) then
      some ⟨.decimal (.infinity false), n.location⟩ else none := by
  cases n with
  | literal v l =>
    have hproblem := fun p => (h.literal v rfl).problem?_eq (p := p)
    by_cases hv : v = .decimal (.infinity false)
    · rw [literalBlemish?, literal?, (hproblem _).mpr ⟨hv, rfl⟩, if_pos (congrArg some hv)]
      rfl
    · have hnone : v.problem? = none :=
        Option.eq_none_iff_forall_ne_some.mpr fun p hp => hv ((hproblem p).mp hp).1
      rw [literalBlemish?, literal?, hnone, if_neg fun hsome => hv (Option.some.inj hsome)]
      rfl
  | _ => simp [literalBlemish?, literal?]

theorem Expr.Everywhere.blemish?_eq {e : Expr} (h : e.Everywhere Normal) :
    e.blemish? = e.nodes.findSome? literalBlemish? :=
  e.blemish?_eq_findSome? fun n hn => (h n hn).operands

/-- A tree in normal form can be written unless it accounts for a decimal literal that
    overflows. -/
theorem Expr.Everywhere.blemish?_eq_none_iff {e : Expr} (h : e.Everywhere Normal) {ts : List Token}
    (haccounts : e.AccountsFor ts) : e.blemish? = none ↔ ∀ t ∈ ts, ¬ t.shape.Overflows := by
  have hliteral := haccounts.exists_literal_iff (.decimal (.infinity false))
  simp only [Shape.literal?_eq_infinity_iff] at hliteral
  rw [h.blemish?_eq, List.findSome?_eq_none_iff]
  constructor
  · intro hnone t ht hover
    obtain ⟨n, hn, hinfinite⟩ := hliteral.mpr ⟨t, ht, hover⟩
    have hfound := hnone n hn
    rw [(h n hn).literalBlemish?_eq, if_pos hinfinite] at hfound
    cases hfound
  · intro hnone n hn
    rw [(h n hn).literalBlemish?_eq, if_neg]
    intro hinfinite
    obtain ⟨t, ht, hover⟩ := hliteral.mp ⟨n, hn, hinfinite⟩
    exact hnone t ht hover

theorem Expr.Everywhere.blemish?_eq_some {e : Expr} (h : e.Everywhere Normal) {error : FormatError}
    (hfound : e.blemish? = some error) :
    ∃ location, error = ⟨.decimal (.infinity false), location⟩ := by
  rw [h.blemish?_eq] at hfound
  obtain ⟨n, hn, herror⟩ := List.exists_of_findSome?_eq_some hfound
  rw [(h n hn).literalBlemish?_eq] at herror
  split_ifs at herror
  exact ⟨n.location, (Option.some.inj herror).symm⟩

theorem Token.not_overflows_of_isEnd {t : Token} (h : t.isEnd = true) : ¬ t.shape.Overflows := by
  rw [Token.isEnd, Token.kind, beq_iff_eq] at h
  cases hs : t.shape with
  | decimal whole fraction =>
    rw [hs] at h
    cases h
  | _ => exact not_false

/-! ### Formatting -/

namespace Program

variable {limits : Limits} {text : String} {filename : Option String} {e : Expr}

/-- A program that is read is formatted as its tree is written, if its depth is allowed. -/
theorem format_of_parseTo (layout : Layout) (h : parseTo limits.reading text filename = .ok e)
    (hdepth : e.depth ≤ limits.writing) :
    format layout text filename limits = (layout.written e).mapError .format := by
  unfold format
  rw [h, ← layout.render_eq_written hdepth]
  rfl

/-- **Every program that is read can be formatted, unless a decimal literal overflows**; then the
    first of these literals is refused. -/
theorem format_ok_iff (layout : Layout) (h : parseTo limits.reading text filename = .ok e)
    (hdepth : e.depth ≤ limits.writing) :
    ∃ ts k, Scanner.all (.start text.toList filename) = .ok ts k ∧
      ((∃ out, format layout text filename limits = .ok out) ↔ ∀ t ∈ ts, ¬ t.shape.Overflows) ∧
      ∀ failure, format layout text filename limits = .error failure →
        ∃ location, failure = .format ⟨.decimal (.infinity false), location⟩ := by
  obtain ⟨ts, last, hscans, hlast, hbuilds⟩ := exists_scans_of_parseTo h
  obtain ⟨k, hall⟩ := Scanner.all_of_scans hscans
  have hnormal : e.Everywhere Expr.Normal := hbuilds.good fun t ht =>
    hscans.isLexeme t (List.mem_append_left _ ht) (hbuilds.isEnd t ht)
  have hclean : e.blemish? = none ↔ ∀ t ∈ ts ++ [last], ¬ t.shape.Overflows := by
    rw [hnormal.blemish?_eq_none_iff hbuilds.accountsFor, List.forall_mem_append,
      List.forall_mem_singleton, and_iff_left (Token.not_overflows_of_isEnd hlast)]
  rw [format_of_parseTo layout h hdepth, Layout.written]
  refine ⟨ts ++ [last], k, hall, ?_, fun failure hfailure => ?_⟩
  · rw [← hclean]
    cases e.blemish? with
    | none => simp [Except.mapError]
    | some error => simp [Except.mapError]
  · cases hfound : e.blemish? with
    | none =>
      rw [hfound] at hfailure
      cases hfailure
    | some error =>
      rw [hfound] at hfailure
      cases hfailure
      obtain ⟨location, rfl⟩ := hnormal.blemish?_eq_some hfound
      exact ⟨location, rfl⟩

/-- A decimal literal as a whole program. -/
theorem parseTo_decimal {whole fraction : String} (h : (Shape.decimal whole fraction).IsLexeme)
    (depth : Nat) :
    ∃ t last k, t.shape = .decimal whole fraction ∧
      Scanner.all (.start (Shape.decimal whole fraction).lexeme.toList none) = .ok [t, last] k ∧
      parseTo (depth + 1) (Shape.decimal whole fraction).lexeme =
        .ok (.literal (.decimal ((Numeral.ofDigits whole.toList fraction.toList).toBinary64 false))
          (some t.location)) := by
  have hspells : Text.Spells (Shape.decimal whole fraction).lexeme.toList
      [.decimal whole fraction] := by
    have hlexeme := Text.Spells.lexeme h (Text.stops_nil _) .nil
    rwa [List.append_nil] at hlexeme
  obtain ⟨ts, hscans, hshapes⟩ := hspells.exists_scans
    (k := .start (Shape.decimal whole fraction).lexeme.toList none) rfl
  obtain ⟨t, us, rfl, ht, hus⟩ := List.map_eq_cons_iff.mp hshapes
  obtain ⟨last, rfl, hlast⟩ := List.map_eq_singleton_iff.mp hus
  obtain ⟨k, hall⟩ := Scanner.all_of_scans hscans
  have hprogram : Grammar.program (depth + 1) [t, last] =
      .ok (.literal (.decimal ((Numeral.ofDigits whole.toList fraction.toList).toBinary64 false))
        (some t.location)) [last] := by
    obtain ⟨s, l⟩ := t
    obtain ⟨s', l'⟩ := last
    obtain rfl : s = .decimal whole fraction := ht
    obtain rfl : s' = .endOfInput := hlast
    rfl
  exact ⟨t, last, k, ht, hall, parseTo_of_scans hscans hprogram⟩

/-- Twice a power of ten, with as many zeros in front of the point. -/
def zeros (n : Nat) : Shape := .decimal (String.ofList ('2' :: List.replicate n '0')) "0"

theorem isLexeme_zeros (n : Nat) : (zeros n).IsLexeme := by
  have hfraction : ∀ c ∈ ['0'], c.isDigit = true := by
    intro c hc
    rw [List.mem_singleton.mp hc]
    rfl
  refine ⟨fun c hc => ?_, by decide, hfraction⟩
  rw [String.toList_ofList] at hc
  rcases List.mem_cons.mp hc with rfl | hc
  · rfl
  · rw [List.eq_of_mem_replicate hc]
    rfl

theorem overflows_zeros {n : Nat} (h : Binary64.overflow * 10 ≤ 10 ^ (n + 1) * 2) :
    (zeros n).Overflows := by
  have hvalue : Nat.ofDigitChars 10 (('2' :: List.replicate n '0') ++ ['0']) 0 =
      10 ^ (n + 1) * 2 := by
    rw [List.cons_append, ← List.replicate_succ', Nat.ofDigitChars_cons,
      Nat.ofDigitChars_replicate_zero]
    rfl
  have hpoint : 10 ^ "0".length = 10 := rfl
  rw [zeros, Shape.Overflows, String.toList_ofList, hpoint]
  exact h.trans_eq hvalue.symm

/-- The literal `200…0.0` with three hundred and eight zeros in front of the point is more than the
    largest number; it is read, and not formatted. -/
theorem not_format_ok_zeros :
    ∃ e location, parse (zeros 308).lexeme = .ok e ∧
      (∀ out, format {} (zeros 308).lexeme ≠ .ok out) ∧
      format {} (zeros 308).lexeme =
        .error (.format ⟨.decimal (.infinity false), location⟩) := by
  obtain ⟨t, last, k, ht, hall, hread⟩ := parseTo_decimal (isLexeme_zeros 308) 199
  obtain ⟨x, hx, hread⟩ : ∃ x : Expr, x.depth = 1 ∧ parse (zeros 308).lexeme = .ok x :=
    ⟨_, by rw [Expr.depth], hread⟩
  have hdepth : x.depth ≤ ({} : Limits).writing := by
    rw [hx]
    decide
  obtain ⟨ts, k', hall', hok, herror⟩ := @format_ok_iff {} _ none x {} hread hdepth
  rw [zeros, hall] at hall'
  cases hall'
  have hnot : ∀ out, format {} (zeros 308).lexeme ≠ .ok out := by
    intro out hout
    refine hok.mp ⟨out, hout⟩ t List.mem_cons_self ?_
    rw [ht]
    exact overflows_zeros (by decide +kernel)
  cases hformat : format {} (zeros 308).lexeme with
  | ok out => exact absurd hformat (hnot out)
  | error failure =>
    obtain ⟨location, rfl⟩ := herror failure hformat
    exact ⟨_, location, hread, fun out hok => hnot out (hformat.trans hok), rfl⟩

end Program

end Juxta
