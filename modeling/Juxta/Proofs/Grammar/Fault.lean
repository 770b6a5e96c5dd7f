/-
  Juxta/Proofs/Grammar/Fault.lean
  ===============================
  **When a fault of the text is met** — a text may have a fault that keeps it from being scanned
  any further.  Whether the reader comes so far depends on the tokens in front of it only:

    * `Grammar.Refuses`: a reader of tokens fails only by refusing one of them, and it stops
      nesting only where an expression begins; each production keeps this;
    * `Program.parseTo_eq_scan_iff`: the fault is the result if and only if some program begins
      with the tokens in front of it, unless these are nested too deeply.
-/
import Juxta.Proofs.Grammar.Refusal

namespace Juxta

namespace Grammar

open TokenList

/-! ### Failing is refusing -/

section Elements

variable {α β : Type} {begins : Kind → Bool}

/-- Whenever the reader fails, in front of a token of a kind that `begins` allows, it refuses a
    token; and it refuses to nest any deeper only where an expression begins. -/
def Refuses (begins : Kind → Bool) (x : Reader (List Token) α) : Prop :=
  ∀ ⦃ts e rest⦄, begins (kind ts) = true → x ts = .error e rest →
    ∃ p t l, e = .syntactic ⟨p, t, l⟩ ∧ (p = .nesting → Kind.startsExpression (kind rest) = true)

/-- Wherever the reader begins. -/
abbrev AlwaysRefuses (x : Reader (List Token) α) : Prop := Refuses (fun _ => true) x

theorem AlwaysRefuses.at {x : Reader (List Token) α} (h : AlwaysRefuses x)
    (begins : Kind → Bool) : Refuses begins x :=
  fun _ _ _ _ hx => h rfl hx

theorem refuses_of_ne_error {x : Reader (List Token) α}
    (h : ∀ ts e rest, x ts ≠ .error e rest) : AlwaysRefuses x :=
  fun _ _ _ _ hx => absurd hx (h _ _ _)

theorem refuses_bind {x : Reader (List Token) α} {f : α → Reader (List Token) β}
    (hx : Refuses begins x) (hf : ∀ a, AlwaysRefuses (f a)) : Refuses begins (x >>= f) := by
  intro ts e rest hbegins h
  rcases bind_eq_error h with hfirst | ⟨a, m, -, hlater⟩
  · exact hx hbegins hfirst
  · exact hf a rfl hlater

theorem refuses_pure (a : α) : AlwaysRefuses (pure a) :=
  refuses_of_ne_error fun _ _ _ => pure_ne_error _ _ _ _

theorem refuses_take : AlwaysRefuses take :=
  refuses_of_ne_error fun _ _ _ => take_ne_error _

theorem refuses_accept (k : Kind) : AlwaysRefuses (accept k) :=
  refuses_of_ne_error fun _ _ _ => accept_ne_error k _

theorem refuses_functionName : AlwaysRefuses functionName :=
  refuses_of_ne_error fun _ _ _ => functionName_ne_error _

theorem refuses_refuse {p : Problem} (hp : p ≠ .nesting) :
    AlwaysRefuses (refuse p : Reader (List Token) α) := by
  intro ts e rest _ h
  change EStateM.Result.error _ ts = _ at h
  cases h
  exact ⟨p, _, _, rfl, fun hnesting => absurd hnesting hp⟩

theorem refuses_nesting :
    Refuses Kind.startsExpression (refuse .nesting : Reader (List Token) α) := by
  intro ts e rest hbegins h
  change EStateM.Result.error _ ts = _ at h
  cases h
  exact ⟨.nesting, _, _, rfl, fun _ => hbegins⟩

theorem refuses_peek_bind {f : Token → Reader (List Token) α} (hf : ∀ t, AlwaysRefuses (f t)) :
    AlwaysRefuses (peek >>= f) := by
  intro ts e rest _ h
  rw [peek_bind] at h
  exact hf _ rfl h

theorem refuses_get_bind {f : List Token → Reader (List Token) α}
    (hf : ∀ ts, AlwaysRefuses (f ts)) : AlwaysRefuses (get >>= f) := by
  intro ts e rest _ h
  rw [get_bind] at h
  exact hf _ rfl h

theorem refuses_ite {b : Bool} {x y : Reader (List Token) α} (hx : AlwaysRefuses x)
    (hy : AlwaysRefuses y) : AlwaysRefuses (if b then x else y) := by
  cases b with
  | true => exact hx
  | false => exact hy

/-- What is read only in front of certain kinds may depend on them. -/
theorem refuses_nextIs {x y : Reader (List Token) α} (hx : Refuses begins x)
    (hy : AlwaysRefuses y) : AlwaysRefuses (nextIs begins >>= fun b => if b then x else y) := by
  intro ts e rest _ h
  rw [nextIs_bind] at h
  cases hbegins : begins (kind ts) with
  | true =>
    rw [hbegins] at h
    exact hx hbegins h
  | false =>
    rw [hbegins] at h
    exact hy rfl h

theorem refuses_name {p : Problem} (hp : p ≠ .nesting) : AlwaysRefuses (name p) := by
  refine refuses_peek_bind fun t => ?_
  cases t.shape with
  | symbol n => exact refuses_bind refuses_take fun _ => refuses_pure _
  | _ => exact refuses_refuse hp

theorem refuses_manyUpTo {x : Reader (List Token) α} (hx : AlwaysRefuses x) (n : Nat) :
    AlwaysRefuses (manyUpTo begins x n) := by
  induction n with
  | zero => exact refuses_pure _
  | succ n ih =>
    refine refuses_nextIs (AlwaysRefuses.at ?_ _) (refuses_pure _)
    exact refuses_bind hx fun _ => refuses_bind ih fun _ => refuses_pure _

theorem refuses_many {x : Reader (List Token) α} (hx : AlwaysRefuses x) :
    AlwaysRefuses (many begins x) :=
  refuses_get_bind fun _ => refuses_manyUpTo hx _

end Elements

/-! ### Productions only refuse -/

section Productions

theorem refuses_parametersUpTo (n : Nat) : AlwaysRefuses (parametersUpTo n) := by
  induction n with
  | zero => exact refuses_pure _
  | succ n ih =>
    refine refuses_bind (refuses_name nofun) fun first => ?_
    refine refuses_bind (refuses_accept _) fun closed => refuses_ite (refuses_pure _) ?_
    refine refuses_bind (refuses_accept _) fun separated => refuses_ite ?_ ?_
    · exact refuses_bind ih fun _ => refuses_pure _
    · exact refuses_refuse nofun

theorem refuses_parameters : AlwaysRefuses parameters := by
  refine refuses_bind (refuses_accept _) fun opened => refuses_ite ?_ (refuses_pure _)
  refine refuses_bind (refuses_accept _) fun closed => refuses_ite (refuses_pure _) ?_
  exact refuses_get_bind fun _ => refuses_parametersUpTo _

variable {nested : Reader (List Token) Expr} (h : Refuses Kind.startsExpression nested)
include h

theorem refuses_statement (b : Bracket) : AlwaysRefuses (statement nested b) :=
  refuses_nextIs h (refuses_refuse nofun)

theorem refuses_moreStatements (b : Bracket) (n : Nat) :
    AlwaysRefuses (moreStatements nested b n) := by
  induction n with
  | zero => exact refuses_pure _
  | succ n ih =>
    refine refuses_bind (refuses_accept _) fun separated => refuses_ite ?_ (refuses_pure _)
    refine refuses_nextIs ((refuses_pure _).at _) ?_
    refine refuses_bind (refuses_statement h b) fun first => ?_
    exact refuses_bind ih fun _ => refuses_pure _

theorem refuses_statements (b : Bracket) : AlwaysRefuses (statements nested b) := by
  refine refuses_nextIs ((refuses_pure _).at _) ?_
  refine refuses_bind (refuses_statement h b) fun first => refuses_get_bind fun _ => ?_
  exact refuses_bind (refuses_moreStatements h b _) fun _ => refuses_pure _

theorem refuses_block (b : Bracket) : AlwaysRefuses (block nested b) := by
  refine refuses_bind refuses_take fun opening => ?_
  refine refuses_bind (refuses_statements h b) fun _ => ?_
  refine refuses_nextIs (AlwaysRefuses.at (refuses_refuse ?_) _) ?_
  · exact nofun
  refine refuses_bind (refuses_accept _) fun closed => refuses_ite (refuses_pure _) ?_
  exact refuses_refuse nofun

theorem refuses_functionBody : AlwaysRefuses (functionBody nested) := by
  refine refuses_nextIs ((refuses_block h .brace).at _) ?_
  exact refuses_nextIs h (refuses_refuse nofun)

theorem refuses_function : AlwaysRefuses (function nested) := by
  refine refuses_bind refuses_take fun keyword => ?_
  refine refuses_bind refuses_functionName fun n => ?_
  refine refuses_bind refuses_parameters fun ps => ?_
  exact refuses_bind (refuses_functionBody h) fun _ => refuses_pure _

theorem refuses_operand : AlwaysRefuses (operand nested) := by
  refine refuses_peek_bind fun t => ?_
  cases t.shape with
  | integer _ | decimal _ _ | string _ _ | symbol _ =>
    exact refuses_bind refuses_take fun _ => refuses_pure _
  | endOfInput => exact refuses_refuse nofun
  | keyword k =>
    cases k with
    | function => exact refuses_function h
    | _ => exact refuses_refuse nofun
  | punctuation p =>
    cases p with
    | openBrace => exact refuses_block h .brace
    | openParen => exact refuses_block h .paren
    | _ => exact refuses_refuse nofun

theorem refuses_invoked : AlwaysRefuses (invoked nested) := by
  refine refuses_bind (refuses_operand h) fun target => ?_
  exact refuses_bind (refuses_many refuses_take) fun _ => refuses_pure _

theorem refuses_step : AlwaysRefuses (step nested) := by
  refine refuses_bind refuses_take fun _ => ?_
  refine refuses_nextIs (AlwaysRefuses.at ?_ _) (refuses_refuse nofun)
  refine refuses_bind (refuses_invoked h) fun p => ?_
  exact refuses_bind (refuses_many (refuses_invoked h)) fun _ => refuses_pure _

theorem refuses_chained : AlwaysRefuses (chained nested) := by
  refine refuses_bind (refuses_invoked h) fun seed => ?_
  exact refuses_bind (refuses_many (refuses_step h)) fun _ => refuses_pure _

theorem refuses_application : AlwaysRefuses (application nested) := by
  refine refuses_bind (refuses_chained h) fun callee => ?_
  exact refuses_bind (refuses_many (refuses_chained h)) fun _ => refuses_pure _

theorem refuses_assignment (k : Keyword) : AlwaysRefuses (assignment nested k) := by
  refine refuses_bind refuses_take fun token => ?_
  refine refuses_bind (refuses_name nofun) fun bound => ?_
  refine refuses_nextIs ?_ (refuses_refuse nofun)
  exact refuses_bind h fun _ => refuses_pure _

theorem refuses_expressionOver : AlwaysRefuses (expressionOver nested) := by
  refine refuses_peek_bind fun t => ?_
  cases t.kind with
  | keyword k =>
    cases k with
    | function => exact refuses_application h
    | _ => exact refuses_assignment h _
  | _ => exact refuses_application h

omit h in
theorem refuses_expression (depth : Nat) : Refuses Kind.startsExpression (expression depth) := by
  induction depth with
  | zero => exact refuses_nesting
  | succ depth ih => exact (refuses_expressionOver ih).at _

omit h in
/-- **A program fails only by refusing a token**, and its nesting is refused only where an
    expression begins. -/
theorem refuses_program (depth : Nat) : AlwaysRefuses (program depth) := by
  refine refuses_nextIs ?_ (refuses_refuse nofun)
  refine refuses_bind (refuses_expression depth) fun e => ?_
  exact refuses_nextIs ((refuses_pure _).at _) (refuses_refuse nofun)

end Productions

/-! ### Tokens that begin a program -/

/-- Some program begins with the tokens. -/
def CanBegin (ts : List Token) : Prop := ∃ us, IsProgram (ts ++ us)

variable {depth : Nat} {ts : List Token}

theorem exists_expected {p : Problem} (hp : p ≠ .nesting) : ∃ k, k ∈ p.expected := by
  cases p with
  | nesting => exact absurd rfl hp
  | _ => exact ⟨_, List.mem_cons_self⟩

/-- A reader that comes to the end of its tokens has read the beginning of a program. -/
theorem canBegin_of_remaining (h : remaining (program depth ts) = []) : CanBegin ts := by
  cases hprogram : program depth ts with
  | ok e rest =>
    rw [hprogram] at h
    obtain rfl : rest = [] := h
    obtain ⟨used, rfl, hbuilds, -⟩ := program_takes hprogram
    refine ⟨[ending], used, ending, ?_, rfl, hbuilds.generates⟩
    rw [List.append_nil]
  | error e rest =>
    rw [hprogram] at h
    obtain rfl : rest = [] := h
    obtain ⟨p, t, l, rfl, hnesting⟩ := refuses_program depth rfl hprogram
    have hp : p ≠ .nesting := by
      intro hp
      cases hnesting hp
    obtain ⟨before, rfl, hbefore⟩ := program_refuses hprogram hp
    obtain ⟨k, hk⟩ := exists_expected hp
    obtain ⟨u, us, -, hus⟩ := hbefore k hk
    refine ⟨u :: us, ?_⟩
    rwa [List.append_nil]

/-- No program begins with tokens one of which is refused. -/
theorem not_canBegin_of_refused {p : Problem} {t found : Token} {line : Option String}
    {after : List Token}
    (h : program depth ts = .error (.syntactic ⟨p, found, line⟩) (t :: after))
    (hp : p ≠ .nesting) : ¬ CanBegin ts := by
  rintro ⟨us, hus⟩
  obtain ⟨before, rfl, -⟩ := program_refuses h hp
  refine not_isAccepted_of_refused h hp (after ++ us) ?_
  rw [← List.cons_append, ← List.append_assoc]
  exact hus.accepted.2

end Grammar

/-! ### Texts with a fault -/

theorem TokenSource.Holds.exists_cons_of_peek {s s' : TokenSource} {ts : List Token}
    {f : Option ScanError} {t : Token} (h : s.Holds ts f)
    (hpeek : TokenSource.peek s = .ok t s') : ∃ u us, ts = u :: us := by
  cases h with
  | waiting hk =>
    cases hk with
    | fault hn =>
      simp only [TokenSource.peek, hn] at hpeek
      cases hpeek
    | last | more => exact ⟨_, _, rfl⟩
  | looked | ended => exact ⟨_, _, rfl⟩

namespace Program

variable {depth : Nat} {text : String} {filename : Option String}

/-- A text that is read has no fault. -/
theorem eq_none_of_parseTo {ts : List Token} {f : Option ScanError}
    (h : (Cursor.start text.toList filename).Scans ts f) {e : Expr}
    (hok : parseTo depth text filename = .ok e) : f = none := by
  obtain ⟨us, last, hscans, -⟩ := exists_scans_of_parseTo hok
  obtain ⟨k, hall⟩ := Scanner.all_of_scans h
  obtain ⟨k', hall'⟩ := Scanner.all_of_scans hscans
  rw [hall] at hall'
  cases f with
  | none => rfl
  | some fault => cases hall'

/-- The text is nested more deeply than it may be. -/
def NestsTooDeeply (depth : Nat) (text : String) (filename : Option String) : Prop :=
  ∃ found line, parseTo depth text filename = .error (.syntactic ⟨.nesting, found, line⟩)

theorem parseTo_eq_error {e : ParseError} : parseTo depth text filename = .error e ↔
    ∃ s, Grammar.program depth (TokenSource.ofText text filename) = .error e s := by
  unfold parseTo
  cases Grammar.program depth (TokenSource.ofText text filename) <;> simp

/-- **The fault of a text is met** exactly if some program begins with the tokens in front of it,
    unless they are nested too deeply. -/
theorem parseTo_eq_scan_iff {fault : ScanError} :
    parseTo depth text filename = .error (.scan fault) ↔
      ∃ ts, (Cursor.start text.toList filename).Scans ts (some fault) ∧ Grammar.CanBegin ts ∧
        ¬ NestsTooDeeply depth text filename := by
  constructor
  · intro h
    obtain ⟨s, hs⟩ := parseTo_eq_error.mp h
    obtain ⟨ts, f, hscans⟩ := Cursor.exists_scans (.start text.toList filename)
    have hsource : (TokenSource.ofText text filename).Holds ts f := .waiting hscans
    have hagree := (Grammar.agrees_program (P := TokenSource.pairing f) depth).agree hsource
    rw [hs] at hagree
    cases hagree with
    | excused he =>
      obtain ⟨fault', rfl, hfault, hnil⟩ := he
      cases hfault
      refine ⟨ts, hscans, Grammar.canBegin_of_remaining hnil, ?_⟩
      rintro ⟨found, line, hnesting⟩
      rw [h] at hnesting
      cases hnesting
  · rintro ⟨ts, hscans, hbegin, hdeep⟩
    have hsource : (TokenSource.ofText text filename).Holds ts (some fault) := .waiting hscans
    have hagree :=
      (Grammar.agrees_program (P := TokenSource.pairing (some fault)) depth).agree hsource
    cases hs : Grammar.program depth (TokenSource.ofText text filename) with
    | ok e s =>
      have hok : parseTo depth text filename = .ok e := by
        unfold parseTo
        rw [hs]
      cases eq_none_of_parseTo hscans hok
    | error e s =>
      have herror : parseTo depth text filename = .error e := parseTo_eq_error.mpr ⟨s, hs⟩
      rw [hs] at hagree
      generalize hlist : Grammar.program depth ts = list at hagree
      cases hagree with
      | refused _ hpeek hholds =>
        -- A token in front of the fault is refused.
        obtain ⟨t, after, rfl⟩ := hholds.exists_cons_of_peek hpeek
        refine absurd hbegin (Grammar.not_canBegin_of_refused hlist ?_)
        rintro rfl
        exact hdeep ⟨_, _, herror⟩
      | excused he =>
        obtain ⟨fault', hfault, rfl, -⟩ := he
        cases hfault
        exact herror

end Program

end Juxta
