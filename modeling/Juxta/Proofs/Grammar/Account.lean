/-
  Juxta/Proofs/Grammar/Account.lean
  =================================
  **Nothing is lost, invented or moved** — the tree that is read from a text accounts for its
  tokens.  Every token leaves its sign in the tree, in the order of the source, but for closing
  brackets, separators, and parentheses that only group or enclose parameters
  (`Accounts`).  Names and values can then be read off the tree in order, the nodes of each
  form are as many as the tokens that give that form, and each node is at the location of its
  own token (`Expr.LocatedIn`).

  Three rewrites might break this and do not: a grouping that vanishes, a chain that goes on
  with a grouped chain, and an operand that is handed up when nothing follows it.
-/
import Juxta.Proofs.Expr.Signs
import Juxta.Proofs.Grammar.Text
import Juxta.Proofs.Token.Factorisation

namespace Juxta

/-! ### The signs of tokens -/

/-- The name of a symbol or the value of a literal. -/
def Shape.content? : Shape → Option Content
  | .symbol n => some (.name n)
  | s => s.literal?.map .value

/-- The sign that a token may leave in a tree. -/
def Shape.sign? : Shape → Option Sign
  | .keyword k => some (.keyword k)
  | .punctuation p => some (.mark p)
  | s => s.content?.map .content

/-- Marks that may leave nothing in a tree. -/
def Punctuation.mayVanish : Punctuation → Bool
  | .openParen | .closeParen | .closeBrace | .semicolon | .comma => true
  | .openBrace | .backtick | .bang => false

/-- The signs are those of the tokens in order, and their locations those of the tokens. -/
inductive Accounts : List Token → List (Sign × Option Location) → Prop where
  | nothing : Accounts [] []
  | vanished {t : Token} {p : Punctuation} {ts : List Token} {ss : List (Sign × Option Location)} :
      t.kind = .punctuation p → p.mayVanish = true → Accounts ts ss → Accounts (t :: ts) ss
  | sign {t : Token} {s : Sign} {l : Option Location} {ts : List Token}
      {ss : List (Sign × Option Location)} :
      t.shape.sign? = some s → (∀ x ∈ l, x = t.location) → Accounts ts ss →
      Accounts (t :: ts) ((s, l) :: ss)

namespace Shape

theorem sign?_symbol {s : Shape} {n : String} (h : s = .symbol n) :
    s.sign? = some (.content (.name n)) := by
  rw [h]
  rfl

theorem sign?_literal {s : Shape} {v : Literal} (h : s.literal? = some v) :
    s.sign? = some (.content (.value v)) := by
  cases s <;> cases h <;> rfl

theorem sign?_keyword {s : Shape} {k : Keyword} (h : s.kind = .keyword k) :
    s.sign? = some (.keyword k) := by
  cases s <;> cases h
  rfl

theorem sign?_punctuation {s : Shape} {p : Punctuation} (h : s.kind = .punctuation p) :
    s.sign? = some (.mark p) := by
  cases s <;> cases h
  rfl

theorem content?_eq_bind_sign? (s : Shape) : s.content? = s.sign?.bind Sign.content? := by
  cases s <;> rfl

theorem sign?_eq_keyword {s : Shape} {k : Keyword} :
    s.sign? = some (.keyword k) ↔ s.kind = .keyword k := by
  cases s <;> simp [sign?, content?, literal?, kind]

theorem sign?_eq_mark {s : Shape} {p : Punctuation} :
    s.sign? = some (.mark p) ↔ s.kind = .punctuation p := by
  cases s <;> simp [sign?, content?, literal?, kind]

end Shape

namespace Accounts

variable {ts us vs : List Token} {ss rs : List (Sign × Option Location)}

theorem append (h : Accounts us ss) (hvs : Accounts vs rs) : Accounts (us ++ vs) (ss ++ rs) := by
  induction h with
  | nothing => exact hvs
  | vanished ht hp _ ih => exact .vanished ht hp ih
  | sign ht hl _ ih => exact .sign ht hl ih

theorem vanished_last {t : Token} {p : Punctuation} (h : Accounts ts ss)
    (ht : t.kind = .punctuation p) (hp : p.mayVanish = true) : Accounts (ts ++ [t]) ss := by
  have happend := h.append (.vanished ht hp .nothing)
  rwa [List.append_nil] at happend

theorem located {t : Token} {s : Sign} (ht : t.shape.sign? = some s) (h : Accounts ts ss) :
    Accounts (t :: ts) ((s, some t.location) :: ss) :=
  .sign ht (by simp) h

theorem unlocated {t : Token} {s : Sign} (ht : t.shape.sign? = some s) (h : Accounts ts ss) :
    Accounts (t :: ts) ((s, none) :: ss) :=
  .sign ht (by simp) h

/-- Names and values are those of the tokens. -/
theorem contents (h : Accounts ts ss) :
    ss.filterMap (fun s => s.1.content?) = ts.filterMap fun t => t.shape.content? := by
  induction h with
  | nothing => rfl
  | @vanished t p ts ss ht _ _ ih =>
    have hnone : t.shape.content? = none := by
      rw [Shape.content?_eq_bind_sign?, Shape.sign?_punctuation ht]
      rfl
    rw [ih, List.filterMap_cons_none]
    exact hnone
  | @sign t s l ts ss ht _ _ ih =>
    have hcontent : t.shape.content? = s.content? := by
      rw [Shape.content?_eq_bind_sign?, ht]
      rfl
    rw [List.filterMap_cons, List.filterMap_cons, ih, hcontent]

/-- A sign that cannot vanish is left as often as there are tokens for it. -/
theorem count (h : Accounts ts ss) {s : Sign} (hs : ∀ p : Punctuation, p.mayVanish → s ≠ .mark p) :
    (ss.map (·.1)).count s = ts.countP fun t => t.shape.sign? == some s := by
  induction h with
  | nothing => rfl
  | @vanished t p ts ss ht hp _ ih =>
    have hne : (t.shape.sign? == some s) = false := by
      rw [Shape.sign?_punctuation ht, beq_eq_false_iff_ne]
      exact fun heq => hs p hp (Option.some.inj heq).symm
    rw [List.countP_cons_of_neg (by simp [hne]), ih]
  | @sign t s' l ts ss ht _ _ ih =>
    rw [List.map_cons, List.count_cons, List.countP_cons, ih, ht]
    simp

end Accounts

/-! ### The locations of nodes -/

open Grammar in
/-- A node is at the location of its own token among the tokens: of the value, the name, the
    keyword or the opening bracket.  Calls, chains and calls without arguments are where their
    first part is. -/
def Expr.LocatedIn (ts : List Token) : Expr → Prop
  | .literal v l => ∃ t ∈ ts, t.shape.literal? = some v ∧ l = some t.location
  | .symbol n l => ∃ t ∈ ts, t.shape = .symbol n ∧ l = some t.location
  | .function n ps x l => ∃ t us vs ws, (t :: (us ++ vs ++ ws)) <:+: ts ∧
      t.kind = .keyword .function ∧ IsFunctionName us n ∧ AreParameters vs ps ∧
      Builds .body ws x ∧ l = some t.location
  | .block b xs l => ∃ t us c separated, (t :: us ++ [c]) <:+: ts ∧
      t.kind = .punctuation b.opener ∧ Builds .statements us (separated, xs) ∧
      c.kind = .punctuation b.closer ∧ l = some t.location
  | .assignment r n x l => ∃ t u us, (t :: u :: us) <:+: ts ∧
      t.kind = .keyword (Layout.bindingKeyword r) ∧ u.shape = .symbol n ∧
      Builds .expression us x ∧ l = some t.location
  | .call f _ l => l = f.location
  | .chain x _ l => l = x.location
  | .invocation x l => l = x.location

theorem Expr.LocatedIn.mono {us ts : List Token} {e : Expr} (h : e.LocatedIn us)
    (hts : us <:+: ts) : e.LocatedIn ts := by
  cases e with
  | literal v l =>
    obtain ⟨t, ht, hrest⟩ := h
    exact ⟨t, hts.subset ht, hrest⟩
  | symbol n l =>
    obtain ⟨t, ht, hrest⟩ := h
    exact ⟨t, hts.subset ht, hrest⟩
  | function n ps x l =>
    obtain ⟨t, us', vs, ws, hsegment, hrest⟩ := h
    exact ⟨t, us', vs, ws, hsegment.trans hts, hrest⟩
  | block b xs l =>
    obtain ⟨t, us', c, separated, hsegment, hrest⟩ := h
    exact ⟨t, us', c, separated, hsegment.trans hts, hrest⟩
  | assignment r n x l =>
    obtain ⟨t, u, us', hsegment, hrest⟩ := h
    exact ⟨t, u, us', hsegment.trans hts, hrest⟩
  | call | chain | invocation => exact h

namespace Grammar

open TokenList

/-! ### What is built accounts for its tokens -/

/-- The signs of what a phrase stands for. -/
def Phrase.signs : (p : Phrase) → p.Value → List (Sign × Option Location)
  | .expression, e | .chained, e | .invoked, e | .operand, e | .body, e | .block _, e => e.signs
  | .arguments, xs | .extras, xs => Expr.signsAll xs
  | .steps, ss => Expr.signsSteps ss
  | .statements, v | .later, v => Expr.signsAll v.2

theorem IsFunctionName.accounts {ts : List Token} {n : Option String} (h : IsFunctionName ts n) :
    Accounts ts (n.toList.map fun p => (.content (.name p), none)) := by
  cases h with
  | unnamed => exact .nothing
  | named ht => exact .unlocated (Shape.sign?_symbol ht) .nothing

theorem AreNames.accounts {ts : List Token} {ns : List String} (h : AreNames ts ns) :
    Accounts ts (ns.map fun p => (.content (.name p), none)) := by
  induction h with
  | last ht hc => exact .unlocated (Shape.sign?_symbol ht) (.vanished hc rfl .nothing)
  | more ht hc _ ih => exact .unlocated (Shape.sign?_symbol ht) (.vanished hc rfl ih)

theorem AreParameters.accounts {ts : List Token} {ns : List String} (h : AreParameters ts ns) :
    Accounts ts (ns.map fun p => (.content (.name p), none)) := by
  cases h with
  | absent => exact .nothing
  | empty ht hc => exact .vanished ht rfl (.vanished hc rfl .nothing)
  | names ht hns => exact .vanished ht rfl hns.accounts

theorem signs_callOf (f : Expr) (xs : List Expr) :
    (callOf f xs).signs = f.signs ++ Expr.signsAll xs := by
  cases xs with
  | nil => simp [callOf, Expr.signsAll]
  | cons x xs => rfl

/-- A chain that goes on with a chain has the signs of both, one after the other. -/
theorem signs_chainOf (seed : Expr) (ss : List Step) :
    (chainOf seed ss).signs = seed.signs ++ Expr.signsSteps ss := by
  cases ss with
  | nil => simp [chainOf, Expr.signsSteps]
  | cons s ss =>
    cases seed with
    | chain first earlier l =>
      simp only [chainOf, Expr.signs, Expr.signsSteps_append, List.append_assoc]
    | _ => rfl

theorem accounts_blockOf {b : Bracket} {t c : Token} {ts : List Token} {separated : Bool}
    {xs : List Expr} (ht : t.kind = .punctuation b.opener) (hc : c.kind = .punctuation b.closer)
    (h : Accounts ts (Expr.signsAll xs)) :
    Accounts (t :: ts ++ [c]) (blockOf b separated xs t.location).signs := by
  have hcloser : b.closer.mayVanish = true := by cases b <;> rfl
  have hinner : Accounts (ts ++ [c]) (Expr.signsAll xs) := h.vanished_last hc hcloser
  have hblock : ∀ b : Bracket, t.kind = .punctuation b.opener →
      Accounts (t :: ts ++ [c]) (Expr.block b xs (some t.location)).signs :=
    fun b ht => .located (Shape.sign?_punctuation ht) hinner
  unfold blockOf
  split
  · rename_i e
    cases he : e.isAssignment with
    | true => exact hblock .paren ht
    | false =>
      -- The grouping vanishes, and with it the parentheses.
      rw [if_neg (by decide)]
      rw [Expr.signsAll, Expr.signsAll, List.append_nil] at hinner
      exact .vanished ht rfl hinner
  · exact hblock b ht

theorem bindingKeyword_eq {k : Keyword} (hk : k ≠ .function) :
    Layout.bindingKeyword (k == .recursiveBinding) = k := by
  cases k with
  | function => exact absurd rfl hk
  | _ => rfl

/-- **What is built accounts for its tokens.** -/
theorem Builds.accounts {p : Phrase} {ts : List Token} {v : p.Value} (h : Builds p ts v) :
    Accounts ts (p.signs v) := by
  induction h with
  | binding ht hk hu _ ih =>
    refine .located ?_ (.unlocated (Shape.sign?_symbol hu) ih)
    rw [bindingKeyword_eq hk]
    exact Shape.sign?_keyword ht
  | application _ _ ihf ihxs =>
    rw [Phrase.signs, signs_callOf]
    exact ihf.append ihxs
  | argument _ _ ihx ihxs => exact ihx.append ihxs
  | chained _ _ ihe ihss =>
    rw [Phrase.signs, signs_chainOf]
    exact ihe.append ihss
  | step ht _ _ _ ihp ihxs ihss =>
    exact (Accounts.unlocated (Shape.sign?_punctuation ht) (ihp.append ihxs)).append ihss
  | extra _ _ ihx ihxs => exact ihx.append ihxs
  | invocation _ ht ih =>
    exact ih.append (.unlocated (Shape.sign?_punctuation ht) .nothing)
  | literal ht => exact .located (Shape.sign?_literal ht) .nothing
  | symbol ht => exact .located (Shape.sign?_symbol ht) .nothing
  | function ht hn hps _ _ _ ih =>
    refine .located (Shape.sign?_keyword ht) ?_
    rw [List.map_append]
    exact (hn.accounts.append hps.accounts).append ih
  | block ht _ hc ih => exact accounts_blockOf ht hc ih
  | statements _ _ ihe ihxs => exact ihe.append ihxs
  | trailing ht => exact .vanished ht rfl .nothing
  | later ht _ _ ihe ihxs => exact .vanished ht rfl (ihe.append ihxs)
  | operand _ ih | bracketed _ ih | braces _ ih | «open» _ _ ih => exact ih
  | noArgument | noStep | noExtra | noStatement | noMore => exact .nothing

/-! ### What is built is where its tokens are -/

def Phrase.nodes : (p : Phrase) → p.Value → List Expr
  | .expression, e | .chained, e | .invoked, e | .operand, e | .body, e | .block _, e => e.nodes
  | .arguments, xs | .extras, xs => Expr.nodesAll xs
  | .steps, ss => Expr.nodesSteps ss
  | .statements, v | .later, v => Expr.nodesAll v.2

theorem locatedIn_callOf {f : Expr} {xs : List Expr} {ts : List Token}
    (hf : ∀ n ∈ f.nodes, n.LocatedIn ts) (hxs : ∀ n ∈ Expr.nodesAll xs, n.LocatedIn ts) :
    ∀ n ∈ (callOf f xs).nodes, n.LocatedIn ts := by
  cases xs with
  | nil => exact hf
  | cons x xs =>
    simp only [callOf, Expr.nodes, List.forall_mem_cons, List.forall_mem_append]
    exact ⟨rfl, hf, hxs⟩

theorem locatedIn_chainOf {seed : Expr} {ss : List Step} {ts : List Token}
    (hseed : ∀ n ∈ seed.nodes, n.LocatedIn ts)
    (hss : ∀ n ∈ Expr.nodesSteps ss, n.LocatedIn ts) :
    ∀ n ∈ (chainOf seed ss).nodes, n.LocatedIn ts := by
  cases ss with
  | nil => exact hseed
  | cons s ss =>
    cases seed with
    | chain first earlier l =>
      -- The chain keeps the location of the first seed, which is still its own.
      simp only [Expr.nodes, List.forall_mem_cons, List.forall_mem_append] at hseed
      obtain ⟨hl, hfirst, hearlier⟩ := hseed
      simp only [chainOf, Expr.nodes, Expr.nodesSteps_append, List.forall_mem_cons,
        List.forall_mem_append]
      exact ⟨hl, hfirst, hearlier, hss⟩
    | _ =>
      simp only [chainOf, Expr.nodes, List.forall_mem_cons, List.forall_mem_append] at hseed ⊢
      exact ⟨rfl, hseed, hss⟩

theorem locatedIn_blockOf {b : Bracket} {t c : Token} {us : List Token} {separated : Bool}
    {xs : List Expr} (ht : t.kind = .punctuation b.opener) (hc : c.kind = .punctuation b.closer)
    (hbuilds : Builds .statements us (separated, xs))
    (h : ∀ n ∈ Expr.nodesAll xs, n.LocatedIn (t :: us ++ [c])) :
    ∀ n ∈ (blockOf b separated xs t.location).nodes, n.LocatedIn (t :: us ++ [c]) := by
  have hblock : ∀ n ∈ (Expr.block b xs (some t.location)).nodes, n.LocatedIn (t :: us ++ [c]) := by
    rw [Expr.nodes, List.forall_mem_cons]
    exact ⟨⟨t, us, c, separated, List.infix_rfl, ht, hbuilds, hc, rfl⟩, h⟩
  unfold blockOf
  split
  · rename_i e
    cases he : e.isAssignment with
    | true => exact hblock
    | false => simpa [Expr.nodesAll] using h
  · exact hblock

/-- **What is built is located in its tokens.** -/
theorem Builds.locatedIn {p : Phrase} {ts : List Token} {v : p.Value} (h : Builds p ts v) :
    ∀ n ∈ p.nodes v, n.LocatedIn ts := by
  induction h with
  | @binding t u k n ts e ht hk hu he ih =>
    rw [Phrase.nodes, Expr.nodes, List.forall_mem_cons]
    refine ⟨⟨t, u, ts, List.infix_rfl, ?_, hu, he, rfl⟩, ?_⟩
    · rw [bindingKeyword_eq hk]
      exact ht
    · intro n hn
      exact (ih n hn).mono (List.suffix_append [t, u] ts).isInfix
  | application _ _ ihf ihxs =>
    refine locatedIn_callOf (fun n hn => ?_) fun n hn => ?_
    · exact (ihf n hn).mono (List.prefix_append _ _).isInfix
    · exact (ihxs n hn).mono (List.suffix_append _ _).isInfix
  | argument _ _ ihx ihxs | extra _ _ ihx ihxs | statements _ _ ihx ihxs =>
    rw [Phrase.nodes, Expr.nodesAll, List.forall_mem_append]
    constructor
    · intro n hn
      exact (ihx n hn).mono (List.prefix_append _ _).isInfix
    · intro n hn
      exact (ihxs n hn).mono (List.suffix_append _ _).isInfix
  | chained _ _ ihe ihss =>
    refine locatedIn_chainOf (fun n hn => ?_) fun n hn => ?_
    · exact (ihe n hn).mono (List.prefix_append _ _).isInfix
    · exact (ihss n hn).mono (List.suffix_append _ _).isInfix
  | @step t us vs ws p xs ss ht _ _ _ ihp ihxs ihss =>
    rw [Phrase.nodes, Expr.nodesSteps, List.forall_mem_append, List.forall_mem_append]
    refine ⟨⟨?_, ?_⟩, ?_⟩
    · intro n hn
      exact (ihp n hn).mono ⟨[t], vs ++ ws, by simp⟩
    · intro n hn
      exact (ihxs n hn).mono ⟨t :: us, ws, by simp⟩
    · intro n hn
      exact (ihss n hn).mono (List.suffix_append _ _).isInfix
  | invocation _ _ ih =>
    rw [Phrase.nodes, Expr.nodes, List.forall_mem_cons]
    refine ⟨rfl, fun n hn => ?_⟩
    exact (ih n hn).mono (List.prefix_append _ _).isInfix
  | @literal t v ht =>
    rw [Phrase.nodes, Expr.nodes, List.forall_mem_singleton]
    exact ⟨t, List.mem_singleton_self t, ht, rfl⟩
  | @symbol t n ht =>
    rw [Phrase.nodes, Expr.nodes, List.forall_mem_singleton]
    exact ⟨t, List.mem_singleton_self t, ht, rfl⟩
  | @function t us vs ws n ps e ht hn hps he _ _ ih =>
    rw [Phrase.nodes, Expr.nodes, List.forall_mem_cons]
    refine ⟨⟨t, us, vs, ws, List.infix_rfl, ht, hn, hps, he, rfl⟩, fun n hn => ?_⟩
    exact (ih n hn).mono ⟨t :: (us ++ vs), [], by simp⟩
  | @block b t c ts separated xs ht hts hc ih =>
    refine locatedIn_blockOf ht hc hts fun n hn => ?_
    exact (ih n hn).mono ⟨[t], [c], by simp⟩
  | @later t us vs e separated xs ht _ _ ihe ihxs =>
    rw [Phrase.nodes, Expr.nodesAll, List.forall_mem_append]
    constructor
    · intro n hn
      exact (ihe n hn).mono ⟨[t], vs, by simp⟩
    · intro n hn
      exact (ihxs n hn).mono (List.suffix_append _ _).isInfix
  | operand _ ih | bracketed _ ih | braces _ ih | «open» _ _ ih => exact ih
  | noArgument | noStep | noExtra | noStatement | noMore | trailing =>
    simp [Phrase.nodes, Expr.nodesAll, Expr.nodesSteps]

end Grammar

/-! ### Trees of texts -/

/-- A tree that accounts for tokens, one after another and in number. -/
structure Expr.AccountsFor (e : Expr) (ts : List Token) : Prop where
  signs : Accounts ts e.signs
  reading : e.reading = ts.filterMap fun t => t.shape.content?
  invocations : e.nodes.countP isInvocation = ts.countP fun t => t.kind == .punctuation .bang
  steps : (e.nodes.flatMap Expr.steps).length =
    ts.countP fun t => t.kind == .punctuation .backtick
  functions : e.nodes.countP isFunction = ts.countP fun t => t.kind == .keyword .function
  bindings : e.nodes.countP (isBinding false) = ts.countP fun t => t.kind == .keyword .binding
  recursiveBindings : e.nodes.countP (isBinding true) =
    ts.countP fun t => t.kind == .keyword .recursiveBinding
  scopes : e.nodes.countP isBraceBlock = ts.countP fun t => t.kind == .punctuation .openBrace
  locations : ∀ n ∈ e.nodes, n.LocatedIn ts

theorem Accounts.count_keyword {ts : List Token} {ss : List (Sign × Option Location)}
    (h : Accounts ts ss) (k : Keyword) :
    (ss.map (·.1)).count (.keyword k) = ts.countP fun t => t.kind == .keyword k := by
  have hstays : ∀ q : Punctuation, q.mayVanish → Sign.keyword k ≠ .mark q := by
    rintro q - ⟨⟩
  rw [h.count hstays]
  refine List.countP_congr fun t _ => ?_
  simp [Shape.sign?_eq_keyword, Token.kind]

theorem Accounts.count_mark {ts : List Token} {ss : List (Sign × Option Location)}
    (h : Accounts ts ss) {p : Punctuation} (hp : p.mayVanish = false) :
    (ss.map (·.1)).count (.mark p) = ts.countP fun t => t.kind == .punctuation p := by
  have hstays : ∀ q : Punctuation, q.mayVanish → Sign.mark p ≠ .mark q := by
    rintro q hq ⟨⟩
    rw [hp] at hq
    cases hq
  rw [h.count hstays]
  refine List.countP_congr fun t _ => ?_
  simp [Shape.sign?_eq_mark, Token.kind]

theorem Grammar.Builds.accountsFor {ts : List Token} {e : Expr} (h : Builds .expression ts e) :
    e.AccountsFor ts where
  signs := h.accounts
  reading := h.accounts.contents
  invocations := (Expr.countP_isInvocation e).trans (h.accounts.count_mark rfl)
  steps := (Expr.length_steps e).trans (h.accounts.count_mark rfl)
  functions := (Expr.countP_isFunction e).trans (h.accounts.count_keyword _)
  bindings := (Expr.countP_isBinding false e).trans (h.accounts.count_keyword _)
  recursiveBindings := (Expr.countP_isBinding true e).trans (h.accounts.count_keyword _)
  scopes := (Expr.countP_isBraceBlock e).trans (h.accounts.count_mark rfl)
  locations := h.locatedIn

/-- **The tree of a text accounts for the tokens of the text**: they are all scanned, and
    nothing of them is lost, invented or moved. -/
theorem Program.parseTo_accountsFor {depth : Nat} {text : String} {filename : Option String}
    {e : Expr} (h : parseTo depth text filename = .ok e) :
    ∃ ts last k, Scanner.all (.start text.toList filename) = .ok (ts ++ [last]) k ∧
      last.isEnd = true ∧ (∀ t ∈ ts, t.isEnd = false) ∧ e.AccountsFor ts := by
  obtain ⟨ts, last, hscans, hlast, hbuilds⟩ := exists_scans_of_parseTo h
  obtain ⟨k, hall⟩ := Scanner.all_of_scans hscans
  exact ⟨ts, last, k, hall, hlast, hbuilds.isEnd, hbuilds.accountsFor⟩

/-- A chain that goes on after its grouping, with a function that has a name, a parameter and
    a body in braces. -/
theorem Program.parseTo_accountsFor_chain :
    ∃ e, parseTo 200 "(f \x60g x) \x60h fn k (p) \x7blet y (a; 's')\x7d!" = .ok e ∧
      ∃ ts last k, Scanner.all (.start
          "(f \x60g x) \x60h fn k (p) \x7blet y (a; 's')\x7d!".toList none) =
          .ok (ts ++ [last]) k ∧
        last.isEnd = true ∧ (∀ t ∈ ts, t.isEnd = false) ∧ e.AccountsFor ts := by
  have hok : (parseTo 200 "(f \x60g x) \x60h fn k (p) \x7blet y (a; 's')\x7d!").isOk = true := by
    decide +kernel
  cases h : parseTo 200 "(f \x60g x) \x60h fn k (p) \x7blet y (a; 's')\x7d!" with
  | ok e => exact ⟨e, rfl, parseTo_accountsFor h⟩
  | error e =>
    rw [h] at hok
    cases hok

end Juxta
