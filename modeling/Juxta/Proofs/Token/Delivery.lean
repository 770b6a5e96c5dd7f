/-
  Juxta/Proofs/Token/Delivery.lean
  ================================
  **Every outcome is delivered once** — a source of tokens may be asked to show the next token,
  to take it, or to show a line, in any order.  Its answers come from the calls that the scanner
  makes on the text, one after another: a token is delivered when it is taken, a fault when it is
  met, and nothing is left out or delivered twice (`StreamSource.delivers`).

    * `TokenSource.Ready start n s`: from the cursor `start` on, the outcomes of `n` calls have been
      delivered, and the next one may be at hand;
    * `TokenSource.Ready.peek` and `TokenSource.Ready.next` are the steps;
    * `StreamSource.Follows`: a source over a stream and one over the whole text give the same
      answers, so that asking for a line, which reads on in the stream, is without consequence.
-/
import Juxta.Proofs.Grammar.Supply
import Juxta.Proofs.Stream.Lexer

namespace Juxta

/-! ### Requests and replies -/

/-- What a source of tokens is asked for. -/
inductive Request where
  | peek
  | next
  | lineText (line : Int)
deriving DecidableEq, Repr

inductive Reply where
  | token (t : Token)
  | failed (e : ScanError)
  | lineText (line : Option String)
deriving DecidableEq, Repr

/-- A request for something else than a token. -/
def Request.isLine : Request → Bool
  | .lineText _ => true
  | _ => false

/-- The reply to a request for a token, and what is left then. -/
def Reply.ofResult {σ : Type} : EStateM.Result ScanError σ Token → Reply × σ
  | .ok t s => (.token t, s)
  | .error e s => (.failed e, s)

def TokenSource.reply : Request → TokenSource → Reply × TokenSource
  | .peek, s => Reply.ofResult s.peek
  | .next, s => Reply.ofResult s.next
  | .lineText line, s => (.lineText (s.lineText? line), s)

def StreamSource.reply : Request → StreamSource → Reply × StreamSource
  | .peek, s => Reply.ofResult s.peek
  | .next, s => Reply.ofResult s.next
  | .lineText line, s => (.lineText (s.lineText? line).1, (s.lineText? line).2)

namespace Request

section Runs

variable {σ : Type} (reply : Request → σ → Reply × σ)

/-- The replies to some requests, one after another. -/
def replies : List Request → σ → List (Request × Reply)
  | [], _ => []
  | r :: rs, s => (r, (reply r s).1) :: replies rs (reply r s).2

/-- What is left after some requests. -/
def left : List Request → σ → σ
  | [], s => s
  | r :: rs, s => left rs (reply r s).2

/-- The outcome that is delivered with a reply: a token that is taken, or an error. -/
def delivered? : Request × Reply → Option (Except ScanError Token)
  | (.next, .token t) => some (.ok t)
  | (_, .failed e) => some (.error e)
  | _ => none

variable {reply}

theorem map_fst_replies (reply : Request → σ → Reply × σ) (rs : List Request) (s : σ) :
    (replies reply rs s).map Prod.fst = rs := by
  induction rs generalizing s with
  | nil => rfl
  | cons r rs ih => rw [replies, List.map_cons, ih]

theorem replies_eq_append {rs : List Request} {s : σ} {before after : List (Request × Reply)}
    (h : replies reply rs s = before ++ after) :
    ∃ rs₁ rs₂, rs = rs₁ ++ rs₂ ∧ before = replies reply rs₁ s ∧
      after = replies reply rs₂ (left reply rs₁ s) := by
  induction before generalizing rs s with
  | nil => exact ⟨[], rs, rfl, rfl, h.symm⟩
  | cons p before ih =>
    cases rs with
    | nil => cases h
    | cons r rs =>
      rw [replies, List.cons_append, List.cons.injEq] at h
      obtain ⟨rfl, hlater⟩ := h
      obtain ⟨rs₁, rs₂, rfl, rfl, rfl⟩ := ih hlater
      exact ⟨r :: rs₁, rs₂, rfl, rfl, rfl⟩

end Runs

end Request

/-! ### Calls of the scanner -/

namespace Scanner

/-- Where the scanner stands after so many calls. -/
def placeAfter : Nat → Cursor → Cursor
  | 0, k => k
  | n + 1, k => placeAfter n (call k).after

theorem placeAfter_succ (n : Nat) (k : Cursor) :
    placeAfter (n + 1) k = (call (placeAfter n k)).after := by
  induction n generalizing k with
  | zero => rfl
  | succ n ih => exact ih (call k).after

theorem calls_placeAfter (n m : Nat) (k : Cursor) :
    calls (m + 1) (placeAfter n k) =
      call (placeAfter n k) :: calls m (placeAfter (n + 1) k) := by
  rw [calls, placeAfter_succ]

/-- The call that comes to the end of input leaves the scanner where it comes to it again. -/
theorem placeAfter_of_isEnd {n : Nat} {k : Cursor} {t : Token}
    (h : (call (placeAfter n k)).outcome = .ok t) (ht : t.isEnd = true) :
    (call (placeAfter (n + 1) k)).outcome = .ok t ∧
      placeAfter (n + 2) k = placeAfter (n + 1) k := by
  have hstays : (call (placeAfter n k)).Stays := Or.inl ⟨t, h, ht⟩
  have hagain := call_after hstays
  rw [← placeAfter_succ] at hagain
  rw [placeAfter_succ (n + 1), hagain, ← placeAfter_succ]
  exact ⟨h, rfl⟩

theorem calls_eq_append {n : Nat} {k : Cursor} {before later : List Call} {c : Call}
    (h : calls n k = before ++ c :: later) : ∃ m, later = calls m c.after := by
  induction before generalizing n k with
  | nil =>
    cases n with
    | zero => cases h
    | succ n =>
      rw [calls, List.nil_append, List.cons.injEq] at h
      obtain ⟨rfl, rfl⟩ := h
      exact ⟨n, rfl⟩
  | cons d before ih =>
    cases n with
    | zero => cases h
    | succ n =>
      rw [calls, List.cons_append, List.cons.injEq] at h
      exact ih h.2

/-- Behind the end of input there is nothing but the end of input. -/
theorem outcome_after_isEnd {n : Nat} {k : Cursor} {before later : List (Except ScanError Token)}
    {t : Token} (h : (calls n k).map Call.outcome = before ++ .ok t :: later)
    (ht : t.isEnd = true) : ∀ outcome ∈ later, outcome = .ok t := by
  obtain ⟨front, back, hcalls, -, hback⟩ := List.map_eq_append_iff.mp h
  obtain ⟨c, rest, rfl, hc, rfl⟩ := List.map_eq_cons_iff.mp hback
  obtain ⟨m, rfl⟩ := calls_eq_append hcalls
  have hmem : c ∈ calls n k := by simp [hcalls]
  rw [calls_after hmem (Or.inl ⟨t, hc, ht⟩)]
  intro outcome houtcome
  obtain ⟨d, hd, rfl⟩ := List.mem_map.mp houtcome
  rw [List.eq_of_mem_replicate hd, hc]

theorem next_of_outcome_ok {k : Cursor} {t : Token} (h : (call k).outcome = .ok t) :
    next k = .ok t (call k).after := by
  unfold call at h ⊢
  cases hnext : next k with
  | ok u k' =>
    rw [hnext] at h
    cases h
    rfl
  | error e k' =>
    rw [hnext] at h
    cases h

theorem next_of_outcome_error {k : Cursor} {e : ScanError} (h : (call k).outcome = .error e) :
    next k = .error e (call k).after := by
  unfold call at h ⊢
  cases hnext : next k with
  | ok u k' =>
    rw [hnext] at h
    cases h
  | error e' k' =>
    rw [hnext] at h
    cases h
    rfl

end Scanner

/-! ### Sources over a whole text -/

namespace TokenSource

open Scanner Request

/-- From the cursor on, the outcomes of `n` calls have been delivered; the next call has not been
    made, or has come to a token that is at hand. -/
inductive Ready (start : Cursor) : Nat → TokenSource → Prop where
  | waiting (n : Nat) : Ready start n ⟨placeAfter n start, none⟩
  | looked {n : Nat} {t : Token} : (call (placeAfter n start)).outcome = .ok t →
      Ready start n ⟨placeAfter (n + 1) start, some t⟩

variable {start : Cursor} {n : Nat} {s : TokenSource}

/-- A source that is looked at keeps the next outcome at hand, or delivers it as an error. -/
theorem Ready.peek (h : Ready start n s) :
    (∃ t, (call (placeAfter n start)).outcome = .ok t ∧
      s.peek = .ok t ⟨placeAfter (n + 1) start, some t⟩) ∨
    ∃ e, (call (placeAfter n start)).outcome = .error e ∧
      s.peek = .error e ⟨placeAfter (n + 1) start, none⟩ := by
  cases h with
  | waiting =>
    cases hcall : (call (placeAfter n start)).outcome with
    | ok t =>
      refine Or.inl ⟨t, rfl, ?_⟩
      rw [TokenSource.peek, next_of_outcome_ok hcall, placeAfter_succ]
    | error e =>
      refine Or.inr ⟨e, rfl, ?_⟩
      rw [TokenSource.peek, next_of_outcome_error hcall, placeAfter_succ]
  | looked hcall => exact Or.inl ⟨_, hcall, rfl⟩

/-- Taking a token delivers the next outcome. -/
theorem Ready.next (h : Ready start n s) :
    ∃ s', Ready start (n + 1) s' ∧
      s.next = match (call (placeAfter n start)).outcome with
        | .ok t => .ok t s'
        | .error e => .error e s' := by
  rcases h.peek with ⟨t, hcall, hpeek⟩ | ⟨e, hcall, hpeek⟩
  · rw [hcall, next_of_peek hpeek]
    cases ht : t.isEnd with
    | true =>
      obtain ⟨hagain, hplace⟩ := placeAfter_of_isEnd hcall ht
      refine ⟨_, ?_, rfl⟩
      rw [if_pos rfl, ← hplace]
      exact .looked hagain
    | false => exact ⟨_, .waiting (n + 1), rfl⟩
  · refine ⟨_, .waiting (n + 1), ?_⟩
    rw [hcall, TokenSource.next, Grammar.bind_of_error hpeek]

/-- **One request** delivers nothing, or the next outcome. -/
theorem Ready.reply (h : Ready start n s) (r : Request) :
    (delivered? (r, (reply r s).1) = none ∧ Ready start n (reply r s).2) ∨
      (delivered? (r, (reply r s).1) = some (call (placeAfter n start)).outcome ∧
        Ready start (n + 1) (reply r s).2) := by
  cases r with
  | lineText line => exact Or.inl ⟨rfl, h⟩
  | peek =>
    rcases h.peek with ⟨t, hcall, hpeek⟩ | ⟨e, hcall, hpeek⟩
    · rw [TokenSource.reply, hpeek]
      exact Or.inl ⟨rfl, .looked hcall⟩
    · rw [TokenSource.reply, hpeek, hcall]
      exact Or.inr ⟨rfl, .waiting (n + 1)⟩
  | next =>
    obtain ⟨s', hs', hnext⟩ := h.next
    rw [TokenSource.reply, hnext]
    cases (call (placeAfter n start)).outcome with
    | ok t => exact Or.inr ⟨rfl, hs'⟩
    | error e => exact Or.inr ⟨rfl, hs'⟩

/-- **The outcomes that are delivered are those of the calls, one after another.** -/
theorem Ready.delivered (h : Ready start n s) (rs : List Request) :
    ∃ m, (replies TokenSource.reply rs s).filterMap delivered? =
      (calls m (placeAfter n start)).map Call.outcome := by
  induction rs generalizing n s with
  | nil => exact ⟨0, rfl⟩
  | cons r rs ih =>
    rcases h.reply r with ⟨hnone, hs'⟩ | ⟨hsome, hs'⟩
    · obtain ⟨m, hm⟩ := ih hs'
      refine ⟨m, ?_⟩
      rw [replies, List.filterMap_cons_none hnone, hm]
    · obtain ⟨m, hm⟩ := ih hs'
      refine ⟨m + 1, ?_⟩
      rw [replies, List.filterMap_cons_some hsome, hm, calls_placeAfter]
      rfl

/-- A token that is at hand stays there until it is taken. -/
theorem left_of_lookahead {t : Token} (h : s.lookahead = some t) {rs : List Request}
    (hrs : ∀ r ∈ rs, r ≠ .next) : left TokenSource.reply rs s = s := by
  induction rs with
  | nil => rfl
  | cons r rs ih =>
    rw [List.forall_mem_cons] at hrs
    have hsame : (TokenSource.reply r s).2 = s := by
      cases r with
      | peek => rw [TokenSource.reply, peek_of_lookahead h, Reply.ofResult]
      | next => exact absurd rfl hrs.1
      | lineText line => rfl
    rw [left, hsame]
    exact ih hrs.2

/-- A source that is looked at has a token at hand, or fails and has none. -/
theorem peek_cases (s : TokenSource) :
    (∃ t s', s.peek = .ok t s' ∧ s'.lookahead = some t) ∨
      ∃ e s', s.peek = .error e s' ∧ s'.lookahead = none := by
  unfold TokenSource.peek
  cases hlook : s.lookahead with
  | some t => exact Or.inl ⟨t, s, rfl, hlook⟩
  | none =>
    cases Scanner.next s.cursor with
    | ok t k => exact Or.inl ⟨t, _, rfl, rfl⟩
    | error e k => exact Or.inr ⟨e, _, rfl, rfl⟩

theorem lookahead_of_reply_peek {t : Token} (h : (TokenSource.reply .peek s).1 = .token t) :
    (TokenSource.reply .peek s).2.lookahead = some t := by
  rcases s.peek_cases with ⟨u, s', hpeek, hlook⟩ | ⟨e, s', hpeek, -⟩
  · simp only [TokenSource.reply, hpeek, Reply.ofResult] at h ⊢
    cases h
    exact hlook
  · simp only [TokenSource.reply, hpeek, Reply.ofResult] at h
    cases h

theorem reply_next_of_lookahead {t : Token} (h : s.lookahead = some t) :
    (TokenSource.reply .next s).1 = .token t := by
  rw [TokenSource.reply, next_of_peek (peek_of_lookahead h)]
  rfl

/-- A token that has been looked at is the one that is taken. -/
theorem reply_next_of_reply_peek {rs : List Request}
    {before between after : List (Request × Reply)} {t : Token} {answer : Reply}
    (h : replies TokenSource.reply rs s =
      before ++ (.peek, .token t) :: (between ++ (.next, answer) :: after))
    (hbetween : ∀ p ∈ between, p.1 ≠ .next) : answer = .token t := by
  obtain ⟨rs₁, rs₂, rfl, -, hafter⟩ := replies_eq_append h
  generalize left TokenSource.reply rs₁ s = s₁ at hafter
  cases rs₂ with
  | nil => cases hafter
  | cons r rs₂ =>
    rw [replies, List.cons.injEq, Prod.mk.injEq] at hafter
    obtain ⟨⟨rfl, hpeek⟩, hlater⟩ := hafter
    have hlookahead := lookahead_of_reply_peek hpeek.symm
    generalize (TokenSource.reply .peek s₁).2 = s₂ at hlater hlookahead
    obtain ⟨rs₃, rs₄, rfl, rfl, hnext⟩ := replies_eq_append hlater.symm
    have hkept : left TokenSource.reply rs₃ s₂ = s₂ := by
      apply left_of_lookahead hlookahead
      intro r hr
      rw [← map_fst_replies TokenSource.reply rs₃ s₂] at hr
      obtain ⟨p, hp, rfl⟩ := List.mem_map.mp hr
      exact hbetween p hp
    rw [hkept] at hnext
    cases rs₄ with
    | nil => cases hnext
    | cons r rs₄ =>
      rw [replies, List.cons.injEq, Prod.mk.injEq] at hnext
      obtain ⟨⟨rfl, rfl⟩, -⟩ := hnext
      exact reply_next_of_lookahead hlookahead

/-- Asking for a line leaves a source as it is. -/
theorem replies_filter (rs : List Request) (s : TokenSource) :
    (replies TokenSource.reply rs s).filter (!·.1.isLine) =
      replies TokenSource.reply (rs.filter (!·.isLine)) s := by
  induction rs generalizing s with
  | nil => rfl
  | cons r rs ih =>
    cases r with
    | lineText line => exact ih s
    | peek => exact congrArg (List.cons _) (ih _)
    | next => exact congrArg (List.cons _) (ih _)

/-- A source that fails has nothing at hand. -/
theorem lookahead_of_failed {r : Request} {e : ScanError}
    (h : (TokenSource.reply r s).1 = .failed e) : (TokenSource.reply r s).2.lookahead = none := by
  rcases s.peek_cases with ⟨t, s', hpeek, -⟩ | ⟨e', s', hpeek, hlook⟩
  · cases r with
    | lineText line => cases h
    | peek =>
      simp only [TokenSource.reply, hpeek, Reply.ofResult] at h
      cases h
    | next =>
      simp only [TokenSource.reply, next_of_peek hpeek, Reply.ofResult] at h
      cases h
  · cases r with
    | lineText line => cases h
    | peek =>
      simp only [TokenSource.reply, hpeek, Reply.ofResult]
      exact hlook
    | next =>
      simp only [TokenSource.reply, TokenSource.next, Grammar.bind_of_error hpeek, Reply.ofResult]
      exact hlook

end TokenSource

/-! ### Sources over reads -/

namespace StreamSource

open Request

variable {reads : List (List Char)} {filename : Option String} {s : StreamSource} {k : TokenSource}

/-- The sources are at the same place of a text, one of them over its reads, and have the same
    token at hand. -/
structure Follows (reads : List (List Char)) (filename : Option String) (s : StreamSource)
    (k : TokenSource) : Prop where
  place : ∃ n, s.stream.Holds reads filename n ∧ k.cursor = .behind reads.flatten filename n
  lookahead : s.lookahead = k.lookahead

theorem follows_ofReads (h : ∀ read ∈ reads, read ≠ []) (filename : Option String) :
    Follows reads filename (ofReads reads filename)
      (TokenSource.ofText (String.ofList reads.flatten) filename) := by
  refine ⟨⟨0, Stream.holds_ofReads h filename, ?_⟩, rfl⟩
  rw [TokenSource.ofText, String.toList_ofList]
  rfl

/-- Results of the two sources in step. -/
inductive InStep (reads : List (List Char)) (filename : Option String) :
    EStateM.Result ScanError StreamSource Token → EStateM.Result ScanError TokenSource Token →
      Prop where
  | ok {s : StreamSource} {k : TokenSource} (t : Token) : Follows reads filename s k →
      InStep reads filename (.ok t s) (.ok t k)
  | error {s : StreamSource} {k : TokenSource} (e : ScanError) : Follows reads filename s k →
      InStep reads filename (.error e s) (.error e k)

theorem Follows.peek (h : Follows reads filename s k) : InStep reads filename s.peek k.peek := by
  obtain ⟨⟨n, hheld, hcursor⟩, hlook⟩ := h
  unfold StreamSource.peek TokenSource.peek
  rw [hlook]
  cases k.lookahead with
  | some t => exact .ok t ⟨⟨n, hheld, hcursor⟩, hlook⟩
  | none =>
    obtain ⟨stop, hcomes, hafter⟩ := Lexer.comes_next reads filename n
    obtain ⟨stream, hstream, hnext⟩ := hcomes hheld
    rw [← hcursor] at hnext hafter
    cases hcall : (Scanner.call k.cursor).outcome with
    | ok t =>
      rw [hcall] at hnext
      rw [hnext, Scanner.next_of_outcome_ok hcall]
      exact .ok t ⟨⟨stop, hstream, hafter⟩, rfl⟩
    | error e =>
      rw [hcall] at hnext
      rw [hnext, Scanner.next_of_outcome_error hcall]
      exact .error e ⟨⟨stop, hstream, hafter⟩, rfl⟩

theorem Follows.next (h : Follows reads filename s k) : InStep reads filename s.next k.next := by
  have hpeek := h.peek
  unfold StreamSource.next TokenSource.next
  generalize hs : s.peek = r at hpeek
  generalize hk : k.peek = r' at hpeek
  cases hpeek with
  | ok t hfollows =>
    rw [Grammar.bind_of_ok hs, Grammar.bind_of_ok hk]
    cases t.isEnd with
    | true => exact .ok t hfollows
    | false => exact .ok t ⟨hfollows.place, rfl⟩
  | error e hfollows =>
    rw [Grammar.bind_of_error hs, Grammar.bind_of_error hk]
    exact .error e hfollows

theorem Follows.lineText? (h : Follows reads filename s k) (line : Int) :
    (s.lineText? line).1 = k.lineText? line ∧ Follows reads filename (s.lineText? line).2 k := by
  obtain ⟨⟨n, hheld, hcursor⟩, hlook⟩ := h
  have hline : k.cursor.line = s.stream.line := by
    rw [hcursor, Cursor.behind_eq hheld.consumed, hheld.line]
  have htext : k.cursor.lineText = s.stream.lineText.1 := by
    rw [hcursor, Cursor.lineText_behind hheld.consumed, hheld.lineText.1]
  unfold StreamSource.lineText? TokenSource.lineText? Cursor.lineText?
  rw [hline, htext]
  split
  · exact ⟨rfl, ⟨n, hheld.lineText.2, hcursor⟩, hlook⟩
  · exact ⟨rfl, ⟨n, hheld, hcursor⟩, hlook⟩

/-- **One request** is answered in the same way by both. -/
theorem Follows.reply (h : Follows reads filename s k) (r : Request) :
    (reply r s).1 = (TokenSource.reply r k).1 ∧
      Follows reads filename (reply r s).2 (TokenSource.reply r k).2 := by
  have hresult {x : EStateM.Result ScanError StreamSource Token}
      {y : EStateM.Result ScanError TokenSource Token} (hxy : InStep reads filename x y) :
      (Reply.ofResult x).1 = (Reply.ofResult y).1 ∧
        Follows reads filename (Reply.ofResult x).2 (Reply.ofResult y).2 := by
    cases hxy with
    | ok t hfollows => exact ⟨rfl, hfollows⟩
    | error e hfollows => exact ⟨rfl, hfollows⟩
  cases r with
  | peek => exact hresult h.peek
  | next => exact hresult h.next
  | lineText line =>
    obtain ⟨hline, hfollows⟩ := h.lineText? line
    exact ⟨congrArg Reply.lineText hline, hfollows⟩

theorem Follows.replies_eq (h : Follows reads filename s k) (rs : List Request) :
    replies StreamSource.reply rs s = replies TokenSource.reply rs k ∧
      Follows reads filename (left StreamSource.reply rs s) (left TokenSource.reply rs k) := by
  induction rs generalizing s k with
  | nil => exact ⟨rfl, h⟩
  | cons r rs ih =>
    obtain ⟨hreply, hnext⟩ := h.reply r
    obtain ⟨hlater, hleft⟩ := ih hnext
    refine ⟨?_, hleft⟩
    rw [replies, replies, hreply, hlater]

/-- **A source of tokens delivers the outcomes of the scanner exactly once**, whatever it is asked
    for and in whatever reads its text arrives: its answers are those of a source over the whole
    text; what it delivers are the outcomes of the calls on that text, from the first on, the end
    of input again and again; a token that has been looked at is the next one taken; asking for a
    line changes no other answer; and a source that fails has nothing at hand. -/
theorem delivers (h : ∀ read ∈ reads, read ≠ []) (filename : Option String)
    (rs : List Request) :
    let source := ofReads reads filename
    let answers := replies reply rs source
    answers =
        replies TokenSource.reply rs
          (TokenSource.ofText (String.ofList reads.flatten) filename) ∧
      (∃ n, answers.filterMap delivered? =
        (Scanner.calls n (.start reads.flatten filename)).map Scanner.Call.outcome) ∧
      (∀ before t later, answers.filterMap delivered? = before ++ .ok t :: later →
        t.isEnd = true → ∀ outcome ∈ later, outcome = .ok t) ∧
      (∀ before t between answer after,
        answers = before ++ (.peek, .token t) :: (between ++ (.next, answer) :: after) →
        (∀ p ∈ between, p.1 ≠ .next) → answer = .token t) ∧
      answers.filter (!·.1.isLine) = replies reply (rs.filter (!·.isLine)) source ∧
      ∀ r e, (reply r (left reply rs source)).1 = .failed e →
        (reply r (left reply rs source)).2.lookahead = none := by
  intro source answers
  have hfollows := follows_ofReads h filename
  obtain ⟨hsame, hleft⟩ := hfollows.replies_eq rs
  have hready : TokenSource.Ready (.start reads.flatten filename) 0
      (TokenSource.ofText (String.ofList reads.flatten) filename) := by
    rw [TokenSource.ofText, String.toList_ofList]
    exact .waiting 0
  have hdelivered : ∃ n, answers.filterMap delivered? =
      (Scanner.calls n (.start reads.flatten filename)).map Scanner.Call.outcome := by
    obtain ⟨n, hn⟩ := hready.delivered rs
    exact ⟨n, (congrArg (List.filterMap delivered?) hsame).trans hn⟩
  refine ⟨hsame, hdelivered, ?_, ?_, ?_, ?_⟩
  · intro before t later hsplit ht
    obtain ⟨n, hn⟩ := hdelivered
    exact Scanner.outcome_after_isEnd (hn.symm.trans hsplit) ht
  · intro before t between answer after hanswers hbetween
    exact TokenSource.reply_next_of_reply_peek (hsame.symm.trans hanswers) hbetween
  · calc answers.filter (!·.1.isLine)
        = replies TokenSource.reply (rs.filter (!·.isLine))
            (TokenSource.ofText (String.ofList reads.flatten) filename) := by
          rw [← TokenSource.replies_filter, ← hsame]
      _ = replies reply (rs.filter (!·.isLine)) source := (hfollows.replies_eq _).1.symm
  · intro r e hfailed
    obtain ⟨hreply, hlast⟩ := hleft.reply r
    rw [hlast.lookahead]
    exact TokenSource.lookahead_of_failed (hreply.symm.trans hfailed)

/-- A number that ends in its point, met by looking, and the end of input, taken twice; the line is
    asked for behind the fault, where it has not been read to its end. -/
theorem delivers_malformedDecimal :
    (∀ read ∈ Stream.readsOf 2 "1.( x".toList, read ≠ []) ∧
      ((∃ n, (replies reply [.peek, .lineText 1, .peek, .next, .next, .next, .peek, .next]
          (ofReads (Stream.readsOf 2 "1.( x".toList) none)).filterMap delivered? =
            (Scanner.calls n (.start (Stream.readsOf 2 "1.( x".toList).flatten none)).map
              Scanner.Call.outcome) ∧
        (replies reply [.peek, .lineText 1, .peek, .next, .next, .next, .peek, .next]
            (ofReads (Stream.readsOf 2 "1.( x".toList) none)).filter (!·.1.isLine) =
          replies reply [.peek, .peek, .next, .next, .next, .peek, .next]
            (ofReads (Stream.readsOf 2 "1.( x".toList) none)) := by
  have hreads : ∀ read ∈ Stream.readsOf 2 "1.( x".toList, read ≠ [] := by decide
  obtain ⟨-, hdelivered, -, -, hlines, -⟩ := delivers hreads none
    [.peek, .lineText 1, .peek, .next, .next, .next, .peek, .next]
  exact ⟨hreads, hdelivered, hlines⟩

end StreamSource

end Juxta
