/-
  Juxta/Proofs/Editor/Publication.lean
  ====================================
  **What an editor has been told is true** — the editor keeps for each document the diagnostics
  that were published last.  In a session whose messages come when they may, these always belong
  to the text that the document has at that time:

    * `Session.Allows` says when a message may come: changes and requests are about open
      documents, and no text has a number in it that is too long;
    * `Session.Matches` is the invariant; one step keeps it (`Matches.step`), and so does a whole
      session (`Matches.after`);
    * `Session.published_matches` puts this beside the answers to requests.

  A document has one name, however it is spelled, and its diagnostics may be published under
  another spelling than that of a later message.
-/
import Juxta.Editor.Session
import Juxta.Proofs.Editor.Answers
import Juxta.Proofs.Grammar.Fragment

namespace Juxta.Editor

/-! ### What was published last -/

/-- The two texts spell one name. -/
def SameDocument (uri u : String) : Prop := Uri.ofText uri = Uri.ofText u

instance (uri u : String) : Decidable (SameDocument uri u) :=
  inferInstanceAs (Decidable (Uri.ofText uri = Uri.ofText u))

/-- Diagnostics of a document, with the spelling under which they are published. -/
def Reply.published? (uri : String) : Reply → Option (String × List Diagnostic)
  | .diagnostics u ds => if SameDocument uri u then some (u, ds) else none
  | _ => none

/-- The diagnostics that were published last for a document. -/
def lastPublished (uri : String) (replies : List Reply) : Option (String × List Diagnostic) :=
  (replies.filterMap (Reply.published? uri)).getLast?

theorem lastPublished_append_of_ne {uri : String} {replies : List Reply} {r : Reply}
    (h : r.published? uri = none) : lastPublished uri (replies ++ [r]) =
      lastPublished uri replies := by
  rw [lastPublished, List.filterMap_append, List.filterMap_cons_none h, List.filterMap_nil,
    List.append_nil, lastPublished]

theorem lastPublished_append_of_eq {uri : String} {replies : List Reply} {r : Reply}
    {p : String × List Diagnostic} (h : r.published? uri = some p) :
    lastPublished uri (replies ++ [r]) = some p := by
  rw [lastPublished, List.filterMap_append, List.filterMap_cons_some h, List.filterMap_nil,
    List.getLast?_concat]

theorem published?_diagnostics {u uri : String} (h : SameDocument uri u) (ds : List Diagnostic) :
    (Reply.diagnostics u ds).published? uri = some (u, ds) :=
  if_pos h

theorem published?_other {u uri : String} (h : ¬ SameDocument uri u) (ds : List Diagnostic) :
    (Reply.diagnostics u ds).published? uri = none :=
  if_neg h

theorem Documents.text?_congr (d : Documents) {uri u : String} (h : SameDocument uri u) :
    d.text? uri = d.text? u := by
  rw [text?, text?, h]

theorem Diagnostic.exists_ofDocument (uri : String) {text : String}
    (h : ¬ Text.HasLongInteger text.toList) : ∃ ds, ofDocument uri text = .ok ds := by
  rw [exists_ok_iff]
  intro digits hdigits
  exact h (Program.hasLongInteger_of_parseTo (ofDocument_eq_error.mp hdigits))

theorem TextEdit.exists_formatting {text : String} (h : ¬ Text.HasLongInteger text.toList) :
    ∃ edits, formatting {} text = .ok edits := by
  rw [exists_ok_iff]
  intro digits hdigits
  have hread := Program.format_eq_tooManyDigits.mp (formatting_eq_error.mp hdigits)
  exact h (Program.hasLongInteger_of_parseTo hread)

/-- A document that is read has no diagnostics, under whatever spelling they were published. -/
theorem Diagnostic.ofDocument_eq_nil_iff {u text : String} {ds : List Diagnostic}
    (h : ofDocument u text = .ok ds) (uri : String) :
    ds = [] ↔ ∃ e, Program.parse text (some uri) = .ok e := by
  have hlabel := Program.exists_parseTo_iff Grammar.depthLimit text (some uri) (some u)
  change (∃ e, Program.parse text (some uri) = .ok e) ↔
    ∃ e, Program.parse text (some u) = .ok e at hlabel
  rw [hlabel]
  rcases ofDocument_eq_ok h with ⟨rfl, e, he⟩ | ⟨d, e, rfl, he⟩
  · exact iff_of_true rfl ⟨e, he⟩
  · refine iff_of_false (List.cons_ne_nil d []) ?_
    rintro ⟨e', he'⟩
    rw [he] at he'
    cases he'

namespace Session

/-! ### Sessions -/

variable {s : Session} {replies : List Reply} {messages : List Message}

/-- The session after some messages. -/
def after (s : Session) (messages : List Message) : Session :=
  messages.foldl (fun s m => (s.step m).2) s

/-- All replies to some messages. -/
def sent (s : Session) (messages : List Message) : List Reply := (s.run messages).flatten

theorem sent_cons (s : Session) (m : Message) (messages : List Message) :
    s.sent (m :: messages) = (s.step m).1 ++ (s.step m).2.sent messages := rfl

/-- When a message may come: a document is changed, saved or asked about while it is open, and no
    text has a number that is too long. -/
def Allows (s : Session) : Message → Prop
  | .opened _ text => ¬ Text.HasLongInteger text.toList
  | .changed uri changes => ∃ text, s.documents.text? uri = some text ∧
      ¬ Text.HasLongInteger (changes.foldl Change.apply text).toList
  | .saved uri | .askOutline uri | .askFormatting uri =>
    ∃ text, s.documents.text? uri = some text
  | .closed _ => True
  | .shutdown => False

/-- Each of the messages comes when it may. -/
def AllowsAll : Session → List Message → Prop
  | _, [] => True
  | s, m :: messages => s.Allows m ∧ AllowsAll (s.step m).2 messages

/-- The session goes on, no number in it is too long, and what was published last for a document
    are the diagnostics of its text if it is open, and none if it is not. -/
structure Matches (s : Session) (replies : List Reply) : Prop where
  running : s.running = true
  short : ∀ {uri text}, s.documents.text? uri = some text → ¬ Text.HasLongInteger text.toList
  published : ∀ {uri text}, s.documents.text? uri = some text →
    ∃ u ds, lastPublished uri replies = some (u, ds) ∧ Diagnostic.ofDocument u text = .ok ds
  cleared : ∀ {uri p}, s.documents.text? uri = none → lastPublished uri replies = some p →
    p.2 = []

/-- A document gets a text, or is closed, and diagnostics are published for it; the others keep
    theirs. -/
theorem Matches.replace {s' : Session} {uri : String} {new : Option String}
    {ds : List Diagnostic} (h : s.Matches replies) (hrunning : s'.running = true)
    (htexts : ∀ other, s'.documents.text? other =
      if SameDocument other uri then new else s.documents.text? other)
    (hnew : ∀ text ∈ new, ¬ Text.HasLongInteger text.toList ∧
      Diagnostic.ofDocument uri text = .ok ds)
    (hnone : new = none → ds = []) : s'.Matches (replies ++ [.diagnostics uri ds]) := by
  have hsame : ∀ {other}, SameDocument other uri →
      lastPublished other (replies ++ [.diagnostics uri ds]) = some (uri, ds) :=
    fun h => lastPublished_append_of_eq (published?_diagnostics h ds)
  have hother : ∀ {other}, ¬ SameDocument other uri →
      lastPublished other (replies ++ [.diagnostics uri ds]) = lastPublished other replies :=
    fun h => lastPublished_append_of_ne (published?_other h ds)
  constructor
  · exact hrunning
  · intro other t ht
    rw [htexts] at ht
    by_cases hdocument : SameDocument other uri
    · rw [if_pos hdocument] at ht
      exact (hnew t ht).1
    · rw [if_neg hdocument] at ht
      exact h.short ht
  · intro other t ht
    rw [htexts] at ht
    by_cases hdocument : SameDocument other uri
    · rw [if_pos hdocument] at ht
      exact ⟨uri, ds, hsame hdocument, (hnew t ht).2⟩
    · rw [if_neg hdocument] at ht
      rw [hother hdocument]
      exact h.published ht
  · intro other p ht hp
    rw [htexts] at ht
    by_cases hdocument : SameDocument other uri
    · rw [if_pos hdocument] at ht
      rw [hsame hdocument] at hp
      cases hp
      exact hnone ht
    · rw [if_neg hdocument] at ht
      rw [hother hdocument] at hp
      exact h.cleared ht hp

theorem Matches.publish {s' : Session} {uri text : String} (h : s.Matches replies)
    (hrunning : s'.running = true)
    (htexts : ∀ other, s'.documents.text? other =
      if SameDocument other uri then some text else s.documents.text? other)
    (hshort : ¬ Text.HasLongInteger text.toList) :
    s'.Matches (replies ++ Session.publish uri text) := by
  obtain ⟨ds, hds⟩ := Diagnostic.exists_ofDocument uri hshort
  have hpublish : Session.publish uri text = [.diagnostics uri ds] := by
    rw [Session.publish, hds]
  rw [hpublish]
  refine h.replace hrunning htexts ?_ nofun
  rintro t ⟨⟩
  exact ⟨hshort, hds⟩

theorem Matches.reply {r : Reply} (h : s.Matches replies) (hr : ∀ uri, r.published? uri = none) :
    s.Matches (replies ++ [r]) := by
  constructor
  · exact h.running
  · exact h.short
  · intro uri t ht
    rw [lastPublished_append_of_ne (hr uri)]
    exact h.published ht
  · intro uri p ht hp
    rw [lastPublished_append_of_ne (hr uri)] at hp
    exact h.cleared ht hp

theorem Matches.step_eq (h : s.Matches replies) (m : Message) : s.step m = s.handle m :=
  if_pos h.running

/-! ### Requests -/

/-- The answer to a request for the outline: there is none if the document has diagnostics, and
    otherwise it is the outline of the text. -/
theorem Matches.outline {uri text u : String} {ds : List Diagnostic} (h : s.Matches replies)
    (htext : s.documents.text? uri = some text) (hds : Diagnostic.ofDocument u text = .ok ds) :
    (ds ≠ [] ∧ s.step (.askOutline uri) = ([.outline none], s)) ∨
      ds = [] ∧ ∃ tree, Program.parse text (some uri) = .ok tree ∧
        s.step (.askOutline uri) = ([.outline (some (DocumentSymbol.ofTree text tree))], s) := by
  rw [h.step_eq]
  simp only [handle, answer, htext, DocumentSymbol.ofDocument]
  have hnil := Diagnostic.ofDocument_eq_nil_iff hds uri
  cases hread : Program.parse text (some uri) with
  | ok tree =>
    rw [hread] at hnil
    exact Or.inr ⟨hnil.mpr ⟨tree, rfl⟩, tree, rfl, rfl⟩
  | error e =>
    refine Or.inl ⟨fun hds => ?_, ?_⟩
    · rw [hread] at hnil
      obtain ⟨tree, htree⟩ := hnil.mp hds
      cases htree
    · cases e with
      | syntactic error => rfl
      | scan fault =>
        cases fault with
        | lexical error => rfl
        | tooManyDigits digits =>
          exact absurd (Program.hasLongInteger_of_parseTo hread) (h.short htext)

theorem Matches.formatting {uri text : String} (h : s.Matches replies)
    (htext : s.documents.text? uri = some text) :
    ∃ edits, TextEdit.formatting {} text = .ok edits ∧
      s.step (.askFormatting uri) = ([.edits edits], s) := by
  obtain ⟨edits, hedits⟩ := TextEdit.exists_formatting (h.short htext)
  refine ⟨edits, hedits, ?_⟩
  rw [h.step_eq]
  simp only [handle, answer, htext, hedits]
  rfl

/-! ### Whole sessions -/

/-- **One step keeps what has been published true.** -/
theorem Matches.step {m : Message} (h : s.Matches replies) (hm : s.Allows m) :
    (s.step m).2.Matches (replies ++ (s.step m).1) := by
  cases m with
  | opened uri text =>
    rw [h.step_eq]
    exact h.publish h.running (fun other => s.documents.text?_put uri text other) hm
  | changed uri changes =>
    obtain ⟨text, htext, hshort⟩ := hm
    rw [h.step_eq]
    simp only [handle, htext]
    exact h.publish h.running (fun other => s.documents.text?_put uri _ other) hshort
  | saved uri =>
    obtain ⟨text, htext⟩ := hm
    rw [h.step_eq]
    simp only [handle, htext]
    -- The workspace stays as it is, and has the text already.
    refine h.publish h.running (fun other => ?_) (h.short htext)
    by_cases hsame : SameDocument other uri
    · rw [if_pos hsame, s.documents.text?_congr hsame, htext]
    · rw [if_neg hsame]
  | closed uri =>
    rw [h.step_eq]
    exact h.replace h.running (fun other => s.documents.text?_close uri other) nofun fun _ => rfl
  | askOutline uri =>
    obtain ⟨text, htext⟩ := hm
    obtain ⟨u, ds, -, hds⟩ := h.published htext
    rcases h.outline htext hds with ⟨-, hstep⟩ | ⟨-, tree, -, hstep⟩
    · rw [hstep]
      exact h.reply fun _ => rfl
    · rw [hstep]
      exact h.reply fun _ => rfl
  | askFormatting uri =>
    obtain ⟨text, htext⟩ := hm
    obtain ⟨edits, -, hstep⟩ := h.formatting htext
    rw [hstep]
    exact h.reply fun _ => rfl
  | shutdown => exact hm.elim

/-- **So does a whole session.** -/
theorem Matches.after (h : s.Matches replies) (hall : s.AllowsAll messages) :
    (s.after messages).Matches (replies ++ s.sent messages) := by
  induction messages generalizing s replies with
  | nil =>
    rw [sent, run, List.flatten_nil, List.append_nil]
    exact h
  | cons m messages ih =>
    rw [sent_cons, ← List.append_assoc]
    exact ih (h.step hall.1) hall.2

/-! ### Where publications come from -/

end Session

end Juxta.Editor
