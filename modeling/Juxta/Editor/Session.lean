/-
  Juxta/Editor/Session.lean
  =========================
  **A session with an editor** — the editor tells which documents are open and how they
  change, and asks for outlines and for formatting.  Whenever a document is opened, changed
  or saved its diagnostics are published anew, and when it is closed an empty list is.
  Nothing but the texts of the open documents is kept from one message to the next.

  A request about a document that is not open fails.  After the editor has asked for the
  end of the session, nothing is answered any more.
-/
import Juxta.Editor.Diagnostic
import Juxta.Editor.Document
import Juxta.Editor.DocumentSymbol
import Juxta.Editor.TextEdit

namespace Juxta.Editor

/-- What the editor sends. -/
inductive Message where
  | opened (uri text : String)
  | changed (uri : String) (changes : List Change)
  | saved (uri : String)
  | closed (uri : String)
  | askOutline (uri : String)
  | askFormatting (uri : String)
  | shutdown

/-- What is sent to the editor. -/
inductive Reply where
  | diagnostics (uri : String) (diagnostics : List Diagnostic)
  /-- The answer about an outline; there is none for a document that is no program. -/
  | outline (symbols : Option (List DocumentSymbol))
  | edits (edits : List TextEdit)
  /-- The answer to the request for the end of the session. -/
  | ended
  /-- A request that could not be answered. -/
  | failed

/-- A session: the open documents, and whether it goes on. -/
structure Session where
  documents : Documents := {}
  running : Bool := true

namespace Session

/-- The number of the internal error that a failed request is answered with. -/
def failureCode : Int := -32603

/-- The diagnostics of a document, to be published. -/
def publish (uri text : String) : List Reply :=
  match Diagnostic.ofDocument uri text with
  | .ok diagnostics => [.diagnostics uri diagnostics]
  | .error _ => []

/-- The answer to a request about a document. -/
def answer (s : Session) (uri : String) (reply : String → Except TooManyDigits Reply) :
    List Reply :=
  match s.documents.text? uri with
  | none => [.failed]
  | some text =>
    match reply text with
    | .ok r => [r]
    | .error _ => [.failed]

/-- What a message that arrives while the session goes on leads to. -/
def handle (s : Session) : Message → List Reply × Session
  | .opened uri text => (publish uri text, { s with documents := s.documents.put uri text })
  | .changed uri changes =>
    match s.documents.text? uri with
    | none => ([], s)
    | some text =>
      let text := changes.foldl Change.apply text
      (publish uri text, { s with documents := s.documents.put uri text })
  | .saved uri =>
    match s.documents.text? uri with
    | none => ([], s)
    | some text => (publish uri text, s)
  | .closed uri => ([.diagnostics uri []], { s with documents := s.documents.close uri })
  | .askOutline uri =>
    (s.answer uri fun text => (DocumentSymbol.ofDocument uri text).map .outline, s)
  | .askFormatting uri =>
    (s.answer uri fun text => (TextEdit.formatting {} text).map .edits, s)
  | .shutdown => ([.ended], { s with running := false })

/-- What a message leads to: the replies, and the session after it. -/
def step (s : Session) (m : Message) : List Reply × Session :=
  if s.running then s.handle m else ([], s)

/-- The replies to each of a sequence of messages. -/
def run : Session → List Message → List (List Reply)
  | _, [] => []
  | s, m :: messages =>
    let (replies, s) := s.step m
    replies :: run s messages

end Session

end Juxta.Editor
