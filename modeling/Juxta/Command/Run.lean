/-
  Juxta/Command/Run.lean
  ======================
  **Running a command** — an invocation is carried out on the text of its program, and
  `run` does so on a folder of files and a standard input.  A text is read completely
  before anything is printed, so that a program with an error prints no part of a listing.

  The formatter gives the label of the program to no location of its errors.  All commands go
  as many levels deep as `Program` does, unless other limits are set.
-/
import Juxta.Command.Invocation
import Juxta.Folder
import Juxta.Listing

namespace Juxta.Command

/-- A coloured word, a text and the end of the line. -/
def announce (style : Style) (colour : Colour) (word text : String) : String :=
  style.paint colour word ++ " " ++ text ++ "\n"

/-- The outcome of an action that may fail. -/
def Outcome.ofResult {α : Type} (style : Style) (r : Except Failure α) (f : α → Outcome) :
    Outcome :=
  match r with
  | .ok a => f a
  | .error e => .ofFailure style e

/-- The tokens of a text. -/
def tokensOf (text : String) (label : String) : Except Failure (List Token) :=
  match Scanner.all (.start text.toList (some label)) with
  | .ok tokens _ => .ok tokens
  | .error e _ => .error (.ofParseError (.scan e))

/-- The tree of a text. -/
def treeOf (text : String) (label : String) (limits : Limits := {}) : Except Failure Expr :=
  (Program.parseTo limits.reading text (some label)).mapError .ofParseError

/-- What is done with the canonical text of a program. -/
def FormatMode.respond (style : Style) (source : Source) (text : String) (mode : FormatMode)
    (limits : Limits := {}) : Outcome :=
  match mode with
  | .print =>
    .ofResult style (Program.format {} text none limits) fun formatted => { output := formatted }
  | .check =>
    .ofResult style (Program.isFormatted {} text limits) fun formatted =>
      if formatted then
        { output := announce style .green "Already formatted:" source.label }
      else
        { ending := .status 1, output := announce style .yellow "Would reformat:" source.label }
  | .diff =>
    .ofResult style (Program.diff {} source.label text limits) fun diff =>
      if diff.isEmpty then {} else { ending := .status 1, output := diff }
  | .write =>
    if source = .standardInput then .failed style "--write needs a file"
    else
      .ofResult style (Program.format {} text none limits) fun formatted =>
        if text == formatted then {}
        else
          { output := announce style .green "Formatted:" source.label, written := some formatted }

/-- What is done with a program. -/
def Action.respond (style : Style) (source : Source) (text : String) (action : Action)
    (limits : Limits := {}) : Outcome :=
  match action with
  | .tokens =>
    .ofResult style (tokensOf text source.label) fun tokens => { output := Listing.ofTokens tokens }
  | .tree =>
    .ofResult style (treeOf text source.label limits) fun tree =>
      { output := Listing.ofTree tree }
  | .check =>
    .ofResult style (treeOf text source.label limits) fun _ =>
      { output := announce style .green "OK:" (source.label ++ " (no syntax errors)") }
  | .format mode => mode.respond style source text limits

namespace Invocation

/-- Carries an invocation out on the text of its program, if there is one. -/
def respond (style : Style) (i : Invocation) (text : Except ReadError String)
    (limits : Limits := {}) : Outcome :=
  match text with
  | .ok text => i.action.respond style i.source text limits
  | .error .undecodable => { ending := .undecodable }
  | .error (.lookup .tooLong) =>
    .failed style ("[Errno 36] File name too long: " ++ Text.quote i.source.label)
  | .error (.lookup _) => .failed style ("File not found: " ++ i.source.label)

end Invocation

/-- The text of a source. -/
def Source.read (folder : Folder) (input : ByteArray) : Source → Except ReadError String
  | .standardInput => Folder.decode input
  | .file path => folder.read path

/-- The folder after an outcome. -/
def Outcome.applyTo (o : Outcome) (source : Source) (folder : Folder) : Folder :=
  match source, o.written with
  | .file path, some text => folder.write path text
  | _, _ => folder

/-- Runs a command with the given arguments, and gives the folder after it. -/
def run (style : Style) (folder : Folder) (input : ByteArray) (args : List String)
    (limits : Limits := {}) : Outcome × Folder :=
  match Invocation.ofArguments args with
  | .error outcome => (outcome, folder)
  | .ok i =>
    let outcome := i.respond style (i.source.read folder input) limits
    (outcome, outcome.applyTo i.source folder)

end Juxta.Command
