/-
  Juxta/Editor/Diagnostic.lean
  ============================
  **Diagnostics** — what an editor is told about a document that is no program.  Reading
  stops at the first error, so that a document has at most one diagnostic.
-/
import Juxta.Editor.Position
import Juxta.Program
import Juxta.Release

namespace Juxta.Editor

/-- Which part of the reader an error comes from. -/
inductive Phase where
  | lexer
  | parser
deriving DecidableEq, Repr

/-- The name of a part of the reader. -/
def Phase.name : Phase → String
  | .lexer => "lexer"
  | .parser => "parser"

/-- An error at its place in a document. -/
structure Diagnostic where
  range : Range
  message : String
  phase : Phase
deriving DecidableEq, Repr

namespace Diagnostic

/-- Who the diagnostics are from. -/
def origin : String := Release.name

/-- The diagnostic of an error at a location of a text. -/
def ofReport (text : String) (report : Report) (phase : Phase) : Diagnostic :=
  let range := match report.location with
    | some l => Range.ofLocation l (Text.splitNewlines text.toList)
    | none => .onLine 0 0 1
  ⟨range, report.message, phase⟩

/-- The diagnostics of a document. -/
def ofDocument (uri text : String) : Except TooManyDigits (List Diagnostic) :=
  match Program.parse text (some uri) with
  | .ok _ => .ok []
  | .error (.scan (.lexical e)) => .ok [ofReport text e.report .lexer]
  | .error (.syntactic e) => .ok [ofReport text e.report .parser]
  | .error (.scan (.tooManyDigits e)) => .error e

end Diagnostic

end Juxta.Editor
