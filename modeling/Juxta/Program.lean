/-
  Juxta/Program.lean
  ==================
  **Programs as texts** — a program text is read into its tree, written in its canonical
  form, compared with that form, and shown together with it in a diff.

  Reading stops at the first thing that is wrong, from left to right.  `Failure` collects
  what can keep a text from being read or written; all but one kind of it are reported to
  the reader of the text.
-/
import Juxta.Diff.Unified
import Juxta.Grammar.Productions
import Juxta.Layout.Render

namespace Juxta

/-- Why a text could not be read or written. -/
inductive Failure where
  | lexical (error : LexicalError)
  | syntactic (error : SyntaxError)
  | format (error : FormatError)
  | tooManyDigits (error : TooManyDigits)
deriving DecidableEq, Repr

namespace Failure

/-- The failure of reading a program. -/
def ofParseError : ParseError → Failure
  | .scan (.lexical e) => .lexical e
  | .scan (.tooManyDigits e) => .tooManyDigits e
  | .syntactic e => .syntactic e

/-- The failure as it is shown; a number that is too long is not. -/
def report? : Failure → Option Report
  | .lexical e => some e.report
  | .syntactic e => some e.report
  | .format e => some e.report
  | .tooManyDigits _ => none

end Failure

/-- How many levels of a program are read and written. -/
structure Limits where
  reading : Nat := Grammar.depthLimit
  writing : Nat := Layout.depthLimit
deriving DecidableEq, Repr

namespace Program

/-- Reads a program from a source of tokens and leaves the source where it stops. -/
def read : EStateM ParseError TokenSource Expr := Grammar.program Grammar.depthLimit

/-- The tree of a program text with at most `depth` expressions nested in each other.  The label
    goes into every location. -/
def parseTo (depth : Nat) (text : String) (filename : Option String := none) :
    Except ParseError Expr :=
  match Grammar.program depth (TokenSource.ofText text filename) with
  | .ok e _ => .ok e
  | .error e _ => .error e

/-- The tree of a program text. -/
def parse (text : String) (filename : Option String := none) : Except ParseError Expr :=
  parseTo Grammar.depthLimit text filename

/-- The canonical text of a program. -/
def format (layout : Layout) (text : String) (filename : Option String := none)
    (limits : Limits := {}) : Except Failure String := do
  let tree ← (parseTo limits.reading text filename).mapError .ofParseError
  (layout.render tree limits.writing).mapError .format

/-- Whether a program text is its own canonical text. -/
def isFormatted (layout : Layout) (text : String) (limits : Limits := {}) :
    Except Failure Bool := do
  return text == (← format layout text none limits)

/-- The diff from a program text to its canonical text; empty if they are equal. -/
def diff (layout : Layout) (name text : String) (limits : Limits := {}) :
    Except Failure String := do
  let formatted ← format layout text none limits
  return if text == formatted then "" else Diff.unified name text formatted

end Program

end Juxta
