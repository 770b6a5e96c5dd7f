/-
  Juxta/Command/Outcome.lean
  ==========================
  **Outcomes of a command** — what a command prints, what it writes back and how it ends.
  A command that reads its arguments and gets no further has an outcome as well: the help
  text, the version, or an error with the way the command is used.

  Words of a message may be coloured.  They are on a terminal, unless the user asked for
  no colour by any text but the empty one.
-/
import Juxta.Command.Arguments
import Juxta.Program

namespace Juxta.Command

/-! ### Colours -/

/-- The colours of words. -/
inductive Colour where
  | red
  | green
  | yellow
deriving DecidableEq, Repr

/-- The code that switches a colour on. -/
def Colour.code : Colour → String
  | .red => "\x1b[91m"
  | .green => "\x1b[92m"
  | .yellow => "\x1b[93m"

/-- The code that switches every colour off. -/
def plainCode : String := "\x1b[0m"

/-- Whether words are coloured. -/
structure Style where
  coloured : Bool := false
deriving DecidableEq, Repr

namespace Style

/-- The style for an output that may be a terminal, and for what the user has to say
    against colours. -/
def choose (terminal : Bool) (refusal : Option String) : Style :=
  ⟨terminal && (refusal.getD "").isEmpty⟩

/-- A word in a colour. -/
def paint (s : Style) (c : Colour) (word : String) : String :=
  if s.coloured then c.code ++ word ++ plainCode else word

end Style

/-! ### Outcomes -/

/-- How a command ends. -/
inductive Ending where
  /-- With a status: zero if all is well. -/
  | status (code : Nat)
  /-- It breaks off at input that is no UTF-8. -/
  | undecodable
  /-- It breaks off at a number that is too long. -/
  | tooManyDigits (error : TooManyDigits)
deriving DecidableEq, Repr

namespace Ending

/-- The status that the caller of the command sees. -/
def code : Ending → Nat
  | .status code => code
  | .undecodable | .tooManyDigits _ => 1

/-- What the user is told when a command breaks off. -/
def message : Ending → String
  | .status _ => ""
  | .undecodable => "The input is no UTF-8 text.\n"
  | .tooManyDigits e => e.message ++ "\n"

end Ending

/-- What a command does. -/
structure Outcome where
  ending : Ending := .status 0
  /-- The text on the standard output. -/
  output : String := ""
  /-- The text on the standard error output. -/
  errors : String := ""
  /-- The new text of the file that was read, if it is written. -/
  written : Option String := none
deriving DecidableEq, Repr

namespace Outcome

/-- A command that fails with a message. -/
def failed (style : Style) (message : String) : Outcome :=
  { ending := .status 1, errors := style.paint .red "Error:" ++ " " ++ message ++ "\n" }

/-- A command whose text cannot be read or written. -/
def ofFailure (style : Style) : Failure → Outcome
  | .lexical e => failed style e.report.text
  | .syntactic e => failed style e.report.text
  | .format e => failed style e.report.text
  | .tooManyDigits e => { ending := .tooManyDigits e }

end Outcome

/-- The status of a command whose arguments are wrong. -/
def usageStatus : Nat := 2

/-- A command that got no further than its arguments. -/
def Signature.halted (s : Signature) : Halt → Outcome
  | .help => { output := s.help }
  | .version => { output := s.version ++ "\n" }
  | .error message => { ending := .status usageStatus, errors := s.errorText message }

end Juxta.Command
