/-
  Juxta/Command/Invocation.lean
  =============================
  **Invocations** — what a user can ask for on the command line: the tokens of a program,
  its tree, whether it is well formed, or its canonical text.  The canonical text is
  printed, compared with the program, shown in a diff or written back, and the options for
  the last three exclude each other.

  The program is a file or, under the name `-`, the standard input.  The command comes
  after the options that are common to all commands.  An argument that fits nowhere is an
  error of the command as a whole, wherever it stands.
-/
import Juxta.Command.Outcome
import Juxta.Folder.Path
import Juxta.Release
import Juxta.Text.Lines

namespace Juxta.Command

/-! ### What can be asked for -/

/-- Where the text of a program is. -/
inductive Source where
  | standardInput
  | file (path : Path)
deriving DecidableEq, Repr

namespace Source

/-- The source of the given name. -/
def ofName (name : String) : Source :=
  if name = "-" then .standardInput else .file (.ofText name)

/-- The label of a source in locations and messages. -/
def label : Source → String
  | .standardInput => "<stdin>"
  | .file path => path.text

end Source

/-- What is done with the canonical text of a program. -/
inductive FormatMode where
  | print
  | check
  | diff
  | write
deriving DecidableEq, Repr

/-- What is done with a program. -/
inductive Action where
  | tokens
  | tree
  | check
  | format (mode : FormatMode)
deriving DecidableEq, Repr

/-- An action on a program. -/
structure Invocation where
  action : Action
  source : Source
deriving DecidableEq, Repr

/-! ### The commands -/

/-- The commands. -/
inductive Verb where
  | tokens
  | tree
  | check
  | format
deriving DecidableEq, Repr

/-- The commands by their names; one has two. -/
def Verb.names : List (String × Verb) :=
  [("tokens", .tokens), ("ast", .tree), ("check", .check), ("fmt", .format), ("format", .format)]

/-- The option that asks for the help text. -/
def helpFlag : Flag := { names := ["-h", "--help"], effect := .help }

/-- The option that asks for the version. -/
def versionFlag : Flag := { names := ["-V", "--version"], effect := .version }

/-- The option that asks for more messages, of which there are none. -/
def verboseFlag : Flag := { names := ["-v", "--verbose"] }

/-- The option that compares a program with its canonical text. -/
def checkFlag : Flag := { names := ["--check"], exclusive := true }

/-- The option that shows a diff. -/
def diffFlag : Flag := { names := ["--diff"], exclusive := true }

/-- The option that writes the canonical text back. -/
def writeFlag : Flag := { names := ["-w", "--write"], exclusive := true }

/-- How the program as a whole is used. -/
def programUsage : String :=
  Text.unlines ["usage: maxlang [-h] [-V] [-v] \x7btokens,ast,check,fmt,format\x7d ..."]

/-- The arguments of the program as a whole. -/
def programSignature : Signature where
  program := Release.name
  usage := programUsage
  help := programUsage ++ Text.unlines
    ["",
     "maxlang - lexer, parser and formatter for the maxlang expression language",
     "",
     "positional arguments:",
     "  \x7btokens,ast,check,fmt,format\x7d",
     "                        Available commands",
     "    tokens              Show tokens for a maxlang file (debug)",
     "    ast                 Show AST for a maxlang file (debug)",
     "    check               Check a maxlang file for syntax errors",
     "    fmt (format)        Format a maxlang source file",
     "",
     "options:",
     "  -h, --help            show this help message and exit",
     "  -V, --version         show program's version number and exit",
     "  -v, --verbose         Enable debug logging"]
  version := Release.name ++ " " ++ Release.version
  flags := [helpFlag, versionFlag, verboseFlag]
  operand := .command "command" (Verb.names.map (·.1))

/-- How a command that takes a program and nothing else is used. -/
def plainUsage (name : String) : String :=
  Text.unlines ["usage: maxlang " ++ name ++ " [-h] input"]

/-- The arguments of a command that takes a program and nothing else. -/
def plainSignature (name : String) : Signature where
  program := Release.name ++ " " ++ name
  usage := plainUsage name
  help := plainUsage name ++ Text.unlines
    ["",
     "positional arguments:",
     "  input       Input maxlang file, or '-' for standard input",
     "",
     "options:",
     "  -h, --help  show this help message and exit"]
  flags := [helpFlag]
  operand := .required "input"

/-- How the formatter is used, under either of its names. -/
def formatUsage : String :=
  Text.unlines ["usage: maxlang fmt [-h] [--check | --diff | -w] input"]

/-- The arguments of the formatter. -/
def formatSignature : Signature where
  program := Release.name ++ " fmt"
  usage := formatUsage
  help := formatUsage ++ Text.unlines
    ["",
     "positional arguments:",
     "  input        Input maxlang file, or '-' for standard input",
     "",
     "options:",
     "  -h, --help   show this help message and exit",
     "  --check      Check if the file is formatted without modifying it",
     "  --diff       Show diff of formatting changes",
     "  -w, --write  Write changes to the file (default: print to stdout)"]
  flags := [helpFlag, checkFlag, diffFlag, writeFlag]
  operand := .required "input"

namespace Verb

/-- The arguments of a command. -/
def signature : Verb → Signature
  | .tokens => plainSignature "tokens"
  | .tree => plainSignature "ast"
  | .check => plainSignature "check"
  | .format => formatSignature

/-- What is done with the canonical text, by the options that were given. -/
def formatMode (r : Reading) : FormatMode :=
  if r.has checkFlag then .check
  else if r.has diffFlag then .diff
  else if r.has writeFlag then .write
  else .print

/-- What a command does, by the options that were given. -/
def action (v : Verb) (r : Reading) : Action :=
  match v with
  | .tokens => .tokens
  | .tree => .tree
  | .check => .check
  | .format => .format (formatMode r)

end Verb

namespace Invocation

/-- Refuses arguments that fit nowhere. -/
def refuseExtras (extras : List String) : Except Outcome Unit :=
  if extras.isEmpty then .ok ()
  else .error (programSignature.halted (Signature.unrecognized extras))

/-- What the arguments ask for.  Without a command the help text is shown. -/
def ofArguments (args : List String) : Except Outcome Invocation := do
  let common ← (programSignature.read args).mapError programSignature.halted
  match common.operand with
  | some (name :: rest) =>
    match Verb.names.lookup name with
    | none => throw (programSignature.halted .help)
    | some verb =>
      let own ← (verb.signature.read rest).mapError verb.signature.halted
      refuseExtras (common.extras ++ own.extras)
      return ⟨verb.action own, .ofName ((own.operand.getD []).headD "")⟩
  | _ => do
    refuseExtras common.extras
    throw (programSignature.halted .help)

end Invocation

end Juxta.Command
