/-
  Juxta/Command/Launch.lean
  =========================
  **Launching the editor server** — the arguments of the server say how it talks to the
  editor, over the standard streams or over a socket, and how much it logs.
-/
import Juxta.Command.Outcome
import Juxta.Release
import Juxta.Text.Lines

namespace Juxta.Command

/-- How much is logged. -/
inductive LogLevel where
  | debug
  | info
  | warning
  | error
deriving DecidableEq, Repr

namespace LogLevel

/-- The levels by their names. -/
def names : List (String × LogLevel) :=
  [("debug", .debug), ("info", .info), ("warning", .warning), ("error", .error)]

/-- The name of a level in the log. -/
def title : LogLevel → String
  | .debug => "DEBUG"
  | .info => "INFO"
  | .warning => "WARNING"
  | .error => "ERROR"

end LogLevel

/-- How the server talks to the editor. -/
inductive Channel where
  | standardStreams
  | socket (host : String) (port : Int)
deriving DecidableEq, Repr

/-- What the server is started with. -/
structure Launch where
  channel : Channel := .standardStreams
  level : LogLevel := .info
deriving DecidableEq, Repr

namespace Launch

/-- The option that asks for the help text. -/
def helpFlag : Flag := { names := ["-h", "--help"], effect := .help }

/-- The option that asks for a socket. -/
def socketFlag : Flag := { names := ["--tcp"] }

/-- The host of the socket. -/
def hostFlag : Flag := { names := ["--host"], value := .text }

/-- The port of the socket. -/
def portFlag : Flag := { names := ["--port"], value := .integer }

/-- The level of the log. -/
def levelFlag : Flag :=
  { names := ["--log-level"], value := .oneOf (LogLevel.names.map (·.1)) }

/-- The host, when no other is given. -/
def defaultHost : String := "127.0.0.1"

/-- The port, when no other is given. -/
def defaultPort : Int := 2087

/-- How the server is used. -/
def usage : String :=
  Text.unlines
    ["usage: maxlang-lsp [-h] [--tcp] [--host HOST] [--port PORT]",
     "                   [--log-level \x7bdebug,info,warning,error\x7d]"]

/-- The arguments of the server. -/
def signature : Signature where
  program := Release.serverName
  usage := usage
  help := usage ++ Text.unlines
    ["",
     "maxlang Language Server",
     "",
     "options:",
     "  -h, --help            show this help message and exit",
     "  --tcp                 Start server in TCP mode instead of stdio",
     "  --host HOST           Host to bind to in TCP mode (default: 127.0.0.1)",
     "  --port PORT           Port to listen on in TCP mode (default: 2087)",
     "  --log-level \x7bdebug,info,warning,error\x7d",
     "                        Logging level (default: info)"]
  flags := [helpFlag, socketFlag, hostFlag, portFlag, levelFlag]
  operand := .nothing

/-- The port that was given, or the default. -/
def portOf (r : Reading) : Int :=
  ((r.value? portFlag).bind fun text => Text.integer? Scan.digitLimit text.toList).getD defaultPort

/-- The channel that was asked for. -/
def channelOf (r : Reading) : Channel :=
  if r.has socketFlag then .socket ((r.value? hostFlag).getD defaultHost) (portOf r)
  else .standardStreams

/-- The level that was asked for. -/
def levelOf (r : Reading) : LogLevel :=
  ((r.value? levelFlag).bind fun name => LogLevel.names.lookup name).getD .info

/-- What the arguments of the server ask for. -/
def ofArguments (args : List String) : Except Outcome Launch := do
  let r ← (signature.read args).mapError signature.halted
  if r.extras.isEmpty then return ⟨channelOf r, levelOf r⟩
  else throw (signature.halted (Signature.unrecognized r.extras))

end Launch

end Juxta.Command
