import AgentClient.Failure.Fault
import AgentClient.Text.Blank
import AgentClient.Text.Truncate
import AgentClient.Value.Display

/-!
# Failure/ClientError — what a client reports, with the exit codes of the command line

Every way in which a configuration, a process, a turn or an answer may fail has a constructor with
what is known about it. The message is computed from that, and so is the exit code.
-/

namespace AgentClient

/-- Why a configuration is refused. -/
inductive ConfigCause where
  /-- Overrides were given as a value of this type. -/
  | notTable (typeName : String)
  /-- A key is empty or no text. -/
  | badKey
  /-- A number is not finite. -/
  | notFinite (path : String)
  /-- A value is null. -/
  | nullValue (path : String)
  /-- A value of this type cannot be written. -/
  | unsupported (path typeName : String)
  /-- An override on the command line has no key or no value. -/
  | badOverride (pair : String)
  /-- An override on the command line goes through a value that is no table. -/
  | conflict (key : String)
  /-- An output schema is of this type. -/
  | badSchema (typeName : String)
  /-- Another cause with a text of its own. -/
  | other (text : String)
  deriving DecidableEq, Repr

/-- The text of a cause. -/
def ConfigCause.message : ConfigCause → String
  | .notTable typeName => "Config overrides must be a mapping, got " ++ typeName
  | .badKey => "Config override keys must be non-empty strings"
  | .notFinite path => "Config override at " ++ path ++ " must be a finite number"
  | .nullValue path => "Config override at " ++ path ++ " cannot be None"
  | .unsupported path typeName =>
    "Unsupported config override value at " ++ path ++ ": " ++ typeName
  | .badOverride pair => "Invalid config override '" ++ pair ++ "', expected KEY=VALUE"
  | .conflict key => "Config override '" ++ key ++ "' conflicts with an earlier value"
  | .badSchema typeName =>
    "output_schema must be a JSON Schema object or a pydantic model class, got " ++ typeName
  | .other text => text

/-- Why a process could not be started. -/
inductive LaunchCause where
  /-- The operating system refused. -/
  | refused (executable : String) (error : SystemError)
  /-- The process came up without pipes to it. -/
  | noPipes (executable : String)
  /-- Another cause with a text of its own. -/
  | other (text : String)
  deriving DecidableEq, Repr

/-- The text of a cause. -/
def LaunchCause.message : LaunchCause → String
  | .refused executable error =>
    "Failed to start trill at '" ++ executable ++ "': " ++ error.message
  | .noPipes executable => "trill at '" ++ executable ++ "' started without stdio pipes"
  | .other text => text

/-- Why a wire line is no event. -/
inductive ProtocolCause where
  /-- It is no JSON document. -/
  | unreadable (fault : Json.Fault)
  /-- It is no table. -/
  | notTable
  /-- It is a table, but no event. -/
  | malformed (fault : Fault)
  /-- Another cause with a text of its own. -/
  | other (text : String)
  deriving DecidableEq, Repr

/-- The text of a cause. -/
def ProtocolCause.message : ProtocolCause → String
  | .unreadable fault => "Failed to parse event: " ++ fault.message
  | .notTable => "Event must be a JSON object"
  | .malformed fault => "Malformed event: " ++ fault.shown
  | .other text => text

/-- What is wrong with a field of an answer, or with the whole of it. -/
inductive MismatchKind where
  | unreadable
  | notText
  | notTable
  | missingField
  | fieldNotText
  | fieldNotChoice
  | forbiddenField
  deriving DecidableEq, Repr

/-- The name of a kind of mismatch. -/
def MismatchKind.label : MismatchKind → String
  | .unreadable => "json_invalid"
  | .notText => "json_type"
  | .notTable => "model_type"
  | .missingField => "missing"
  | .fieldNotText => "string_type"
  | .fieldNotChoice => "literal_error"
  | .forbiddenField => "extra_forbidden"

/-- A mismatch between an answer and a record model, at a field or at the whole answer. -/
structure Mismatch where
  kind : MismatchKind
  field : Option String
  deriving DecidableEq, Repr

/-- What stands behind a mismatched answer. -/
inductive MismatchCause where
  /-- The answer was checked and these mismatches were found. -/
  | found (mismatches : List Mismatch)
  /-- A fault with a kind and a text. -/
  | fault (fault : Fault)
  deriving DecidableEq, Repr

/-- A cause in one line. -/
def MismatchCause.message : MismatchCause → String
  | .found mismatches =>
    "ValidationError: " ++ Text.join ", " (mismatches.map fun m => m.kind.label)
  | .fault f => f.kind.label ++ ": " ++ f.message

/-- What a client reports. -/
inductive ClientError where
  /-- An error with no more than a text. -/
  | general (text : String)
  /-- A turn is running on the thread. -/
  | busy
  /-- The configuration is refused, before any process is started. -/
  | config (cause : ConfigCause)
  /-- The executable is not there. -/
  | executableNotFound (path : Option String)
  /-- The process could not be started. -/
  | launch (cause : LaunchCause)
  /-- The process ended with a code other than zero. -/
  | exit (code : Int) (stderr : String)
  /-- The turn did not end in time. -/
  | timeout (seconds : Value)
  /-- A wire line is no event. -/
  | protocol (cause : ProtocolCause) (line : Option String)
  /-- The agent reported that the stream is broken. -/
  | stream (text : WireText) (line : Option String)
  /-- The agent reported that the turn failed. -/
  | turnFailed (text : WireText) (threadId : Option WireText)
  /-- The answer is not what the record model declares. -/
  | mismatch (text : String) (response : Value) (cause : Option MismatchCause)
  deriving DecidableEq

/-- A failure: an error that the client reports, or a fault that it lets through. -/
inductive Failure where
  | client (error : ClientError)
  | fault (fault : Fault)
  deriving DecidableEq

namespace ClientError

/-- A number of seconds to six significant digits, as far as the value is a number. -/
def secondsText : Value → Except Fault String
  | .bool b => .ok (if b then "1" else "0")
  | .int n =>
    match Number.Binary64.ofInt n with
    | .infinite _ => .error .beyondFloat
    | x => .ok x.generalText
  | .float x => .ok x.generalText
  | .str _ | .broken _ => .error .textNotFormattable
  | v => .error (.notFormattable v.typeName)

/-- The error of a turn that did not end within some seconds; its text needs them to be a number. -/
def timedOut (seconds : Value) : Except Fault ClientError :=
  (secondsText seconds).map fun _ => .timeout seconds

/-- A foreign text in a message: cut, then in quotation marks. -/
def excerpt (s : String) : String :=
  Text.quoted (Text.truncate Text.messageLimit s)

/-- A text with a wire line under it. -/
def withLine (text : String) : Option String → String
  | none => text
  | some line => text ++ "\n  Line: " ++ excerpt line

/-- A value of a message: a string is cut. -/
def excerptValue : Value → String
  | .str s => excerpt s
  | v => v.display

/-- The message of an error. -/
def message : ClientError → String
  | .general text => text
  | .busy => "A turn is already running on this thread"
  | .config cause => cause.message
  | .executableNotFound path =>
    if (path.getD "") = "" then
      "trill executable not found on PATH. Pass trill_path_override or set CODEX_EXECUTABLE."
    else "trill executable not found at '" ++ path.getD "" ++ "'"
  | .launch cause => cause.message
  | .exit code stderr =>
    "trill exited with code " ++ Number.intText code
      ++ (if stderr = "" then "" else "\n  stderr: " ++ Text.truncate 500 (Text.strip stderr))
  | .timeout seconds =>
    "Turn timed out after " ++ (secondsText seconds).toOption.getD "" ++ " seconds"
  | .protocol cause line => withLine cause.message line
  | .stream text line => withLine text.escaped line
  | .turnFailed text _ => text.escaped
  | .mismatch text response cause =>
    text
      ++ (if response.isTruthy then "\n  Response: " ++ excerptValue response else "")
      ++ (match cause with | none => "" | some c => "\n  Caused by " ++ c.message)

/-- **The exit code of an error** on the command line: 2 for a configuration, 3 for a process, 4 for
a turn out of time, 1 for the rest. -/
def exitCode : ClientError → Nat
  | .config _ | .executableNotFound _ => 2
  | .launch _ | .exit .. => 3
  | .timeout _ => 4
  | _ => 1

end ClientError

namespace Failure

/-- The message of a failure. -/
def message : Failure → String
  | .client error => error.message
  | .fault f => f.message

/-- Whether a failure is about the configuration. -/
def isConfig : Failure → Bool
  | .client (.config _) | .client (.executableNotFound _) => true
  | _ => false

end Failure

end AgentClient
