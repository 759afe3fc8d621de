import AgentClient.CommandLine.Arguments
import AgentClient.Value.Basic

/-!
# CommandLine/Interface — the commands of the program, with their options and help texts

There are two commands: `version` shows the version, `run` runs a single turn. Reading a command
line gives an `Invocation`; a `Halt` on the way is answered with a help text, the version or an
error. -/

namespace AgentClient.CommandLine

/-- The name of the program. -/
def program : String := "trill-sdk"

/-- The version, as it is shown. -/
def versionText : String := "trill-sdk 0.1.0"

/-- The words that call the command `version`. -/
def versionProgram : String := "trill-sdk version"

/-- The words that call the command `run`. -/
def runProgram : String := "trill-sdk run"

/-- The option for help, which every command has. -/
def helpOption : OptionSpec := ⟨["-h", "--help"], .help⟩

/-- The program itself. -/
def mainGrammar : Grammar :=
  { program
    options := [helpOption, ⟨["--version"], .version⟩]
    argument := .command "command" ["version", "run"] }

/-- The command `version`. -/
def versionGrammar : Grammar :=
  { program := versionProgram, options := [helpOption], argument := .none }

/-- The command `run`. -/
def runGrammar : Grammar :=
  { program := runProgram
    options :=
      [helpOption,
       ⟨["--resume", "-r"], .text⟩,
       ⟨["--schema", "-s"], .text⟩,
       ⟨["--model", "-m"], .text⟩,
       ⟨["--sandbox"], .choice ["read-only", "workspace-write", "danger-full-access"]⟩,
       ⟨["--cd"], .text⟩,
       ⟨["--skip-git-repo-check"], .flag⟩,
       ⟨["--config", "-c"], .text⟩,
       ⟨["--image", "-i"], .text⟩,
       ⟨["--timeout"], .number⟩,
       ⟨["--trill-path"], .text⟩,
       ⟨["--output", "-o"], .choice ["text", "json", "stream"]⟩,
       ⟨["--verbose", "-v"], .flag⟩]
    argument := .required "prompt" }

/-! ## Help -/

/-- The lines of a text, each ended by a line feed. -/
def textLines (lines : List String) : String :=
  String.join (lines.map (· ++ "\n"))

/-- The help text of the program. -/
def mainHelp : String := textLines
  ["usage: trill-sdk [-h] [--version] \x7bversion,run\x7d ...",
   "",
   "Trill SDK - run agent turns through the trill CLI",
   "",
   "positional arguments:",
   "  \x7bversion,run\x7d  Commands",
   "    version      Show version",
   "    run          Run a single turn",
   "",
   "options:",
   "  -h, --help     show this help message and exit",
   "  --version      show program's version number and exit"]

/-- The help text of the command `version`. -/
def versionHelp : String := textLines
  ["usage: trill-sdk version [-h]",
   "",
   "options:",
   "  -h, --help  show this help message and exit"]

/-- The help text of the command `run`. -/
def runHelp : String := textLines
  ["usage: trill-sdk run [-h] [--resume THREAD_ID] [--schema SCHEMA]",
   "                     [--model MODEL]",
   "                     [--sandbox \x7bread-only,workspace-write,danger-full-access\x7d]",
   "                     [--cd WORKING_DIRECTORY] [--skip-git-repo-check]",
   "                     [--config KEY=VALUE] [--image IMAGE] [--timeout TIMEOUT]",
   "                     [--trill-path TRILL_PATH] [--output \x7btext,json,stream\x7d]",
   "                     [--verbose]",
   "                     prompt",
   "",
   "positional arguments:",
   "  prompt                Prompt text, or - to read it from stdin",
   "",
   "options:",
   "  -h, --help            show this help message and exit",
   "  --resume THREAD_ID, -r THREAD_ID",
   "                        Thread to resume",
   "  --schema SCHEMA, -s SCHEMA",
   "                        Path to a JSON Schema for the final response",
   "  --model MODEL, -m MODEL",
   "                        Model to use",
   "  --sandbox \x7bread-only,workspace-write,danger-full-access\x7d",
   "                        Sandbox mode",
   "  --cd WORKING_DIRECTORY",
   "                        Agent working directory",
   "  --skip-git-repo-check",
   "                        Allow running outside a git repo",
   "  --config KEY=VALUE, -c KEY=VALUE",
   "                        Config override (dotted key, JSON value); repeatable",
   "  --image IMAGE, -i IMAGE",
   "                        Attach an image",
   "  --timeout TIMEOUT     Turn timeout in seconds",
   "  --trill-path TRILL_PATH",
   "                        Path to the trill executable (default:",
   "                        $CODEX_EXECUTABLE, then PATH)",
   "  --output \x7btext,json,stream\x7d, -o \x7btext,json,stream\x7d",
   "                        Output format (default: text)",
   "  --verbose, -v         Enable debug logging"]

/-- The help text of a command. -/
def helpText (command : String) : String :=
  if command = runProgram then runHelp
  else if command = versionProgram then versionHelp
  else mainHelp

/-! ## Invocations -/

/-- The formats of the output. -/
inductive OutputFormat where
  | text
  | json
  | stream
  deriving DecidableEq, Repr

/-- What a turn from the command line is given. An option that takes a value is null when it is not
given, and an empty list when it is given no words at all. -/
structure RunArguments where
  prompt : String
  resume : Value
  schema : Value
  model : Value
  sandbox : Value
  workingDirectory : Value
  skipRepositoryCheck : Bool
  config : List Value
  images : List Value
  timeout : Value
  executable : Value
  output : OutputFormat
  verbose : Bool
  deriving DecidableEq

/-- What a command line asks for. -/
inductive Invocation where
  /-- No command is given. -/
  | nothing
  | version
  | run (arguments : RunArguments)
  deriving DecidableEq

/-- The format of a name. -/
def OutputFormat.ofName (name : String) : OutputFormat :=
  if name = "json" then .json else if name = "stream" then .stream else .text

/-- The format that is asked for: a text, unless one of the others is named. -/
def OutputFormat.ofGiven : Option Given → OutputFormat
  | some (.text name) => .ofName name
  | _ => .text

/-- What an option was given, as a value. -/
def Given.toValue : Given → Value
  | .text s => .str s
  | .nothing => .list []

/-- A number that an option was given, as a value. -/
def Given.toNumber : Given → Value
  | .text s => match Number.readFloat? s with
    | some x => .float x
    | none => .null
  | .nothing => .list []

/-- The last that an option was given, as a value. -/
def Reading.valueOf (r : Reading) (name : String) : Value :=
  match r.last? name with
  | some g => g.toValue
  | none => .null

/-- What a turn is given by a command line that was read. -/
def RunArguments.ofReading (r : Reading) : RunArguments :=
  { prompt := (r.argument.bind List.head?).getD ""
    resume := r.valueOf "--resume"
    schema := r.valueOf "--schema"
    model := r.valueOf "--model"
    sandbox := r.valueOf "--sandbox"
    workingDirectory := r.valueOf "--cd"
    skipRepositoryCheck := r.has "--skip-git-repo-check"
    config := (r.all "--config").map Given.toValue
    images := (r.all "--image").map Given.toValue
    timeout := match r.last? "--timeout" with
      | some g => g.toNumber
      | none => .null
    executable := r.valueOf "--trill-path"
    output := .ofGiven (r.last? "--output")
    verbose := r.has "--verbose" }

/-- Words that nothing was found for are an error of the program. -/
def refuseExtras (extras : List String) : Except Halt Unit :=
  if extras.isEmpty then .ok ()
  else .error (.usage program ("unrecognized arguments: " ++ Text.join " " extras))

/-- **What a command line asks for.** -/
def invocation (words : List String) : Except Halt Invocation := do
  let r ← mainGrammar.read words
  match r.argument with
  | some ("run" :: rest) => do
    let inner ← runGrammar.read rest
    refuseExtras (r.extras ++ inner.extras)
    return .run (.ofReading inner)
  | some (_ :: rest) => do
    let inner ← versionGrammar.read rest
    refuseExtras (r.extras ++ inner.extras)
    return .version
  | _ => do
    refuseExtras r.extras
    return .nothing

end AgentClient.CommandLine
