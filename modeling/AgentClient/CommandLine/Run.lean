import AgentClient.CommandLine.Interface
import AgentClient.Config.Overrides
import AgentClient.Conversation.Thread

/-!
# CommandLine/Run — one turn from the command line

The program reads its command line, runs a turn and shows the result as a text, as one document, or
as one document for every event as it comes. Whatever goes wrong on the way is shown on the error
stream and decides the exit code.

An event and the items of a result are copied part by part before they are written as documents,
which takes two calls for every list and table around a part. So there are values that an agent can
send and a document cannot show: reading them took half the calls. The output takes texts as UTF-8,
which has no bytes for half of a surrogate pair; the error stream writes such a half as its escape.
-/

namespace AgentClient.CommandLine

/-- What the program leaves behind. -/
structure Outcome where
  code : Nat
  stdout : String
  stderr : String
  journal : Journal
  deriving DecidableEq

/-- What the program runs in: its surroundings, its input, and what its processes will do. -/
structure World where
  surroundings : Surroundings
  stdin : String
  scripts : List Script

/-! ## The parts of a turn -/

/-- The prompt, which may be on the input. -/
def promptOf (w : World) (a : RunArguments) : String :=
  if a.prompt = "-" then w.stdin else a.prompt

/-- The schema, from a file if one is named. -/
def schemaOf (w : World) (a : RunArguments) : Except Failure Value :=
  match a.schema with
  | .str path =>
    if path = "" then .ok .null
    else
      match w.surroundings.readFile path with
      | .error f => .error (.fault f)
      | .ok text => (Json.read .wire text).mapError fun f => .fault (.json f)
  | _ => .ok .null

/-- The input of the turn. -/
def inputOf (w : World) (a : RunArguments) : Input :=
  if a.images.isEmpty then .text (promptOf w a)
  else .entries (.text (promptOf w a) :: a.images.map .image)

/-- A text that may not be given, as a value. -/
def givenText : Option String → Value
  | none => .null
  | some s => .str s

/-- The executable, named on the command line or else by the environment. -/
def executableOf (s : Surroundings) (a : RunArguments) : Value :=
  match a.executable with
  | .null => givenText (s.valueOf? "CODEX_EXECUTABLE")
  | v => v

/-- Put an override into a table. What is no text cannot be taken apart. -/
def putGivenOverride (t : Table) : Value → Except Failure Table
  | .str pair => Config.putOverride t pair
  | v => .error (.fault (.notDivisible v.typeName))

/-- The configuration, from the overrides one after another. -/
def configOf (a : RunArguments) : Except Failure Table :=
  a.config.foldlM putGivenOverride []

/-- Overrides that are texts are put together as everywhere. -/
theorem configOf_eq_parseOverrides {a : RunArguments} {pairs : List String}
    (h : a.config = pairs.map .str) : configOf a = Config.parseOverrides pairs := by
  rw [configOf, h, List.foldlM_map]
  rfl

/-- The options of the client. -/
def clientOptionsOf (w : World) (a : RunArguments) : Except Failure ClientOptions := do
  let config ← configOf a
  return { executable := executableOf w.surroundings a
           config := if config.isEmpty then .null else .table config }

/-- The options of the thread. -/
def threadOptionsOf (a : RunArguments) : ThreadOptions :=
  { model := a.model
    sandboxMode := a.sandbox
    workingDirectory := a.workingDirectory
    skipRepositoryCheck := .bool a.skipRepositoryCheck }

/-- The id of the thread to resume, if one is given. -/
def resumedId : Value → Option WireText
  | .str id => if id = "" then none else some (.plain id)
  | _ => none

/-- The thread: a new one, or the one to resume. -/
def threadOf (a : RunArguments) : Thread :=
  { options := threadOptionsOf a, id := resumedId a.resume }

/-- The options of the turn. -/
def turnOptionsOf (a : RunArguments) (schema : Value) : TurnOptions :=
  { outputSchema := schema, timeout := a.timeout }

/-! ## Showing -/

/-- What keeps a value from being copied, if something does. -/
def copyFault? (limit : CopyLimit) (v : Value) : Option Fault :=
  (limit.refusal? v).map .tooDeepToCopy

/-- A value copied part by part, which is done only so deep. -/
def copied (limit : CopyLimit) (v : Value) : Except Failure Value :=
  match copyFault? limit v with
  | none => .ok v
  | some f => .error (.fault f)

theorem copyFault?_of_le {limit : CopyLimit} {v : Value} (h : v.nesting ≤ limit.depth) :
    copyFault? limit v = none := by
  rw [copyFault?, limit.refusal?_eq_none v h]
  rfl

/-- What a document shows on the output: the document and a line feed. -/
def documentLine (s : Json.Spacing) (v : Value) : Except Failure String :=
  match Json.write s v with
  | .ok text => .ok (text ++ "\n")
  | .error f => .error (.fault (.unwritable f))

/-- The fault of a text that has no bytes: where its first half of a surrogate pair stands, with the
halves that follow it. -/
def encodingFault (points : List Nat) : Fault :=
  let front := points.takeWhile (!Text.isSurrogate ·)
  .unencodable front.length ((points.drop front.length).takeWhile Text.isSurrogate)

/-- What a text shows on the output: the text and a line feed, if it has bytes. -/
def textLine : WireText → Except Failure String
  | .plain s => .ok (s ++ "\n")
  | .broken points => .error (.fault (encodingFault points))

/-- The result of a turn as one document, with the id of the thread. Its items are copied. -/
def turnDocument (limit : CopyLimit) (t : Turn) (threadId : Option WireText) :
    Except Failure Value := do
  let items ← t.items.mapM fun i => copied limit i.toValue
  return .table (t.tableWith items ++ Table.named
    [("thread_id", match threadId with | none => .null | some id => id.toValue)])

/-- What the error stream says of a thread that has an id. -/
def threadLine : Option WireText → String
  | none | some (.plain "") => ""
  | some id => "[thread " ++ id.escaped ++ "]\n"

/-- What the output shows of an event. -/
def showEvent (limits : CopyLimits) (shown : String) (_ : Thread) (e : Event) :
    Except Failure String := do
  return shown ++ (← documentLine .oneLine (← copied limits.event e.toValue))

/-- A line of the log on the error stream. Warnings are shown bare unless the log is. -/
def logText (verbose : Bool) (l : LogLine) : String :=
  match verbose, l.level with
  | true, .debug => "DEBUG " ++ l.part ++ ": " ++ l.text ++ "\n"
  | true, .warning => "WARNING " ++ l.part ++ ": " ++ l.text ++ "\n"
  | false, .warning => l.text ++ "\n"
  | false, .debug => ""

/-- The log on the error stream. -/
def logTexts (verbose : Bool) (log : List LogLine) : String :=
  String.join (log.map (logText verbose))

/-- The exit code of a failure. -/
def exitCodeOf : Failure → Nat
  | .client e => e.exitCode
  | .fault _ => 1

/-- What the error stream says of a failure. -/
def failureLine : Failure → String
  | .client e => "Error: " ++ e.message ++ "\n"
  | .fault f => "Unexpected error: " ++ f.message ++ "\n"

/-- What is shown of a turn: on the output, and on the error stream behind the log. -/
structure Shown where
  stdout : String := ""
  stderr : String := ""
  deriving DecidableEq

/-- A turn with the events shown as they come: what was shown before a failure stays. -/
def streamTurn (limits : CopyLimits) (s : Scene) (input : Input) (options : TurnOptions) :
    Option Failure × Shown × Scene :=
  let (failure, shown, s) := s.drain (showEvent limits) "" (.unstarted input options)
  (failure, { stdout := shown }, s)

/-- What is shown of a turn that has ended. -/
def showTurn (limits : CopyLimits) (format : OutputFormat) (t : Turn) (threadId : Option WireText) :
    Except Failure Shown :=
  match format with
  | .json => do
    return { stdout := ← documentLine (.indented 2) (← turnDocument limits.item t threadId) }
  | _ => do return { stdout := ← textLine t.finalResponse.asText, stderr := threadLine threadId }

/-- A turn with its result shown. -/
def wholeTurn (limits : CopyLimits) (format : OutputFormat) (s : Scene) (input : Input)
    (options : TurnOptions) : Option Failure × Shown × Scene :=
  match s.run input options with
  | (.error f, s) => (some f, {}, s)
  | (.ok t, s) =>
    match showTurn limits format t s.thread.id with
    | .ok shown => (none, shown, s)
    | .error f => (some f, {}, s)

/-- A turn in the format that is asked for. -/
def shownTurn (limits : CopyLimits) (format : OutputFormat) (s : Scene) (input : Input)
    (options : TurnOptions) : Option Failure × Shown × Scene :=
  match format with
  | .stream => streamTurn limits s input options
  | format => wholeTurn limits format s input options

/-! ## The program -/

/-- The outcome of a failure before any client was made. -/
def failed (f : Failure) : Outcome :=
  ⟨exitCodeOf f, "", failureLine f, []⟩

/-- The client and the schema of a turn. The schema is read first. -/
def prepare (w : World) (a : RunArguments) : Except Failure (Value × Client) := do
  let schema ← schemaOf w a
  let options ← clientOptionsOf w a
  let client ← Client.ofOptions w.surroundings options w.scripts
  return (schema, client)

/-- **Run a turn.** -/
def runTurn (w : World) (a : RunArguments) : Outcome :=
  match prepare w a with
  | .error f => failed f
  | .ok (schema, client) =>
    let scene : Scene := ⟨client, threadOf a⟩
    let (failure, shown, scene) :=
      shownTurn w.surroundings.copyLimits a.output scene (inputOf w a) (turnOptionsOf a schema)
    let log := logTexts a.verbose scene.client.log
    match failure with
    | none => ⟨0, shown.stdout, log ++ shown.stderr, scene.client.journal⟩
    | some f => ⟨exitCodeOf f, shown.stdout, log ++ failureLine f, scene.client.journal⟩

/-- The last line of a text, not counting the line feeds that the text ends with. -/
def lastLine (s : String) : String :=
  String.ofList ((Text.splitAt '\n' (Text.dropEndWhile (· = '\n') s.toList)).getLastD [])

/-- The outcome of a command line that was not read to its end. An error is shown on one line. -/
def halted : Halt → Outcome
  | .help command => ⟨0, helpText command, "", []⟩
  | .version => ⟨0, versionText ++ "\n", "", []⟩
  | .usage command text => ⟨2, "", lastLine (command ++ ": error: " ++ text), []⟩

/-- **The program.** -/
def run (w : World) (words : List String) : Outcome :=
  match invocation words with
  | .error halt => halted halt
  | .ok .nothing => ⟨0, mainHelp, "", []⟩
  | .ok .version => ⟨0, versionText ++ "\n", "", []⟩
  | .ok (.run a) => runTurn w a

end AgentClient.CommandLine
