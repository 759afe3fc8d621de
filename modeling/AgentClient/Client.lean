import AgentClient.Child.Delivery
import AgentClient.Child.Journal
import AgentClient.Executor.Environment
import AgentClient.Schema.Output

/-!
# Client — a client, and the turns it has running

A client has its options, an agent that answers its turns, and an account of what they do outside:
the calls, the schema directories that exist now, and the log. The agent is an executable, run anew
for every turn, or answers prepared in memory.

`Client.launch` starts a turn and `Client.settle` ends it. Between the two the turn holds a `Feed`:
the lines still to come, and what comes behind them. -/

namespace AgentClient

/-- An answer prepared in memory: lines, and the failure behind them if there is one. -/
structure Reply where
  lines : List String := []
  failure : Option Failure := none
  deriving DecidableEq, Inhabited

/-- What answers the turns of a client. -/
inductive Agent where
  /-- Prepared answers; behind the last one every answer is empty. -/
  | memory (replies : List Reply)
  /-- An executable, with what its processes will do. -/
  | executable (executor : Executor) (scripts : List Script)
  deriving DecidableEq

/-- A client with all that its turns have done. -/
structure Client where
  surroundings : Surroundings
  options : ClientOptions
  agent : Agent
  journal : Journal := []
  /-- How many schema directories exist now. -/
  directories : Nat := 0
  log : List LogLine := []

/-- What a running turn has still to get. -/
structure Feed where
  /-- The lines still to come. -/
  lines : List String
  /-- The failure behind the last line. -/
  failure : Option Failure
  /-- Whether the exit of the process is seen behind the last line. -/
  exitSeen : Bool
  /-- The place of the call in the journal. -/
  call : Nat
  deriving DecidableEq

namespace Client

/-! ## The log -/

/-- A client with more lines in its log. -/
def note (c : Client) (lines : List LogLine) : Client :=
  { c with log := c.log ++ lines }

/-- The part of the log about clients. -/
def clientPart : String := "trill_sdk.trill"

/-- The part of the log about processes. -/
def processPart : String := "trill_sdk.exec"

/-- The part of the log about schemas. -/
def schemaPart : String := "trill_sdk.schema"

/-- The number of the process, as far as the log is concerned. -/
def processNumber : String := "4242"

/-- What the log says of the start of a process. -/
def startLog (command : List String) : List LogLine :=
  [⟨.debug, processPart, "Spawning trill: " ++ Text.join " " command⟩]

/-- What the log says of the prompt. -/
def promptLog (s : Script) : List LogLine :=
  if s.hasPipes && (s.prompt = .broken || s.prompt = .closed) then
    [⟨.debug, processPart, "trill closed stdin before reading the prompt"⟩]
  else []

/-- What the log says of a process that is killed. -/
def killLog : List LogLine :=
  [⟨.debug, processPart, "Killing trill (pid=" ++ processNumber ++ ")"⟩]

/-- What the log says of an exit. -/
def exitLog (code : Int) (stderr : String) : List LogLine :=
  let number := Number.intText code
  ⟨.debug, processPart, "trill (pid=" ++ processNumber ++ ") exited with code " ++ number⟩
    :: (if code = 0 then []
        else [⟨.warning, processPart,
          "trill exited with code " ++ number ++ ": " ++ Text.strip stderr⟩])

/-- What the log says of the end of a process. -/
def endLog (exitSeen : Bool) (failure : Option Failure) : List LogLine :=
  if exitSeen then
    match failure with
    | some (.client (.exit code stderr)) => exitLog code stderr
    | _ => exitLog 0 ""
  else killLog

/-! ## Making a client -/

/-- A client whose turns are answered from memory. -/
def inMemory (s : Surroundings) (o : ClientOptions) (replies : List Reply) : Client :=
  { surroundings := s, options := o, agent := .memory replies }

/-- A client whose turns run an executable. -/
def ofOptions (s : Surroundings) (o : ClientOptions) (scripts : List Script) :
    Except Failure Client := do
  let executor ← Executor.ofOptions s o
  return { surroundings := s, options := o, agent := .executable executor scripts
           log := [⟨.debug, clientPart, "Using trill executable " ++ executor.executable⟩] }

/-- The options of a client that are given as a whole, one by one, or not at all. -/
def givenOptions (whole single : Option ClientOptions) : Except Failure ClientOptions :=
  match whole, single with
  | some _, some _ => .error (.fault .optionsTwice)
  | some o, none | none, some o => .ok o
  | none, none => .ok {}

/-! ## Schema directories -/

/-- A client with one more schema directory, if a turn has a schema. -/
def makeDirectory (c : Client) (hasSchema : Bool) : Client :=
  if hasSchema then { c with directories := c.directories + 1 } else c

/-- A client with one schema directory less, if a turn has a schema. -/
def removeDirectory (c : Client) (hasSchema : Bool) : Client :=
  if hasSchema then
    { c with directories := c.directories - 1 }.note
      [⟨.debug, schemaPart, "Removed output schema dir " ++ c.surroundings.schemaDirectory⟩]
  else c

/-! ## Starting and ending a turn -/

/-- The text of the schema file, if it is the one that the command names. A word of the command may
look like the option for it without being it. -/
def namedSchema (r : TurnRequest) (command : List String) (schema : Option String) :
    Option String :=
  if r.schemaPath = Executor.wordAfter? "--output-schema" command then schema else none

/-- The record of a process that has just been started. -/
def processRecord (e : Executor) (s : Surroundings) (r : TurnRequest) (command : List String)
    (schema : Option String) (script : Script) : ProcessRecord :=
  { command
    environment := Executor.sortedByName (e.environmentTable s)
    schema := namedSchema r command schema
    prompt := if script.hasPipes && script.prompt = .taken then some r.prompt else none
    promptClosed := script.hasPipes && script.prompt ≠ .ignored
    killed := false
    closed := false }

/-- Start a turn of an executable: write the command, set the deadline, start the process. -/
def launchProcess (c : Client) (e : Executor) (scripts : List Script) (r : TurnRequest)
    (schema : Option String) : Except Failure Feed × Client :=
  match e.command r with
  | .error f => (.error f, c)
  | .ok command =>
    let c := c.note (startLog command)
    match Deadline.ofTimeout r.timeout with
    | .error f => (.error (.fault f), c)
    | .ok deadline =>
      let (script, scripts) := takeScript scripts
      let c := { c with agent := .executable e scripts }
      match script.refusal with
      | some error =>
        (.error (.client (.launch (.refused e.executable error))),
          { c with journal := c.journal ++ [Call.refused] })
      | none =>
        let delivery := Delivery.ofScript e.executable r.timeout deadline script
        let record := processRecord e c.surroundings r command schema script
        (.ok ⟨delivery.lines, delivery.failure, delivery.exitSeen, c.journal.length⟩,
          { c with journal := c.journal ++ [Call.process record] }.note (promptLog script))

/-- **Start a turn**: what it has to get, or why it has not come to that. -/
def launch (c : Client) (r : TurnRequest) (schema : Option String) : Except Failure Feed × Client :=
  match c.agent with
  | .executable e scripts => c.launchProcess e scripts r schema
  | .memory replies =>
    let reply := replies.headD {}
    (.ok ⟨reply.lines, reply.failure, false, c.journal.length⟩,
      { c with
        agent := .memory replies.tail
        journal := c.journal ++ [Call.memory r schema false] })

/-- Whether the turns of a client run processes. -/
def runsProcesses (c : Client) : Bool :=
  match c.agent with
  | .executable .. => true
  | .memory _ => false

/-- **End a turn**, behind its last line or before. A process whose exit was not seen is killed. -/
def settle (c : Client) (f : Feed) (exitSeen : Bool) : Client :=
  let c := if c.runsProcesses then c.note (endLog exitSeen f.failure) else c
  { c with journal := c.journal.modify f.call (Call.close exitSeen) }

/-! ## A turn read line by line -/

/-- How reading the lines of a turn has ended. -/
inductive LineEnd where
  /-- The reader had enough. -/
  | stopped
  | exhausted
  | failed (failure : Failure)
  deriving DecidableEq

/-- The lines of a turn that was started, up to a limit; a reader that reaches it ends the turn. -/
def readFeed (c : Client) (f : Feed) (limit : Option Nat) : List String × LineEnd × Client :=
  if limit.any (· ≤ f.lines.length) then
    (f.lines.take (limit.getD 0), .stopped, c.settle f false)
  else
    (f.lines, match f.failure with | none => .exhausted | some e => .failed e,
      c.settle f f.exitSeen)

/-- **The lines of a turn**, how reading them has ended, and the client afterwards. -/
def readLines (c : Client) (r : TurnRequest) (schema : Option String) (limit : Option Nat) :
    List String × LineEnd × Client :=
  match c.launch r schema with
  | (.error f, c) => ([], .failed f, c)
  | (.ok f, c) => c.readFeed f limit

end Client

end AgentClient
