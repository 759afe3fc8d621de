import AgentClient.Client
import AgentClient.Conversation.Input
import AgentClient.Conversation.Turn

/-!
# Conversation/Thread — a conversation and its turns

A thread is a handle on one conversation. All it remembers is the id under which the agent keeps the
conversation, and whether a turn is running: turns run one after another.

A turn is a stream of events. A stream does nothing until its first event is asked for; from then on
the thread is busy until the stream has ended, failed or been closed, and each of these releases
everything that the turn holds.
-/

namespace AgentClient

/-- A handle on a conversation. -/
structure Thread where
  options : ThreadOptions := {}
  /-- The id of the conversation; none until the first turn of a new one has begun. -/
  id : Option WireText := none
  running : Bool := false
  deriving DecidableEq

/-- A turn that runs: what it has still to get, and whether it holds a schema directory. -/
structure LiveTurn where
  feed : Feed
  hasSchema : Bool
  deriving DecidableEq

/-- The same turn with these lines still to come. -/
def LiveTurn.withLines (t : LiveTurn) (lines : List String) : LiveTurn :=
  { t with feed := { t.feed with lines } }

/-- A stream of the events of a turn. -/
inductive EventStream where
  /-- Nothing has been asked for yet. -/
  | unstarted (input : Input) (options : TurnOptions)
  /-- The turn is running. -/
  | live (turn : LiveTurn)
  /-- The turn has ended, failed or been closed. -/
  | ended
  deriving DecidableEq

/-- What asking for an event gives. -/
inductive Pull where
  | event (event : Event)
  /-- There are no more events. -/
  | ended
  | failed (failure : Failure)
  deriving DecidableEq

/-- What a step of a turn changes: the client and the thread. -/
structure Scene where
  client : Client
  thread : Thread

/-- The part of the log about threads. -/
def threadPart : String := "trill_sdk.thread"

namespace Scene

/-- Release what a turn holds. -/
def release (s : Scene) (t : LiveTurn) (exitSeen : Bool) : Scene :=
  { client := (s.client.settle t.feed exitSeen).removeDirectory t.hasSchema
    thread := { s.thread with running := false } }

/-- What an event changes: the first event of a conversation brings its id. -/
def notice (s : Scene) : Event → Scene
  | .threadStarted id =>
    { client := s.client.note [⟨.debug, threadPart, "Thread started: " ++ id.escaped⟩]
      thread := { s.thread with id := some id } }
  | _ => s

/-! ## Starting -/

/-- The request of a turn. -/
def request (s : Scene) (prompt : String) (images : List Value) (file : Option SchemaFile)
    (timeout : Value) : TurnRequest :=
  { prompt, images, threadId := s.thread.id, options := s.thread.options
    schemaPath := file.map (·.path), timeout }

/-- Start a turn whose input and schema have been accepted: the thread is busy, the schema is
written, the agent is asked. A failure of the last two takes everything back. -/
def occupy (s : Scene) (prompt : String) (images : List Value) (schema : Option Table)
    (timeout : Value) : Except Failure LiveTurn × Scene :=
  let thread := { s.thread with running := true }
  let client := s.client.makeDirectory schema.isSome
  match SchemaFile.ofSchema? client.surroundings.schemaDirectory schema with
  | .error f =>
    (.error f, ⟨client.removeDirectory schema.isSome, { thread with running := false }⟩)
  | .ok file =>
    match client.launch (s.request prompt images file timeout) (file.map (·.text)) with
    | (.ok feed, client) => (.ok ⟨feed, schema.isSome⟩, ⟨client, thread⟩)
    | (.error f, client) =>
      (.error f, ⟨client.removeDirectory schema.isSome, { thread with running := false }⟩)

/-- **Start a turn.** A thread that is busy, a schema that is none and an input that is none are
refused, in this order, and change nothing. -/
def start (s : Scene) (input : Input) (options : TurnOptions) : Except Failure LiveTurn × Scene :=
  if s.thread.running then (.error (.client .busy), s)
  else
    match OutputSchema.resolve options.outputSchema with
    | .error f => (.error f, s)
    | .ok schema =>
      match input.normalize with
      | .error f => (.error f, s)
      | .ok (prompt, images) => s.occupy prompt images schema.schema options.timeout

/-! ## Running -/

/-- The end of a turn behind its last line. -/
def finish (s : Scene) (t : LiveTurn) : Pull × Scene :=
  (match t.feed.failure with | none => .ended | some f => .failed f, s.release t t.feed.exitSeen)

/-- Take one line. A line that is no event ends the turn. -/
def takeLine (s : Scene) (t : LiveTurn) (line : String) : Pull × Scene :=
  match Event.parse line with
  | .ok e => (.event e, s.notice e)
  | .error f => (.failed f, s.release t false)

/-- Ask a running turn for an event. -/
def pull (s : Scene) (t : LiveTurn) : Pull × Scene × EventStream :=
  match t.feed.lines with
  | [] => let (p, s) := s.finish t; (p, s, .ended)
  | line :: rest =>
    match s.takeLine t line with
    | (.event e, s) => (.event e, s, .live (t.withLines rest))
    | (p, s) => (p, s, .ended)

/-- **Ask a stream for an event.** -/
def next (s : Scene) : EventStream → Pull × Scene × EventStream
  | .ended => (.ended, s, .ended)
  | .live t => s.pull t
  | .unstarted input options =>
    match s.start input options with
    | (.error f, s) => (.failed f, s, .ended)
    | (.ok t, s) => s.pull t

/-- **Close a stream**, wherever it is. -/
def close (s : Scene) : EventStream → Scene
  | .live t => s.release t false
  | _ => s

/-! ## Going through to the end -/

/-- Give the events of a running turn to a receiver, one after another, until the turn ends or fails
or the receiver has enough; then the turn is closed. The result is the failure, if there is one, and
what the receiver has made of the events. -/
def deliver {σ : Type} (receive : σ → Thread → Event → Except Failure σ) (t : LiveTurn) :
    (lines : List String) → Scene → σ → Option Failure × σ × Scene
  | [], s, state =>
    match s.finish t with
    | (.failed f, s) => (some f, state, s)
    | (_, s) => (none, state, s)
  | line :: rest, s, state =>
    match s.takeLine t line with
    | (.event e, s) =>
      match receive state s.thread e with
      | .ok state => deliver receive t rest s state
      | .error f => (some f, state, s.release t false)
    | (.failed f, s) => (some f, state, s)
    | (.ended, s) => (none, state, s)

/-- Give the events of a stream to a receiver. -/
def drain {σ : Type} (receive : σ → Thread → Event → Except Failure σ) (s : Scene) (state : σ) :
    EventStream → Option Failure × σ × Scene
  | .ended => (none, state, s)
  | .live t => deliver receive t t.feed.lines s state
  | .unstarted input options =>
    match s.start input options with
    | (.error f, s) => (some f, state, s)
    | (.ok t, s) => deliver receive t t.feed.lines s state

/-- **Run a turn to its end** and add up its events. The schema is looked at before anything else.
-/
def run (s : Scene) (input : Input) (options : TurnOptions) : Except Failure Turn × Scene :=
  match OutputSchema.resolve options.outputSchema with
  | .error f => (.error f, s)
  | .ok schema =>
    match s.drain (fun t thread e => Turn.add t thread.id e) {} (.unstarted input options) with
    | (some f, _, s) => (.error f, s)
    | (none, turn, s) => (turn.check schema.model, s)

end Scene

end AgentClient
