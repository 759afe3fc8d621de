import AgentClient.Failure.ClientError
import AgentClient.Json.Reader
import AgentClient.Wire.Item

/-!
# Wire/Event — the lines that an agent writes

The agent writes one JSON object on each line. `Event.parse` takes a line for the event it
describes, or says why it describes none. A fault on the way makes the line a malformed event, with
three exceptions that are let through: nesting that is too deep, a whole number of too many digits
in the text, and an infinite count of tokens.

`Event.toValue` is the event as a value. Making a value of it by copying its parts is another
matter, which may fail for want of calls (`CommandLine/Run`). -/

namespace AgentClient

open Wire

/-- The tokens that a turn used. -/
structure Usage where
  inputTokens : Int
  cachedInputTokens : Int
  outputTokens : Int
  deriving DecidableEq, Repr

/-- The three stages of an item. -/
inductive ItemStage where
  | started
  | updated
  | completed
  deriving DecidableEq, Repr

/-- What one line of the agent says. -/
inductive Event where
  /-- The conversation has begun, under an id by which it can be resumed. -/
  | threadStarted (threadId : WireText)
  | turnStarted
  | turnCompleted (usage : Usage)
  | turnFailed (text : WireText)
  /-- An item has reached a stage. -/
  | item (stage : ItemStage) (item : Item)
  /-- The stream of events is broken. -/
  | error (text : WireText)
  deriving DecidableEq

namespace ItemStage

/-- The type of the event of a stage. -/
def eventType : ItemStage → String
  | .started => "item.started"
  | .updated => "item.updated"
  | .completed => "item.completed"

end ItemStage

namespace Usage

/-- The tokens of a turn as a value. -/
def toValue (u : Usage) : Value :=
  .named [("input_tokens", .int u.inputTokens), ("cached_input_tokens", .int u.cachedInputTokens),
    ("output_tokens", .int u.outputTokens)]

end Usage

namespace Event

/-- A member that may be missing or empty, and has to be a table otherwise. -/
def tableMember (t : Table) (name : String) : Except Fault Table :=
  let v := t.getD name .null
  if v.isTruthy then
    match v with
    | .table entries => .ok entries
    | v => .error (.memberNotTable name v.typeName)
  else .ok []

/-- A count of tokens. -/
def tokenCount (t : Table) (name : String) : Except Fault Int :=
  intOf (t.getD name (.int 0))

/-- The event of an item at a stage. -/
def itemEvent (t : Table) (stage : ItemStage) : Except Fault Event := do
  let v ← require t "item"
  return .item stage (← Item.parse v)

/-- The event of a wire object by its type. A type that is no text has to be a value that can be
looked up at all. -/
def ofMembers (t : Table) : Value → Except Fault Event
  | .str "thread.started" => do
    let id ← require t "thread_id"
    return .threadStarted (← textOf id)
  | .str "turn.started" => .ok .turnStarted
  | .str "turn.completed" => do
    let usage ← tableMember t "usage"
    let input ← tokenCount usage "input_tokens"
    let cached ← tokenCount usage "cached_input_tokens"
    let output ← tokenCount usage "output_tokens"
    return .turnCompleted ⟨input, cached, output⟩
  | .str "turn.failed" => do
    let error ← tableMember t "error"
    return .turnFailed (← textOf (error.getD "message" (.str "Turn failed")))
  | .str "item.started" => itemEvent t .started
  | .str "item.updated" => itemEvent t .updated
  | .str "item.completed" => itemEvent t .completed
  | .str "error" => do
    return .error (← textOf (t.getD "message" (.str "Unknown error")))
  | v =>
    match v.keyObstacle? with
    | some typeName => .error (.notHashable typeName)
    | none => do throw (.unknownEvent (← shownText v))

/-- The event of a wire object. -/
def ofTable (t : Table) : Except Fault Event :=
  ofMembers t (t.getD "type" .null)

/-- Whether a fault in a wire object makes it a malformed event. -/
def isMalformed (f : Fault) : Bool :=
  match f.kind with
  | .lookup | .type | .value | .decoding => true
  | _ => false

/-- **The event of a line.** -/
def parse (line : String) : Except Failure Event :=
  match Json.read .wire line with
  | .error (.malformed what place) =>
    .error (.client (.protocol (.unreadable (.malformed what place)) (some line)))
  | .error f => .error (.fault (.json f))
  | .ok (.table t) =>
    match ofTable t with
    | .ok e => .ok e
    | .error f =>
      if isMalformed f then .error (.client (.protocol (.malformed f) (some line)))
      else .error (.fault f)
  | .ok _ => .error (.client (.protocol .notTable (some line)))

/-- An event as a value: its members, the type last. -/
def toValue : Event → Value
  | .threadStarted id => .named [("thread_id", id.toValue), ("type", .str "thread.started")]
  | .turnStarted => .named [("type", .str "turn.started")]
  | .turnCompleted usage =>
    .named [("usage", usage.toValue), ("type", .str "turn.completed")]
  | .turnFailed text => .named [("message", text.toValue), ("type", .str "turn.failed")]
  | .item stage i => .named [("item", i.toValue), ("type", .str stage.eventType)]
  | .error text => .named [("message", text.toValue), ("type", .str "error")]

end Event

end AgentClient
