import AgentClient.Schema.Answer
import AgentClient.Wire.Event

/-!
# Conversation/Turn — the result of a turn

The events of a turn add up to its result: the completed items in their order, the text of the last
message, the last count of tokens. An event that reports a failure ends the turn at once.
-/

namespace AgentClient

/-- The result of a turn. -/
structure Turn where
  items : List Item := []
  finalResponse : Value := .str ""
  usage : Option Usage := none
  /-- The final response as a record, if the turn had a record model. -/
  parsed : Option Record := none
  deriving DecidableEq

namespace Turn

/-- The text of an item that is a message. -/
def messageOf? : Item → Option Value
  | .agentMessage _ text => some text
  | _ => none

/-- The result with one event more, on a thread that has this id by then. -/
def add (t : Turn) (threadId : Option WireText) : Event → Except Failure Turn
  | .item .completed item =>
    .ok { t with
      items := t.items ++ [item]
      finalResponse := (messageOf? item).getD t.finalResponse }
  | .turnCompleted usage => .ok { t with usage := some usage }
  | .turnFailed text => .error (.client (.turnFailed text threadId))
  | .error text => .error (.client (.stream text none))
  | _ => .ok t

/-- The result checked against a record model, if there is one. -/
def check (t : Turn) : Option RecordModel → Except Failure Turn
  | none => .ok t
  | some m => do return { t with parsed := some (← m.validate t.finalResponse) }

/-- A result as a table, with these values for its items. -/
def tableWith (t : Turn) (items : List Value) : Table :=
  Table.named
    ([("final_response", t.finalResponse), ("items", .list items),
      ("usage", match t.usage with | none => .null | some u => u.toValue)]
      ++ (match t.parsed with | none => [] | some r => [("parsed", r.toValue)]))

/-- A result as a table. -/
def toTable (t : Turn) : Table :=
  t.tableWith (t.items.map Item.toValue)

end Turn

end AgentClient
