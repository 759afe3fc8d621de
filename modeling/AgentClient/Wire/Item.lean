import AgentClient.Wire.Coercion

/-!
# Wire/Item — the units of work of an agent

An item is a message, a command, a change of files, a call of a tool. Its type and id come first;
the other members depend on the type. Texts are copied from the wire as they are, whatever they
hold, so they are values here. An item of a type without meaning keeps its whole wire object: newer
agents do not break older clients. -/

namespace AgentClient

open Wire

/-- A change of one file. -/
structure FileChange where
  path : Value
  kind : Value
  deriving DecidableEq

/-- An entry of a to-do list. -/
structure TodoEntry where
  text : Value
  completed : Bool
  deriving DecidableEq

/-- A unit of work of an agent. -/
inductive Item where
  /-- An answer of the agent. -/
  | agentMessage (id : WireText) (text : Value)
  /-- The agent's reasoning, summarised. -/
  | reasoning (id : WireText) (text : Value)
  /-- A command that the agent ran. -/
  | commandExecution (id : WireText) (command output exitCode status : Value)
  /-- Changes of files. -/
  | fileChange (id : WireText) (changes : List FileChange) (status : Value)
  /-- A call of a tool of a server. -/
  | toolCall (id : WireText) (server tool status : Value)
  /-- A search of the web. -/
  | webSearch (id : WireText) (query : Value)
  /-- The agent's to-do list. -/
  | todoList (id : WireText) (entries : List TodoEntry)
  /-- An error that does not end the turn. -/
  | error (id : WireText) (text : Value)
  /-- An item of a type without meaning, with its whole wire object. -/
  | unknown (id : WireText) (type : WireText) (data : Table)
  deriving DecidableEq

namespace Item

/-- A change of one file from its wire object. -/
def changeOf (v : Value) : Except Fault FileChange := do
  let t ← tableOf v
  let path ← require t "path"
  let kind ← require t "kind"
  return ⟨path, kind⟩

/-- An entry of a to-do list from its wire object. -/
def todoOf (v : Value) : Except Fault TodoEntry := do
  let t ← tableOf v
  let text ← require t "text"
  return ⟨text, (t.getD "completed" (.bool false)).isTruthy⟩

/-- An item of a type and an id from the other members of its wire object. -/
def ofMembers (t : Table) (id : WireText) : Value → Except Fault Item
  | .str "agent_message" => .ok (.agentMessage id (t.getD "text" (.str "")))
  | .str "reasoning" => .ok (.reasoning id (t.getD "text" (.str "")))
  | .str "command_execution" => do
    let command ← require t "command"
    return .commandExecution id command (t.getD "aggregated_output" (.str ""))
      (t.getD "exit_code" .null) (t.getD "status" (.str "in_progress"))
  | .str "file_change" => do
    let members ← membersOf (t.getD "changes" (.list []))
    let changes ← members.mapM changeOf
    return .fileChange id changes (t.getD "status" (.str "completed"))
  | .str "mcp_tool_call" => do
    let server ← require t "server"
    let tool ← require t "tool"
    return .toolCall id server tool (t.getD "status" (.str "in_progress"))
  | .str "web_search" => .ok (.webSearch id (t.getD "query" (.str "")))
  | .str "todo_list" => do
    let members ← membersOf (t.getD "items" (.list []))
    let entries ← members.mapM todoOf
    return .todoList id entries
  | .str "error" => .ok (.error id (t.getD "message" (.str "")))
  | type => do
    let name ← textOf type
    return .unknown id name t

/-- **An item from its wire object.** -/
def parse : Value → Except Fault Item
  | .table t => do
    let type ← require t "type"
    let id ← require t "id"
    let id ← textOf id
    ofMembers t id type
  | v => .error (.itemNotTable v.typeName)

/-- A change of one file as a value. -/
def changeValue (c : FileChange) : Value :=
  .named [("path", c.path), ("kind", c.kind)]

/-- An entry of a to-do list as a value. -/
def todoValue (e : TodoEntry) : Value :=
  .named [("text", e.text), ("completed", .bool e.completed)]

/-- An item as a value: its members, the type last; of an unknown item the wire object last. -/
def toValue : Item → Value
  | .agentMessage id text =>
    .named [("id", id.toValue), ("text", text), ("type", .str "agent_message")]
  | .reasoning id text => .named [("id", id.toValue), ("text", text), ("type", .str "reasoning")]
  | .commandExecution id command output exitCode status =>
    .named [("id", id.toValue), ("command", command), ("aggregated_output", output),
      ("exit_code", exitCode), ("status", status), ("type", .str "command_execution")]
  | .fileChange id changes status =>
    .named [("id", id.toValue), ("changes", .list (changes.map changeValue)), ("status", status),
      ("type", .str "file_change")]
  | .toolCall id server tool status =>
    .named [("id", id.toValue), ("server", server), ("tool", tool), ("status", status),
      ("type", .str "mcp_tool_call")]
  | .webSearch id query =>
    .named [("id", id.toValue), ("query", query), ("type", .str "web_search")]
  | .todoList id entries =>
    .named [("id", id.toValue), ("items", .list (entries.map todoValue)),
      ("type", .str "todo_list")]
  | .error id text => .named [("id", id.toValue), ("message", text), ("type", .str "error")]
  | .unknown id type data =>
    .named [("id", id.toValue), ("type", type.toValue), ("data", .table data)]

end Item

end AgentClient
