import AgentClient.Executor.Command

/-!
# Child/Journal — what the turns of a client have done outside

Every turn that reaches the agent leaves a call: the request itself when the agent is in memory, the
command and the fate of the process when there is one. A call is closed when its turn has ended.
-/

namespace AgentClient

/-- A process that was started. -/
structure ProcessRecord where
  command : List String
  /-- The environment, in the order of the names. -/
  environment : Table
  /-- The text of the schema file that the command names. -/
  schema : Option String
  /-- The prompt, if the process has taken it. -/
  prompt : Option String
  promptClosed : Bool
  killed : Bool
  closed : Bool
  deriving DecidableEq

/-- What a turn has done outside. -/
inductive Call where
  /-- It was answered from memory. -/
  | memory (request : TurnRequest) (schema : Option String) (closed : Bool)
  /-- The operating system has refused to start the process. -/
  | refused
  /-- The process was started. -/
  | process (record : ProcessRecord)
  deriving DecidableEq

namespace Call

/-- Whether the turn of a call has ended and left nothing open. -/
def isClosed : Call → Bool
  | .memory _ _ closed => closed
  | .refused => false
  | .process r => r.closed

/-- A call whose turn has ended; a process is killed unless its exit was seen. -/
def close (exitSeen : Bool) : Call → Call
  | .memory request schema _ => .memory request schema true
  | .refused => .refused
  | .process r => .process { r with killed := !exitSeen, closed := true }

/-- Every call but a refused one is closed by the end of its turn. -/
theorem isClosed_close {c : Call} {exitSeen : Bool} :
    (c.close exitSeen).isClosed = true ↔ c ≠ .refused := by
  cases c <;> simp [close, isClosed]

end Call

/-- The calls of a client in their order. -/
abbrev Journal := List Call

/-- A level of the log. -/
inductive LogLevel where
  | debug
  | warning
  deriving DecidableEq, Repr

/-- A line of the log. -/
structure LogLine where
  level : LogLevel
  part : String
  text : String
  deriving DecidableEq, Repr

end AgentClient
