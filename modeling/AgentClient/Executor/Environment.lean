import AgentClient.Executor.Basic

/-!
# Executor/Environment — the environment of the process

The process gets the environment of the options, or the one of the host when the options have none.
Three variables belong to the client: the originator, which is set unless it has a value, and the
address and the key, which are set if the options give them. What the system refuses in a variable
is left out, as it is for words (`Executor/Command`). -/

namespace AgentClient.Executor

/-- The variable that says which client has started the process. -/
def originatorVariable : String := "CODEX_INTERNAL_ORIGINATOR_OVERRIDE"

/-- The name of this client. -/
def originator : String := "trill_sdk_py"

/-- The variable of the address of the service. -/
def baseUrlVariable : String := "OPENAI_BASE_URL"

/-- The variable of the key for the service. -/
def apiKeyVariable : String := "CODEX_API_KEY"

/-- The environment of the host as a table. -/
def hostTable (s : Surroundings) : Table :=
  s.environment.map fun (k, v) => (.str k, .str v)

/-- Put a variable, if its value is given. -/
def putGiven (name : String) (v : Value) (t : Table) : Table :=
  if v.isTruthy then t.put (.str name) v else t

/-- Put the originator, unless it has a value. -/
def putOriginator (t : Table) : Table :=
  if (t.getD originatorVariable .null).isTruthy then t
  else t.put (.str originatorVariable) (.str originator)

/-- **The environment of the process.** -/
def environmentTable (e : Executor) (s : Surroundings) : Table :=
  putGiven apiKeyVariable e.apiKey
    (putGiven baseUrlVariable e.baseUrl
      (putOriginator (e.environment.getD (hostTable s))))

/-- The entries of an environment in the order of their names. -/
def sortedByName (t : Table) : Table :=
  t.mergeSort fun a b =>
    match a.1, b.1 with
    | .str m, .str n => m ≤ n
    | _, _ => true

end AgentClient.Executor
