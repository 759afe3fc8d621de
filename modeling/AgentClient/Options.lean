import AgentClient.Value.Table

/-!
# Options — what a client, a thread and a turn are given

Options come untyped. Each has the type that its description names or is null, which stands for
"not given"; what becomes of a value of another type is decided where the option is used.
-/

namespace AgentClient

/-- The options of a client. -/
structure ClientOptions where
  /-- The path or name of the executable; found on the search path if not given. -/
  executable : Value := .null
  /-- The address of the service, handed to the executable. -/
  baseUrl : Value := .null
  /-- The key for the service, handed to the executable. -/
  apiKey : Value := .null
  /-- Nested configuration for every turn. -/
  config : Value := .null
  /-- The environment of the process; if given, nothing is inherited. -/
  environment : Value := .null
  deriving DecidableEq, Inhabited

/-- The options of a thread, which apply to all its turns. -/
structure ThreadOptions where
  model : Value := .null
  sandboxMode : Value := .null
  workingDirectory : Value := .null
  skipRepositoryCheck : Value := .bool false
  reasoningEffort : Value := .null
  networkAccess : Value := .null
  webSearch : Value := .null
  approvalPolicy : Value := .null
  additionalDirectories : List Value := []
  deriving DecidableEq, Inhabited

/-- The options of a turn. -/
structure TurnOptions where
  /-- A schema, or a record model, that the final answer has to follow. -/
  outputSchema : Value := .null
  /-- How many seconds the turn may take. -/
  timeout : Value := .null
  deriving DecidableEq, Inhabited

/-- The options of a client as a value. -/
def ClientOptions.toValue (o : ClientOptions) : Value :=
  .named [("trill_path_override", o.executable), ("base_url", o.baseUrl), ("api_key", o.apiKey),
    ("config", o.config), ("env", o.environment)]

/-- The options of a thread as a value. -/
def ThreadOptions.toValue (o : ThreadOptions) : Value :=
  .named [("model", o.model), ("sandbox_mode", o.sandboxMode),
    ("working_directory", o.workingDirectory), ("skip_git_repo_check", o.skipRepositoryCheck),
    ("model_reasoning_effort", o.reasoningEffort), ("network_access_enabled", o.networkAccess),
    ("web_search_enabled", o.webSearch), ("approval_policy", o.approvalPolicy),
    ("additional_directories", .tuple o.additionalDirectories)]

end AgentClient
