import AgentClient.Executor.Basic

/-!
# Executor/Command — the command of one turn

The words stand in a fixed order: the overrides of the client, the options of the thread, the
overrides of the thread, the thread to resume and the images. Later overrides win, so a thread has
the last word over its client.

Words are texts of characters: half of a surrogate pair in a word is replaced by U+FFFD. A system
that takes words as UTF-8 refuses to start a process with such a half, or with the character NUL, in
one of its words. These two refusals are left out. -/

namespace AgentClient

/-- All that is needed to run one turn. -/
structure TurnRequest where
  /-- The text for the process. -/
  prompt : String := ""
  /-- The paths of the images that belong to it. -/
  images : List Value := []
  /-- The thread to resume; none starts a new one. -/
  threadId : Option WireText := none
  /-- The options of the thread that the turn is run on. -/
  options : ThreadOptions := {}
  /-- The file that holds the schema of the final answer. -/
  schemaPath : Option String := none
  /-- How many seconds the process may take. -/
  timeout : Value := .null
  deriving DecidableEq, Inhabited

namespace Executor

/-- The words that are texts. -/
def textWords (words : List String) : List Value :=
  words.map .str

/-- An option that is left out when it is not given or empty. -/
def flagWords (flag : String) (v : Value) : List Value :=
  if v.isTruthy then [.str flag, v] else []

/-- An option with a text that is left out when there is none or an empty one. -/
def flagText (flag : String) (t : Option WireText) : List Value :=
  flagWords flag (match t with | none => .null | some t => t.toValue)

/-- The overrides of a thread, each with the key it is written under. -/
def threadOverrides (o : ThreadOptions) : List (String × Value) :=
  [("model_reasoning_effort", o.reasoningEffort),
   ("sandbox_workspace_write.network_access", o.networkAccess),
   ("features.web_search_request", o.webSearch),
   ("approval_policy", o.approvalPolicy)]

/-- One override of a thread, if it is given. -/
def threadOverrideWords (key : String) : Value → Except Failure (List String)
  | .null => .ok []
  | v => do return ["--config", Config.override key (← Config.toml key v)]

/-- The overrides of a thread as words. -/
def threadOverridesWords : List (String × Value) → Except Failure (List String)
  | [] => .ok []
  | (key, v) :: rest => do
    let first ← threadOverrideWords key v
    let others ← threadOverridesWords rest
    return first ++ others

/-- The options of a thread as words. -/
def optionWords (o : ThreadOptions) (schemaPath : Option String) : List Value :=
  flagWords "--model" o.model
    ++ flagWords "--sandbox" o.sandboxMode
    ++ flagWords "--cd" o.workingDirectory
    ++ o.additionalDirectories.flatMap (fun d => [.str "--add-dir", d])
    ++ (if o.skipRepositoryCheck.isTruthy then [.str "--skip-git-repo-check"] else [])
    ++ flagText "--output-schema" (schemaPath.map .plain)

/-- The images of a turn as words. -/
def imageWords (images : List Value) : List Value :=
  images.flatMap fun image => [.str "--image", image]

/-- **The words of the command of a turn.** -/
def commandWords (e : Executor) (r : TurnRequest) : Except Failure (List Value) := do
  let overrides ← threadOverridesWords (threadOverrides r.options)
  return textWords
    ([e.executable, "exec", "--experimental-json"] ++ Config.overrideWords e.overrides)
    ++ optionWords r.options r.schemaPath
    ++ textWords overrides
    ++ flagText "resume" r.threadId
    ++ imageWords r.images

/-- The words from an index on as strings; all of them have to be texts. -/
def wordTexts (index : Nat) : List Value → Except Failure (List String)
  | [] => .ok []
  | .str s :: words => do return s :: (← wordTexts (index + 1) words)
  | .broken points :: words => do
    return (WireText.broken points).toString :: (← wordTexts (index + 1) words)
  | v :: _ => .error (.fault (.badWord index v.qualifiedTypeName))

/-- The word behind the first one that is a given word. -/
def wordAfter? (word : String) : List String → Option String
  | [] => none
  | w :: ws => if w = word then ws.head? else wordAfter? word ws

/-- The command of a turn, all of whose words are texts. -/
def command (e : Executor) (r : TurnRequest) : Except Failure (List String) := do
  wordTexts 0 (← e.commandWords r)

end Executor

end AgentClient
