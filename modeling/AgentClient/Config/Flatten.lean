import AgentClient.Config.Toml

/-!
# Config/Flatten — nested configuration as a list of overrides

A nested table becomes one `path=value` override for every leaf, in the order of the entries, with
the keys on the way to it joined by points. An empty table below the top is a leaf of its own.

Tables may be nested as deep as one likes. That a machine whose calls may stand on one another only
so deep gives up on tables nested some thousand deep is left out, here and where a table is put
together (`Config/Overrides`). -/

namespace AgentClient.Config

/-- The path of an entry of a table that stands at a path; the top has none. -/
def below (path name : String) : String :=
  if path = "" then name else path ++ "." ++ name

/-- One override. -/
def override (path value : String) : String :=
  path ++ "=" ++ value

mutual

/-- The overrides of a value at a path. -/
def flattenValue (path : String) : Value → Except Failure (List String)
  | .table [] => .ok [override path "\x7b\x7d"]
  | .table entries => flattenEntries path entries
  | v => do return [override path (← toml path v)]

/-- The overrides of the entries of a table, each key before its value. -/
def flattenEntries (path : String) : List (Value × Value) → Except Failure (List String)
  | [] => .ok []
  | (key, v) :: rest => do
    let name ← keyName key
    let first ← flattenValue (below path name) v
    let others ← flattenEntries path rest
    return first ++ others

end

/-- **The overrides of a configuration**, which has to be a table. -/
def overrides : Value → Except Failure (List String)
  | .table entries => flattenEntries "" entries
  | v => .error (.client (.config (.notTable v.typeName)))

/-- Overrides as words of a command. -/
def overrideWords (items : List String) : List String :=
  items.flatMap fun item => ["--config", item]

end AgentClient.Config
