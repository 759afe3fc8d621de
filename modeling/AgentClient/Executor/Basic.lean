import AgentClient.Config.Flatten
import AgentClient.Executor.Lookup
import AgentClient.Options
import AgentClient.Wire.Coercion

/-!
# Executor/Basic — what runs the turns of a client

An executor is made once for a client. The executable is found and the configuration written then,
so that mistakes in either show before any process is started. -/

namespace AgentClient

/-- What runs the turns of a client. -/
structure Executor where
  /-- The path of the executable. -/
  executable : String
  /-- The environment that replaces the one of the host. -/
  environment : Option Table
  /-- The configuration as overrides. -/
  overrides : List String
  baseUrl : Value
  apiKey : Value
  deriving DecidableEq

namespace Executor

/-- The variable that a member of a sequence stands for: its name and its value. -/
def variableOf (index : Nat) (v : Value) : Except Fault (Value × Value) :=
  match Wire.membersOf v with
  | .error _ => .error (.notPair index)
  | .ok [name, x] =>
    match name.keyObstacle? with
    | none => .ok (name, x)
    | some typeName => .error (.notHashable typeName)
  | .ok members => .error (.badPair index members.length)

/-- The variables of a sequence from an index on, put into a table one after another. -/
def putVariables (index : Nat) : List Value → Table → Except Fault Table
  | [], t => .ok t
  | v :: vs, t => do
    let (name, x) ← variableOf index v
    putVariables (index + 1) vs (t.put name x)

/-- The environment that options give: a table, or a sequence of pairs. -/
def environmentOf : Value → Except Failure (Option Table)
  | .null => .ok none
  | .table t => .ok (some t)
  | v => (do return some (← putVariables 0 (← Wire.membersOf v) [])).mapError .fault

/-- The overrides that options give. -/
def overridesOf : Value → Except Failure (List String)
  | .null => .ok []
  | v => Config.overrides v

/-- **The executor for the options of a client.** -/
def ofOptions (s : Surroundings) (o : ClientOptions) : Except Failure Executor := do
  let executable ← resolveExecutable s o.executable
  let environment ← environmentOf o.environment
  let overrides ← overridesOf o.config
  return { executable, environment, overrides, baseUrl := o.baseUrl, apiKey := o.apiKey }

end Executor

end AgentClient
