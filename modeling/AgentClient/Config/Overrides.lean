import AgentClient.Failure.ClientError
import AgentClient.Json.Reader
import AgentClient.Text.Pieces

/-!
# Config/Overrides — overrides from a command line as nested configuration

An override is `KEY=VALUE`. The key is a path of names between points, the value JSON, or a text
when it is no JSON. Overrides are put one after another into a table: names on the way make tables
where there are none, and the last name takes the value, whatever was there. A key may have any
number of names; for the limit on calls see `Config/Flatten`. -/

namespace AgentClient.Config

/-- Put a value at a path, given as its first name and the others. `none` if the path goes through a
value that is no table. -/
def bind (name : String) : (rest : List String) → Value → Table → Option Table
  | [], v, t => some (t.put (.str name) v)
  | next :: rest, v, t =>
    match t.getD name (.table []) with
    | .table inner => (bind next rest v inner).map fun inner => t.put (.str name) (.table inner)
    | _ => none

/-- The value that stands behind the sign of an override. A text that is no document stands for
itself; other faults are not forgiven. -/
def overrideValue (raw : String) : Except Failure Value :=
  match Json.read .wire raw with
  | .ok v => .ok v
  | .error (.malformed ..) => .ok (.str raw)
  | .error f => .error (.fault (.json f))

/-- Put one override into a table. -/
def putOverride (t : Table) (pair : String) : Except Failure Table :=
  match Text.cut? '=' pair.toList with
  | none | some ([], _) => .error (.client (.config (.badOverride pair)))
  | some (key, raw) => do
    let v ← overrideValue (String.ofList raw)
    match Text.split '.' (String.ofList key) with
    | [] => return t
    | name :: rest =>
      match bind name rest v t with
      | some t => return t
      | none => throw (.client (.config (.conflict (String.ofList key))))

/-- **The configuration of a list of overrides**, put one after another into an empty table. -/
def parseOverrides (pairs : List String) : Except Failure Table :=
  pairs.foldlM putOverride []

end AgentClient.Config
