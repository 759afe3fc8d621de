import AgentClient.Child.Framing
import AgentClient.Failure.ClientError

/-!
# Child/Delivery — what a parent gets from a child

A parent that reads a child to the end gets lines, and then either a regular end or a failure. A
child that falls silent makes the turn fail when its time is up, wherever the silence begins. -/

namespace AgentClient

open Number

/-- When the time of a turn is up. -/
inductive Deadline where
  | never
  | sometime
  deriving DecidableEq, Repr

namespace Deadline

/-- The deadline for a timeout. A number of seconds that is infinite or no number never passes. -/
def ofTimeout : Value → Except Fault Deadline
  | .null => .ok .never
  | .bool _ => .ok .sometime
  | .int n =>
    match Binary64.ofInt n with
    | .infinite _ => .error .beyondFloat
    | _ => .ok .sometime
  | .float .nan | .float (.infinite false) => .ok .never
  | .float _ => .ok .sometime
  | v => .error (.notSeconds v.qualifiedTypeName)

end Deadline

/-- The failure of a turn whose child has fallen silent. -/
def silenceFailure (timeout : Value) : Deadline → Failure
  | .never => .fault .stalled
  | .sometime => .client (.timeout (if timeout.isTruthy then timeout else .int 0))

/-- What a parent gets from a child: the lines, and the failure behind them if there is one. -/
structure Delivery where
  lines : List String
  failure : Option Failure
  /-- Whether the exit of the child was seen. -/
  exitSeen : Bool
  deriving DecidableEq

namespace Delivery

/-- The text of the error stream. -/
def errorText (s : Script) : String :=
  String.ofList (Text.Utf8.decode s.errors)

/-- The failure of an exit with this code. -/
def exitFailure (s : Script) : Option Failure :=
  if s.code = 0 then none else some (.client (.exit s.code (errorText s)))

/-- **What a parent gets from a child that has come up.** -/
def ofScript (executable : String) (timeout : Value) (deadline : Deadline) (s : Script) :
    Delivery :=
  if !s.hasPipes then ⟨[], some (.client (.launch (.noPipes executable))), false⟩
  else
    match s.prompt with
    | .ignored => ⟨[], some (silenceFailure timeout deadline), false⟩
    | _ =>
      match ({} : Framing).lines s.output with
      | (lines, false) => ⟨lines, some (silenceFailure timeout deadline), false⟩
      | (lines, true) =>
        if s.exits then ⟨lines, exitFailure s, true⟩
        else ⟨lines, some (silenceFailure timeout deadline), false⟩

end Delivery

end AgentClient
