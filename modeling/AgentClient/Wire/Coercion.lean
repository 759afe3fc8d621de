import AgentClient.Failure.Fault
import AgentClient.Value.Display
import AgentClient.Value.Table

/-!
# Wire/Coercion — untyped values taken as texts, whole numbers, sequences and tables

Some members of a wire object are brought to a type, whatever they hold; these are the rules for it.
-/

namespace AgentClient.Wire

open Number

/-- A value as text. -/
def textOf (v : Value) : Except Fault WireText :=
  match v.text? with
  | some t => .ok t
  | none => if v.hasOverlong then .error .overlongInt else .ok (.plain v.display)

/-- A value as a text in quotation marks or on one line. -/
def shownText (v : Value) : Except Fault String :=
  if v.hasOverlong then .error .overlongInt else .ok v.display

/-- The whole number that a text holds. -/
def intOfText (t : WireText) : Except Fault Int :=
  match readInt t.toString with
  | .ok n => .ok n
  | .error .malformed => .error (.notInteger t)
  | .error (.overlong count) => .error (.overlongText count)

/-- A value as a whole number: a text is read, a fraction dropped. -/
def intOf : Value → Except Fault Int
  | .bool b => .ok (if b then 1 else 0)
  | .int n => .ok n
  | .float (.finite negative m e) => .ok (Binary64.truncate negative m e)
  | .float (.infinite _) => .error .wholeOfInfinity
  | .float .nan => .error .wholeOfNan
  | .str s => intOfText (.plain s)
  | .broken points => intOfText (.broken points)
  | v => .error (.notNumeric v.qualifiedTypeName)

/-- The members of a value: of a sequence its members, of a text its characters, of a table its
keys. -/
def membersOf : Value → Except Fault (List Value)
  | .list items | .tuple items => .ok items
  | .str s => .ok ((WireText.plain s).singles.map WireText.toValue)
  | .broken points => .ok ((WireText.broken points).singles.map WireText.toValue)
  | .table entries => .ok (entries.map (·.1))
  | v => .error (.notIterable v.qualifiedTypeName)

/-- The entry of a table under a name. -/
def require (t : Table) (name : String) : Except Fault Value :=
  match t.get? name with
  | some v => .ok v
  | none => .error (.missing name)

/-- The entries of a value that has to be a table to be looked up in by name. -/
def tableOf : Value → Except Fault Table
  | .table entries => .ok entries
  | v => .error (.notIndexable v.qualifiedTypeName)

end AgentClient.Wire
