import AgentClient.Number.Binary64
import AgentClient.Value.Record
import AgentClient.Value.WireText

/-!
# Value/Basic — the values that options, schemas and wire lines are made of

Options and schemas come from people, wire lines from the agent; neither is typed beforehand. A
value is a scalar, a sequence of values or a table. Tables keep the order of their entries, and
their keys may be any values: whether they are names is for the reader of a table to check. -/

namespace AgentClient

open Number

/-- A value without a type given beforehand. -/
inductive Value where
  | null
  | bool (b : Bool)
  | int (n : Int)
  | float (x : Binary64)
  | str (s : String)
  /-- A text that is no string: its code points, some of which are halves of surrogate pairs. -/
  | broken (points : List Nat)
  /-- A sequence that was written as a list. -/
  | list (items : List Value)
  /-- A sequence that was written as a tuple. -/
  | tuple (items : List Value)
  /-- Entries in the order in which their keys were first put. -/
  | table (entries : List (Value × Value))
  /-- A record model, which may stand where a schema is wanted. -/
  | model (m : RecordModel)
  /-- A value of any other kind; nothing but the name of its type is known. -/
  | foreign (typeName : String)
  deriving Inhabited

/-- The entries of a table. -/
abbrev Table := List (Value × Value)

namespace Value

/-! ## Equality -/

mutual

/-- Whether two values are the same, part by part. -/
def same : Value → Value → Bool
  | .null, .null => true
  | .bool a, .bool b => a = b
  | .int a, .int b => a = b
  | .float a, .float b => a = b
  | .str a, .str b => a = b
  | .broken a, .broken b => a = b
  | .list as, .list bs => sameItems as bs
  | .tuple as, .tuple bs => sameItems as bs
  | .table as, .table bs => sameEntries as bs
  | .model a, .model b => a = b
  | .foreign a, .foreign b => a = b
  | _, _ => false

/-- Whether two sequences have the same members. -/
def sameItems : List Value → List Value → Bool
  | [], [] => true
  | a :: as, b :: bs => same a b && sameItems as bs
  | _, _ => false

/-- Whether two tables have the same entries in the same order. -/
def sameEntries : List (Value × Value) → List (Value × Value) → Bool
  | [], [] => true
  | (k, a) :: as, (l, b) :: bs => same k l && same a b && sameEntries as bs
  | _, _ => false

end

mutual

theorem same_iff : ∀ a b : Value, same a b = true ↔ a = b
  | .null, b => by cases b <;> simp [same]
  | .bool _, b => by cases b <;> simp [same]
  | .int _, b => by cases b <;> simp [same]
  | .float _, b => by cases b <;> simp [same]
  | .str _, b => by cases b <;> simp [same]
  | .broken _, b => by cases b <;> simp [same]
  | .list as, b => by cases b <;> simp [same, sameItems_iff as]
  | .tuple as, b => by cases b <;> simp [same, sameItems_iff as]
  | .table as, b => by cases b <;> simp [same, sameEntries_iff as]
  | .model _, b => by cases b <;> simp [same]
  | .foreign _, b => by cases b <;> simp [same]

theorem sameItems_iff : ∀ as bs : List Value, sameItems as bs = true ↔ as = bs
  | [], bs => by cases bs <;> simp [sameItems]
  | a :: as, bs => by cases bs <;> simp [sameItems, same_iff a, sameItems_iff as]

theorem sameEntries_iff : ∀ as bs : List (Value × Value), sameEntries as bs = true ↔ as = bs
  | [], bs => by cases bs <;> simp [sameEntries]
  | (k, a) :: as, bs => by
    cases bs <;> simp [sameEntries, same_iff k, same_iff a, sameEntries_iff as, Prod.ext_iff]

end

/-- Equality of values is decided part by part. -/
instance : DecidableEq Value := fun a b => decidable_of_iff _ (same_iff a b)

/-! ## Types and truth -/

/-- The name of the type of a value, as messages have it. -/
def typeName : Value → String
  | .null => "NoneType"
  | .bool _ => "bool"
  | .int _ => "int"
  | .float _ => "float"
  | .str _ | .broken _ => "str"
  | .list _ => "list"
  | .tuple _ => "tuple"
  | .table _ => "dict"
  | .model _ => "ModelMetaclass"
  | .foreign name => name

/-- The name of the type of a value with the module that a foreign type comes from, as messages
about operands have it. -/
def qualifiedTypeName : Value → String
  | .foreign "Decimal" => "decimal.Decimal"
  | v => v.typeName

/-- Whether a value counts as given: not null, false, zero or empty. -/
def isTruthy : Value → Bool
  | .null => false
  | .bool b => b
  | .int n => n ≠ 0
  | .float x => !x.isZero
  | .str s => s ≠ ""
  | .list items | .tuple items => !items.isEmpty
  | .table entries => !entries.isEmpty
  | .broken _ | .model _ | .foreign _ => true

/-- The text that a value is, if it is one. -/
def text? : Value → Option WireText
  | .str s => some (.plain s)
  | .broken points => some (.broken points)
  | _ => none

end Value

/-- A text as a value. -/
def WireText.toValue : WireText → Value
  | .plain s => .str s
  | .broken points => .broken points

theorem WireText.text?_toValue (t : WireText) : t.toValue.text? = some t := by
  cases t <;> rfl

end AgentClient
