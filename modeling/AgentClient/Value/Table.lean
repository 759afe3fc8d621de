import AgentClient.Value.Basic

/-!
# Value/Table — looking up and putting entries

Putting under a key that a table has keeps the place of the entry and replaces its value; under a
new key it adds an entry at the end. Numbers that are equal are one key, whatever their type, and
what is not a number is a new key every time. -/

namespace AgentClient

open Number

namespace Value

mutual

/-- The value that stands for all values equal to it as keys: a truth value or a floating-point
number that is equal to a whole number stands as that number. -/
def keyForm : Value → Value
  | .bool b => .int (if b then 1 else 0)
  | .float x => match x.toInt? with
    | some n => .int n
    | none => .float x
  | .tuple items => .tuple (keyForms items)
  | v => v

/-- The values that stand for the members of a sequence as keys. -/
def keyForms : List Value → List Value
  | [] => []
  | v :: vs => keyForm v :: keyForms vs

end

mutual

/-- The name of the type that keeps a value from being a key: what may still change is no key, nor
is a tuple with such a value in it. -/
def keyObstacle? : Value → Option String
  | .list _ => some "list"
  | .table _ => some "dict"
  | .foreign name => if name = "set" || name = "bytearray" then some name else none
  | .tuple items => firstKeyObstacle? items
  | _ => none

/-- The name of the first type among some values that keeps one from being a key. -/
def firstKeyObstacle? : List Value → Option String
  | [] => none
  | v :: vs => (keyObstacle? v).or (firstKeyObstacle? vs)

end

mutual

/-- Whether a value is equal to nothing as a key, since it is not a number or holds what is not. -/
def isUnequal : Value → Bool
  | .float .nan => true
  | .tuple items => anyUnequal items
  | _ => false

/-- Whether one of some values is equal to nothing as a key. -/
def anyUnequal : List Value → Bool
  | [] => false
  | v :: vs => isUnequal v || anyUnequal vs

end

/-- Whether two values are one key. -/
def isSameKey (a b : Value) : Bool :=
  !isUnequal b && a.keyForm = b.keyForm

/-- A name is the same key as no value but itself. -/
theorem keyForm_eq_str_iff {v : Value} {name : String} :
    v.keyForm = .str name ↔ v = .str name := by
  cases v <;> simp [keyForm]
  split <;> simp

theorem isSameKey_str_iff {v : Value} {name : String} :
    v.isSameKey (.str name) = true ↔ v = .str name := by
  simp [isSameKey, isUnequal, show (Value.str name).keyForm = .str name from rfl,
    keyForm_eq_str_iff]

end Value

namespace Table

/-- The value under a name. -/
def get? : Table → String → Option Value
  | [], _ => none
  | (k, v) :: rest, name => if k = .str name then some v else get? rest name

/-- The value under a name, or a default when there is none. -/
def getD (t : Table) (name : String) (default : Value) : Value :=
  (get? t name).getD default

/-- A table with a value put under a key. -/
def put : Table → Value → Value → Table
  | [], key, v => [(key, v)]
  | (k, w) :: rest, key, v =>
    if k.isSameKey key then (k, v) :: rest else (k, w) :: put rest key v

/-- What was put last is found. -/
theorem get?_put_self (t : Table) (name : String) (v : Value) :
    (t.put (.str name) v).get? name = some v := by
  induction t with
  | nil => simp [put, get?]
  | cons e t ih =>
    rw [put]
    split
    · next h => simp [get?, Value.isSameKey_str_iff.mp h]
    · next h =>
      rw [Value.isSameKey_str_iff] at h
      simp [get?, h, ih]

/-- Putting under one name changes nothing under the others. -/
theorem get?_put_of_ne (t : Table) {name other : String} (v : Value) (h : other ≠ name) :
    (t.put (.str name) v).get? other = t.get? other := by
  induction t with
  | nil => simp [put, get?, Ne.symm h]
  | cons e t ih =>
    rw [put]
    split
    · next hk => simp [get?, Value.isSameKey_str_iff.mp hk, Ne.symm h]
    · simp [get?, ih]

/-- The table that comes from putting entries one after another. -/
def ofPairs (pairs : List (Value × Value)) : Table :=
  pairs.foldl (fun t e => put t e.1 e.2) []

/-- A table whose keys are names. -/
def named (entries : List (String × Value)) : Table :=
  entries.map fun (k, v) => (.str k, v)

end Table

/-- A value that is a table whose keys are names. -/
def Value.named (entries : List (String × Value)) : Value :=
  .table (Table.named entries)

end AgentClient
