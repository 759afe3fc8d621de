import AgentClient.Number.Layout
import AgentClient.Text.Pieces
import AgentClient.Text.Quoted
import AgentClient.Value.Basic

/-!
# Value/Display — values as text for messages

`display` shows a value on one line so that its type can be seen: texts stand in quotation marks,
lists in square, tuples in round brackets, tables in braces. `asText` is the same except that a text
stands for itself, half of a surrogate pair and all. Neither writes a whole number of too many
digits; `hasOverlong` finds those. Nor can a value be shown that is nested too deep, for showing its
parts takes calls that stand on one another: `displayObstacle?` finds what comes first of the two. A
value that was read from a line is never nested so deep, since reading it takes more calls than
showing it. -/

namespace AgentClient.Value

open Number

mutual

/-- A value on one line. -/
def display : Value → String
  | .null => "None"
  | .bool true => "True"
  | .bool false => "False"
  | .int n => intText n
  | .float x => x.shortText
  | .str s => Text.quoted s
  | .broken points => (WireText.broken points).quoted
  | .list items => "[" ++ Text.join ", " (displayItems items) ++ "]"
  | .tuple [item] => "(" ++ display item ++ ",)"
  | .tuple items => "(" ++ Text.join ", " (displayItems items) ++ ")"
  | .table entries => "\x7b" ++ Text.join ", " (displayEntries entries) ++ "\x7d"
  | .model m => "<class '" ++ m.name ++ "'>"
  | .foreign name => "<" ++ name ++ " object>"

/-- The members of a sequence, each on one line. -/
def displayItems : List Value → List String
  | [] => []
  | v :: vs => display v :: displayItems vs

/-- The entries of a table, each on one line. -/
def displayEntries : List (Value × Value) → List String
  | [] => []
  | (k, v) :: rest => (display k ++ ": " ++ display v) :: displayEntries rest

end

/-- A value as text: a text itself, any other value on one line. -/
def asText (v : Value) : WireText :=
  v.text?.getD (.plain v.display)

mutual

/-- Whether a whole number of too many digits is in a value. -/
def hasOverlong : Value → Bool
  | .int n => isOverlong n
  | .list items | .tuple items => anyOverlong items
  | .table entries => anyOverlongEntry entries
  | _ => false

/-- Whether a whole number of too many digits is in one of some values. -/
def anyOverlong : List Value → Bool
  | [] => false
  | v :: vs => hasOverlong v || anyOverlong vs

/-- Whether a whole number of too many digits is in an entry of a table. -/
def anyOverlongEntry : List (Value × Value) → Bool
  | [] => false
  | (k, v) :: rest => hasOverlong k || hasOverlong v || anyOverlongEntry rest

end

/-- What keeps a value from being shown. -/
inductive DisplayObstacle where
  /-- A whole number in it has too many digits. -/
  | overlong
  /-- It is nested too deep. -/
  | nesting
  deriving DecidableEq, Repr

/-- How many calls may stand on one another if none stand below. -/
def displayDepth : Nat := 1000

mutual

/-- What keeps a value from being shown, where only so many calls may stand on one another: one for
every value. Of several obstacles the first on the way counts. -/
def displayObstacle? : (depth : Nat) → Value → Option DisplayObstacle
  | 0, _ => some .nesting
  | _ + 1, .int n => if isOverlong n then some .overlong else none
  | depth + 1, .list items => itemsObstacle? depth items
  | depth + 1, .tuple items => itemsObstacle? depth items
  | depth + 1, .table entries => entriesObstacle? depth entries
  | _ + 1, _ => none

/-- What keeps the members of a sequence from being shown. -/
def itemsObstacle? (depth : Nat) : List Value → Option DisplayObstacle
  | [] => none
  | v :: vs => (displayObstacle? depth v).or (itemsObstacle? depth vs)

/-- What keeps the entries of a table from being shown, each key before its value. -/
def entriesObstacle? (depth : Nat) : List (Value × Value) → Option DisplayObstacle
  | [] => none
  | (k, v) :: rest =>
    (displayObstacle? depth k).or ((displayObstacle? depth v).or (entriesObstacle? depth rest))

end

end AgentClient.Value
