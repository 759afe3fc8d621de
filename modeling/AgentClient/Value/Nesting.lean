import AgentClient.Value.Basic

/-!
# Value/Nesting — how deep a value is nested

What goes through a value part by part calls itself for the parts, and calls may stand on one
another only so deep. A value can therefore be nested too deep to be gone through, wherever it has
come from. -/

namespace AgentClient

namespace Value

mutual

/-- How many values stand in one another at the innermost part of a value, with both ends counted.
-/
def nesting : Value → Nat
  | .list items | .tuple items => nestingItems items + 1
  | .table entries => nestingEntries entries + 1
  | _ => 1

/-- How deep the deepest of some values is nested. -/
def nestingItems : List Value → Nat
  | [] => 0
  | v :: vs => max (nesting v) (nestingItems vs)

/-- How deep the deepest key or value of a table is nested. -/
def nestingEntries : List (Value × Value) → Nat
  | [] => 0
  | (k, v) :: rest => max (max (nesting k) (nesting v)) (nestingEntries rest)

end

theorem nesting_pos (v : Value) : 0 < v.nesting := by
  cases v <;> simp [nesting]

end Value

/-! ## Copies

A copy takes two calls for a sequence or a table and up to three for what has no parts. Which values
have one therefore depends on more than their nesting, and on the calls that stand below; and what
is said of a value that has none depends on the call that was one too many. So both are left to the
machine, and what is known of it is that it copies whatever is not nested too deep. -/

/-- **What a machine copies.** -/
structure CopyLimit where
  /-- What the machine says of a value that it does not copy. -/
  refusal? : Value → Option String
  /-- How deep a value may be nested that is copied in any case. -/
  depth : Nat
  refusal?_eq_none : ∀ v, v.nesting ≤ depth → refusal? v = none

/-- The limit that is kept exactly: the machine copies what is nested so deep, and nothing else. -/
def CopyLimit.exactly (depth : Nat) : CopyLimit where
  refusal? v := if v.nesting ≤ depth then none else some "maximum recursion depth exceeded"
  depth
  refusal?_eq_none _ h := if_pos h

theorem CopyLimit.refusal?_exactly {depth : Nat} {v : Value} (h : depth < v.nesting) :
    (exactly depth).refusal? v = some "maximum recursion depth exceeded" :=
  if_neg (Nat.not_le.mpr h)

/-- What a machine copies at the two places where values are copied. There are more calls below
while a turn is running than behind it; of a thousand calls about half are left for the nesting. -/
structure CopyLimits where
  /-- What is copied of the events that are shown as they come. -/
  event : CopyLimit := .exactly 490
  /-- What is copied of the items of a turn that is shown as a whole. -/
  item : CopyLimit := .exactly 495

end AgentClient
