import AgentClient.Value.Display
import AgentClient.Value.Nesting

/-!
# Proofs/Value/Showing — what keeps a value from being shown

`Value.displayObstacle?` goes through a value until it meets a whole number of too many digits or a
part that is nested too deep.  What it says of the value is read against two measures that do not
stop on the way (`Value.isObstacle_displayObstacle?`): an obstacle that is named is in the value,
and if none is named there is neither. -/

namespace AgentClient.Value

/-! ## What an obstacle says

The two measures of a value are put together from those of its parts by `||` and `max`, and the
obstacle by `Option.or`, which keeps the first.  So the statement carries over from the parts to the
whole. -/

/-- **What an obstacle says of a value** that has this `nesting` and, if `overlong`, a number of too
many digits. -/
inductive IsObstacle (depth nesting : Nat) (overlong : Bool) : Option DisplayObstacle → Prop
  | clear (hshort : overlong = false) (hflat : nesting ≤ depth) :
      IsObstacle depth nesting overlong none
  | overlong (h : overlong = true) : IsObstacle depth nesting overlong (some .overlong)
  | nested (h : depth < nesting) : IsObstacle depth nesting overlong (some .nesting)

namespace IsObstacle

variable {depth m n : Nat} {p q : Bool} {o o' : Option DisplayObstacle}

theorem nil (depth : Nat) : IsObstacle depth 0 false none :=
  .clear rfl (Nat.zero_le depth)

/-- A value without parts takes one call, and has no number of too many digits. -/
theorem of_leaf (depth : Nat) : IsObstacle (depth + 1) 1 false none :=
  .clear rfl (Nat.succ_pos depth)

/-- The first obstacle of two parts says something of both together. -/
theorem or (h : IsObstacle depth m p o) (h' : IsObstacle depth n q o') :
    IsObstacle depth (max m n) (p || q) (o.or o') := by
  cases h with
  | overlong hp => exact .overlong (Bool.or_eq_true_iff.mpr (.inl hp))
  | nested hm => exact .nested (Nat.lt_of_lt_of_le hm (Nat.le_max_left m n))
  | clear hp hm =>
    cases h' with
    | clear hq hn => exact .clear (Bool.or_eq_false_iff.mpr ⟨hp, hq⟩) (Nat.max_le.mpr ⟨hm, hn⟩)
    | overlong hq => exact .overlong (Bool.or_eq_true_iff.mpr (.inr hq))
    | nested hn => exact .nested (Nat.lt_of_lt_of_le hn (Nat.le_max_right m n))

/-- The obstacle of the parts is that of the whole, which is nested one deeper. -/
theorem succ (h : IsObstacle depth n p o) : IsObstacle (depth + 1) (n + 1) p o := by
  cases h with
  | clear hp hn => exact .clear hp (Nat.succ_le_succ hn)
  | overlong hp => exact .overlong hp
  | nested hn => exact .nested (Nat.succ_lt_succ hn)

end IsObstacle

/-- A whole number is an obstacle just if it has too many digits. -/
theorem isObstacle_displayObstacle?_int (n : Int) (depth : Nat) :
    IsObstacle (depth + 1) (nesting (.int n)) (hasOverlong (.int n))
      (displayObstacle? (depth + 1) (.int n)) := by
  show IsObstacle (depth + 1) 1 (Number.isOverlong n)
    (if Number.isOverlong n then some .overlong else none)
  split
  · next h => exact .overlong h
  · next h => exact .clear (Bool.eq_false_iff.mpr h) (Nat.succ_pos depth)

mutual

/-- **The obstacle that is found is in the value**, and if none is found there is none. -/
theorem isObstacle_displayObstacle? : ∀ (v : Value) (depth : Nat),
    IsObstacle depth v.nesting v.hasOverlong (displayObstacle? depth v)
  -- No call is left, and every value takes one.
  | v, 0 => by
    rw [displayObstacle?]
    exact .nested v.nesting_pos
  | .int n, depth + 1 => isObstacle_displayObstacle?_int n depth
  | .list items, depth + 1 | .tuple items, depth + 1 => (isObstacle_itemsObstacle? items depth).succ
  | .table entries, depth + 1 => (isObstacle_entriesObstacle? entries depth).succ
  | .null, depth + 1 | .bool _, depth + 1 | .float _, depth + 1 | .str _, depth + 1
  | .broken _, depth + 1 | .model _, depth + 1 | .foreign _, depth + 1 => .of_leaf depth

/-- The same of the members of a sequence. -/
theorem isObstacle_itemsObstacle? : ∀ (vs : List Value) (depth : Nat),
    IsObstacle depth (nestingItems vs) (anyOverlong vs) (itemsObstacle? depth vs)
  | [], depth => .nil depth
  | v :: vs, depth => (isObstacle_displayObstacle? v depth).or (isObstacle_itemsObstacle? vs depth)

/-- The same of the entries of a table. -/
theorem isObstacle_entriesObstacle? : ∀ (entries : List (Value × Value)) (depth : Nat),
    IsObstacle depth (nestingEntries entries) (anyOverlongEntry entries)
      (entriesObstacle? depth entries)
  | [], depth => .nil depth
  | (k, v) :: rest, depth => by
    rw [nestingEntries, anyOverlongEntry, entriesObstacle?, Nat.max_assoc, Bool.or_assoc]
    exact (isObstacle_displayObstacle? k depth).or
      ((isObstacle_displayObstacle? v depth).or (isObstacle_entriesObstacle? rest depth))

end

end AgentClient.Value
