/-!
# Number/Digits — whole numbers and their decimal digits

Whole numbers are unbounded, but a number of more than `maxDigits` digits is neither read from a
text nor written into one: the cost of both grows with the square of the length. -/

namespace AgentClient.Number

/-- The greatest count of digits that a whole number may have as text. -/
def maxDigits : Nat := 4300

/-- The number that a list of digit values stands for, the leading digit first. -/
def ofDigits (ds : List Nat) : Nat :=
  ds.foldl (fun n d => n * 10 + d) 0

/-- The decimal digits of a natural number, the leading digit first; zero has one. -/
def digits (n : Nat) : List Char :=
  Nat.toDigits 10 n

/-- How many decimal digits a natural number has. -/
def digitCount (n : Nat) : Nat :=
  (digits n).length

/-- The decimal text of a whole number. -/
def intText : Int → String
  | .ofNat n => String.ofList (digits n)
  | .negSucc n => String.ofList ('-' :: digits (n + 1))

/-- Whether a whole number has too many digits to be written. -/
def isOverlong (n : Int) : Bool :=
  Nat.pow 10 maxDigits ≤ n.natAbs

end AgentClient.Number
