/-!
# Text/Surrogate — code points, and which of them are characters

The code points of the two surrogate ranges are halves of pairs; a pair of them stands for a
character beyond the first 65536, and a half alone for none. -/

namespace AgentClient.Text

/-- Whether a code point is the first half of a surrogate pair. -/
def isHighSurrogate (n : Nat) : Bool := 0xD800 ≤ n && n ≤ 0xDBFF

/-- Whether a code point is the second half of a surrogate pair. -/
def isLowSurrogate (n : Nat) : Bool := 0xDC00 ≤ n && n ≤ 0xDFFF

/-- Whether a code point is half of a surrogate pair. -/
def isSurrogate (n : Nat) : Bool := isHighSurrogate n || isLowSurrogate n

/-- The character of a surrogate pair. -/
def pairChar (high low : Nat) : Char :=
  Char.ofNat (0x10000 + (high - 0xD800) * 0x400 + (low - 0xDC00))

/-- The code points of a list of code units: neighbouring halves of a pair are joined. -/
def joinPairs : List Nat → List Nat
  | [] => []
  | [u] => [u]
  | u :: v :: rest =>
    if isHighSurrogate u && isLowSurrogate v then (pairChar u v).toNat :: joinPairs rest
    else u :: joinPairs (v :: rest)

/-- The character of a code point; half of a pair has none. -/
def charOf? (n : Nat) : Option Char :=
  if isSurrogate n then none else some (Char.ofNat n)

/-- The character that stands for what is none. -/
def replacement : Char := Char.ofNat 0xFFFD

/-- A character has itself back. -/
theorem charOf?_toNat (c : Char) : charOf? c.toNat = some c := by
  have h : c.toNat < 0xD800 ∨ (0xDFFF < c.toNat ∧ c.toNat < 0x110000) := c.valid
  have : isSurrogate c.toNat = false := by
    simp only [isSurrogate, isHighSurrogate, isLowSurrogate, Bool.or_eq_false_iff,
      Bool.and_eq_false_iff, decide_eq_false_iff_not]
    omega
  simp [charOf?, this]

end AgentClient.Text
