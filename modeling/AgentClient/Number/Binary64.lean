import AgentClient.Number.Digits

/-!
# Number/Binary64 — floating-point numbers of 64 bits, as exact numbers

A finite number is `significand · 2 ^ exponent` with a sign. Everything a client does with such a
number — rounding a quotient to it, cutting it down to a whole number, writing it — is arithmetic on
these two, so it is exact and can be computed by hand.
-/

namespace AgentClient.Number

/-- A floating-point number of 64 bits. A finite one has `significand < 2 ^ 53` and
`-1074 ≤ exponent ≤ 971`, and `2 ^ 52 ≤ significand` unless the exponent is the least. -/
inductive Binary64 where
  /-- A finite number, negative zero included. -/
  | finite (negative : Bool) (significand : Nat) (exponent : Int)
  /-- An infinity. -/
  | infinite (negative : Bool)
  /-- Not a number. -/
  | nan
  deriving DecidableEq, Repr, Inhabited

/-- A quotient rounded to the nearest natural number, the even one of two equally near. -/
def roundHalfEven (num den : Nat) : Nat :=
  let q := num / den
  let twice := 2 * (num % den)
  if twice < den then q
  else if den < twice then q + 1
  else if q % 2 = 0 then q else q + 1

/-- `2 ^ e` as a fraction. -/
def powTwo (e : Int) : Nat × Nat :=
  (Nat.pow 2 e.toNat, Nat.pow 2 (-e).toNat)

/-- `10 ^ e` as a fraction. -/
def powTen (e : Int) : Nat × Nat :=
  (Nat.pow 10 e.toNat, Nat.pow 10 (-e).toNat)

namespace Binary64

/-- The least exponent of a finite number. -/
def minExponent : Int := -1074

/-- The greatest exponent of a finite number. -/
def maxExponent : Int := 971

/-- The least significand of full length. -/
def fullSignificand : Nat := Nat.pow 2 52

/-- Zero of either sign. -/
def zero (negative : Bool) : Binary64 := .finite negative 0 minExponent

/-- The number nearest to a positive fraction, with a given sign; of two equally near the one with
the even significand, and infinity from half a step above the greatest finite number on. -/
def ofFraction (negative : Bool) (num den : Nat) : Binary64 :=
  let guess := max ((num.log2 : Int) - (den.log2 : Int) - 53) minExponent
  let at_ (e : Int) : Nat × Nat := (num * (powTwo (-e)).1, den * (powTwo (-e)).2)
  let low := at_ guess
  let exponent := if 2 * fullSignificand ≤ low.1 / low.2 then guess + 1 else guess
  let scaled := at_ exponent
  let significand := roundHalfEven scaled.1 scaled.2
  let (significand, exponent) :=
    if significand = 2 * fullSignificand then (fullSignificand, exponent + 1)
    else (significand, exponent)
  if maxExponent < exponent then .infinite negative
  else .finite negative significand exponent

/-- The number nearest to `coefficient · 10 ^ exponent`. The two far ends are decided by the count
of digits alone, so that a huge exponent costs nothing. -/
def ofDecimal (negative : Bool) (coefficient : Nat) (exponent : Int) : Binary64 :=
  if coefficient = 0 then zero negative
  else
    let magnitude := exponent + digitCount coefficient
    if 310 < magnitude then .infinite negative
    else if magnitude < -330 then zero negative
    else
      let (up, down) := powTen exponent
      ofFraction negative (coefficient * up) down

/-- The number nearest to a whole number. -/
def ofInt (n : Int) : Binary64 :=
  if n = 0 then zero false else ofFraction (n < 0) n.natAbs 1

/-- Whether a number is neither infinite nor without a value. -/
def isFinite : Binary64 → Bool
  | .finite .. => true
  | _ => false

/-- Whether a number is zero of either sign. -/
def isZero : Binary64 → Bool
  | .finite _ 0 _ => true
  | _ => false

/-- A finite number without its fraction, toward zero. -/
def truncate (negative : Bool) (significand : Nat) (exponent : Int) : Int :=
  let (up, down) := powTwo exponent
  let n : Int := (significand * up / down : Nat)
  if negative then -n else n

/-- The whole number that a number is equal to. -/
def toInt? : Binary64 → Option Int
  | .finite negative m e =>
    let (up, down) := powTwo e
    if m * up % down = 0 then some (truncate negative m e) else none
  | _ => none

end Binary64

end AgentClient.Number
