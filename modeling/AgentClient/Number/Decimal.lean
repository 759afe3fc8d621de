import AgentClient.Number.Binary64

/-!
# Number/Decimal — the decimals that stand for a floating-point number

Two decimals are asked for: the *shortest* one that reads back as the same number, and the one
*rounded* to a count of digits. Both are found among the two neighbours of the number on a decimal
grid. All comparisons are between natural numbers; a grid and a number are brought over one
denominator first.
-/

namespace AgentClient.Number

/-- The decimal `coefficient · 10 ^ exponent`. -/
structure Decimal where
  coefficient : Nat
  exponent : Int
  deriving DecidableEq, Repr, Inhabited

namespace Decimal

/-- A list of digits without the zeros at its end, and how many those are. -/
def dropZeros (ds : List Char) : List Char × Nat :=
  let kept := (ds.reverse.dropWhile (· = '0')).reverse
  (kept, ds.length - kept.length)

/-- The significant digits and the place of the point, counted from the first digit: the value is
`0.d₁d₂… · 10 ^ point`. Zero has the one digit `0` and the point after it. -/
def significant (d : Decimal) : List Char × Int :=
  if d.coefficient = 0 then (['0'], 1)
  else
    let ds := digits d.coefficient
    ((dropZeros ds).1, ds.length + d.exponent)

/-- The place of the point of a positive fraction: the least `p` with `num / den < 10 ^ p`. -/
def pointOf (num den : Nat) : Int :=
  if den ≤ num then digitCount (num / den)
  else
    let t := digitCount (den / num)
    if num * Nat.pow 10 (t - 1) = den then 2 - t else 1 - t

/-- A positive fraction measured in the steps `10 ^ place` of a grid, as a fraction. -/
def onGrid (num den : Nat) (place : Int) : Nat × Nat :=
  let (up, down) := powTen (-place)
  (num * up, den * down)

/-- The decimal of `count` digits nearest to a positive fraction; of two equally near the even
one. -/
def rounded (count : Nat) (num den : Nat) : Decimal :=
  let place := pointOf num den - count
  let (n, d) := onGrid num den place
  ⟨roundHalfEven n d, place⟩

/-- **The interval of a number**: four times its lower end, the number itself and its upper end,
over one denominator. What lies strictly between the ends rounds to the number. Below a power of two
the numbers are twice as close. -/
structure Interval where
  lower : Nat
  center : Nat
  upper : Nat
  denominator : Nat
  /-- Whether the ends themselves round to the number. -/
  closed : Bool
  deriving Repr

/-- The interval of `significand · 2 ^ exponent`. -/
def interval (significand : Nat) (exponent : Int) : Interval :=
  let (up, down) := powTwo exponent
  let isLeast := significand = Binary64.fullSignificand && Binary64.minExponent < exponent
  let below := if isLeast then 1 else 2
  { lower := (4 * significand - below) * up
    center := 4 * significand * up
    upper := (4 * significand + 2) * up
    denominator := down
    closed := significand % 2 = 0 }

/-- Whether `candidate` steps of a grid lie in an interval. -/
def Interval.holds (i : Interval) (candidate : Nat) : Bool :=
  let c := 4 * candidate * i.denominator
  if i.closed then i.lower ≤ c && c ≤ i.upper else i.lower < c && c < i.upper

/-- An interval measured in the steps `10 ^ place` of a grid. -/
def Interval.inSteps (i : Interval) (place : Int) : Interval :=
  let (up, down) := powTen (-place)
  { i with lower := i.lower * up, center := i.center * up, upper := i.upper * up
           denominator := i.denominator * down }

/-- The better of the two neighbours of a number on the grid `10 ^ place`, if one of them lies in
its interval: the nearer, and of two equally near the even one. -/
def neighbour? (i : Interval) (place : Int) : Option Decimal :=
  let s := i.inSteps place
  let below := s.center / (4 * s.denominator)
  let above := below + 1
  match s.holds below, s.holds above with
  | false, false => none
  | true, false => some ⟨below, place⟩
  | false, true => some ⟨above, place⟩
  | true, true => some ⟨roundHalfEven s.center (4 * s.denominator), place⟩

/-- The decimal with the fewest digits that rounds to `significand · 2 ^ exponent`, the nearest of
those. Seventeen digits are always enough. -/
def shortest (significand : Nat) (exponent : Int) : Decimal :=
  let (up, down) := powTwo exponent
  let point := pointOf (significand * up) down
  let i := interval significand exponent
  ((List.range 17).findSome? fun (k : Nat) => neighbour? i (point - (k + 1))).getD
    (rounded 17 (significand * up) down)

end Decimal

end AgentClient.Number
