import AgentClient.Number.Decimal

/-!
# Number/Layout — floating-point numbers as text

A layout says which numbers are written without an exponent and whether a whole one keeps a point.
`shortText` writes the shortest decimal that reads back as the number; `generalText` writes six
significant digits, for people.
-/

namespace AgentClient.Number

/-- The decisions of a number format. -/
structure Layout where
  /-- Up to this place of the point, this one included, a number is written with an exponent. -/
  lowest : Int
  /-- The last place of the point at which a number is written without an exponent. -/
  highest : Int
  /-- Whether a whole number written without an exponent ends in `.0`. -/
  pointed : Bool

namespace Layout

/-- From `0.0001` up to sixteen digits before the point a number has no exponent; it always shows
that it is no whole number by type. -/
def short : Layout := ⟨-4, 16, true⟩

/-- From `0.0001` up to six digits before the point a number has no exponent. -/
def general : Layout := ⟨-4, 6, false⟩

/-- Digits with the point among, before or behind them. -/
def positional (l : Layout) (ds : List Char) (point : Int) : List Char :=
  if point ≤ 0 then '0' :: '.' :: (List.replicate (-point).toNat '0' ++ ds)
  else
    let p := point.toNat
    if ds.length ≤ p then
      ds ++ List.replicate (p - ds.length) '0' ++ (if l.pointed then ['.', '0'] else [])
    else ds.take p ++ '.' :: ds.drop p

/-- An exponent: its sign and at least two digits. -/
def exponentText (e : Int) : List Char :=
  let ds := digits e.natAbs
  'e' :: (if e < 0 then '-' else '+') :: (if ds.length < 2 then '0' :: ds else ds)

/-- One digit, the others behind a point, and the exponent. -/
def scientific (ds : List Char) (point : Int) : List Char :=
  ds.take 1 ++ (if ds.length ≤ 1 then [] else '.' :: ds.drop 1) ++ exponentText (point - 1)

/-- Digits and the place of the point as the layout has them. -/
def write (l : Layout) (ds : List Char) (point : Int) : List Char :=
  if l.lowest < point && point ≤ l.highest then l.positional ds point else scientific ds point

end Layout

namespace Binary64

/-- The text of a number whose finite part is written by a layout from a decimal. -/
def textBy (l : Layout) (decimal : Nat → Int → Decimal) : Binary64 → String
  | .nan => "nan"
  | .infinite false => "inf"
  | .infinite true => "-inf"
  | .finite negative m e =>
    let (ds, point) := if m = 0 then (['0'], 1) else (decimal m e).significant
    String.ofList ((if negative then ['-'] else []) ++ l.write ds point)

/-- The shortest text that reads back as the number. -/
def shortText : Binary64 → String :=
  textBy .short Decimal.shortest

/-- The number to six significant digits. -/
def generalText : Binary64 → String :=
  textBy .general fun m e => let (up, down) := powTwo e; Decimal.rounded 6 (m * up) down

end Binary64

end AgentClient.Number
