import AgentClient.Number.Binary64
import AgentClient.Text.Blank
import AgentClient.Text.DecimalDigit

/-!
# Number/Reading — numbers out of free text

People write numbers with blanks around them, a sign, digits of any script and single underscores
between digits. `asciiForm` brings such a text to ASCII; `readInt` and `readFloat?` read the result.
-/

namespace AgentClient.Number

open Text

/-- A text with its wide blanks and its digits of other scripts replaced by those of ASCII. Another
character beyond ASCII ends the text with a question mark, which no number has. A text of ASCII
alone is returned as it is: its information separators are no blanks here. -/
def asciiForm : List Char → List Char
  | [] => []
  | c :: cs =>
    if c.toNat ≤ 127 then c :: asciiForm cs
    else if isBlank c then ' ' :: asciiForm cs
    else match digitValue? c with
      | some d => Char.ofNat (48 + d) :: asciiForm cs
      | none => ['?']

/-- The sign of a number, minus being `true`, and what follows it. -/
def takeSign : List Char → Bool × List Char
  | '-' :: cs => (true, cs)
  | '+' :: cs => (false, cs)
  | cs => (false, cs)

/-- A run of digits with single underscores between them: the values of the digits, and what follows
the run. `none` if an underscore in the run has no digit behind it. -/
def digitRun : List Char → Option (List Nat × List Char)
  | [] => some ([], [])
  | c :: cs =>
    match asciiDigit? c with
    | some d => (digitRun cs).map fun (ds, rest) => (d :: ds, rest)
    | none =>
      if c = '_' then
        if (cs.head?.bind asciiDigit?).isSome then digitRun cs else none
      else some ([], c :: cs)

/-- A run of digits that does not begin with an underscore. -/
def takeDigits (cs : List Char) : Option (List Nat × List Char) :=
  if cs.head? = some '_' then none else digitRun cs

/-- Why a text is no whole number. -/
inductive IntFault where
  /-- It has not the form of one. -/
  | malformed
  /-- It has the form of one, at least in its first part, but more than `maxDigits` digits. -/
  | overlong (digits : Nat)
  deriving DecidableEq, Repr

/-- The whole number that a text holds. The count of digits is looked at before what follows them.
-/
def readInt (s : String) : Except IntFault Int :=
  let (negative, cs) := takeSign ((asciiForm s.toList).dropWhile isAsciiBlank)
  match takeDigits cs with
  | none => .error .malformed
  | some (ds, rest) =>
    if maxDigits < ds.length then .error (.overlong ds.length)
    else if ds = [] || !rest.all isAsciiBlank then .error .malformed
    else .ok (if negative then -(ofDigits ds : Int) else ofDigits ds)

/-- A fraction: a point and the digits behind it. -/
def takeFraction : List Char → Option (List Nat × List Char)
  | '.' :: cs => takeDigits cs
  | cs => some ([], cs)

/-- An exponent with at least one digit; what has not the form of one is left. -/
def takeExponent (cs : List Char) : Option (Int × List Char) :=
  match cs with
  | c :: rest =>
    if c = 'e' || c = 'E' then
      let (negative, rest) := takeSign rest
      match takeDigits rest with
      | none => none
      | some ([], _) => some (0, cs)
      | some (ds, rest) => some (if negative then -(ofDigits ds : Int) else ofDigits ds, rest)
    else some (0, cs)
  | [] => some (0, [])

/-- The number without its sign: one of three words in any case, or digits. -/
def readMagnitude? (negative : Bool) (cs : List Char) : Option Binary64 :=
  let word := cs.map Char.toLower
  if word = "inf".toList || word = "infinity".toList then some (.infinite negative)
  else if word = "nan".toList then some .nan
  else do
    let (whole, rest) ← takeDigits cs
    let (part, rest) ← takeFraction rest
    if whole = [] && part = [] then none
    let (exponent, rest) ← takeExponent rest
    if rest ≠ [] then none
    return .ofDecimal negative (ofDigits (whole ++ part)) (exponent - part.length)

/-- The floating-point number that a text holds. -/
def readFloat? (s : String) : Option Binary64 :=
  let (negative, cs) := takeSign (trim isAsciiBlank (asciiForm s.toList))
  readMagnitude? negative cs

end AgentClient.Number
