import AgentClient.Json.Fault
import AgentClient.Number.Digits
import AgentClient.Text.DecimalDigit
import AgentClient.Text.Hex
import AgentClient.Value.Table

/-!
# Json/Reader — reading JSON documents

The reader goes over the text once, from left to right, and stops at the first fault. It takes three
words beyond the standard, `NaN`, `Infinity` and `-Infinity`, keeps whole and floating-point numbers
apart, and lets the last of several members of one name win at the place of the first.

Every function takes the text that is left and returns what it read with the text then left; a
complaint carries the text left at its place, from which the place is computed at the end.
-/

namespace AgentClient.Json

open Number

/-- The decisions that two readers of JSON may take differently. -/
structure Dialect where
  /-- How deep arrays and objects may be nested. -/
  maxDepth : Nat
  /-- Whether half of a surrogate pair may be escaped alone. -/
  loneSurrogates : Bool

/-- A fault with the text left at its place. -/
inductive Stop where
  | malformed (what : Complaint) (rest : List Char)
  | tooDeep (nest : Nest)
  | tooManyDigits (count : Nat)
  deriving DecidableEq

/-- Whether a character may stand between the parts of a document. -/
def isGap (c : Char) : Bool :=
  c = ' ' || c = '\t' || c = '\n' || c = '\r'

/-- The text without the gap at its front. -/
def skipGap (cs : List Char) : List Char :=
  cs.dropWhile isGap

/-! ## Texts -/

/-- The character that a one-letter escape stands for. -/
def shortEscape? (c : Char) : Option Char :=
  if c = '"' || c = '\\' || c = '/' then some c
  else if c = 'b' then some '\x08'
  else if c = 'f' then some '\x0C'
  else if c = 'n' then some '\n'
  else if c = 'r' then some '\r'
  else if c = 't' then some '\t'
  else none

/-- The code units of a text up to its closing mark; `start` is the text left at the opening one. A
code escape has to be followed by something. -/
def readUnits (start : List Char) : List Char → Except Stop (List Nat × List Char)
  | [] => .error (.malformed .unterminatedText start)
  | c :: cs =>
    if c = '"' then .ok ([], cs)
    else if c = '\\' then
      match cs with
      | [] => .error (.malformed .unterminatedText start)
      | e :: rest =>
        if e = 'u' then
          match rest with
          | h :: i :: j :: k :: rest' =>
            match Text.hexValue4? h i j k with
            | none => .error (.malformed .badCodeEscape cs)
            | some unit =>
              if rest'.isEmpty then .error (.malformed .badCodeEscape cs)
              else (readUnits start rest').map fun (units, r) => (unit :: units, r)
          | _ => .error (.malformed .badCodeEscape cs)
        else
          match shortEscape? e with
          | none => .error (.malformed .badEscape (c :: cs))
          | some d => (readUnits start rest).map fun (units, r) => (d.toNat :: units, r)
    else if c.toNat < 0x20 then .error (.malformed .controlCharacter (c :: cs))
    else (readUnits start cs).map fun (units, r) => (c.toNat :: units, r)

/-- A text whose opening mark has been read; `start` is the text left at that mark. -/
def readText (d : Dialect) (start cs : List Char) : Except Stop (WireText × List Char) := do
  let (units, rest) ← readUnits start cs
  let points := Text.joinPairs units
  if !d.loneSurrogates && points.any Text.isSurrogate then
    throw (.malformed .badCodeEscape start)
  return (.ofPoints points, rest)

/-! ## Numbers -/

/-- The digits at the front of a text. -/
def digitSpan : List Char → List Nat × List Char
  | [] => ([], [])
  | c :: cs =>
    match Text.asciiDigit? c with
    | some v => let (ds, rest) := digitSpan cs; (v :: ds, rest)
    | none => ([], c :: cs)

/-- The whole part of a number: a zero alone, or digits that begin with another one. -/
def wholeSpan : List Char → List Nat × List Char
  | '0' :: cs => ([0], cs)
  | cs => digitSpan cs

/-- A point with at least one digit behind it. -/
def fractionSpan : List Char → Option (List Nat) × List Char
  | '.' :: cs =>
    match digitSpan cs with
    | ([], _) => (none, '.' :: cs)
    | (ds, rest) => (some ds, rest)
  | cs => (none, cs)

/-- The sign of an exponent. -/
def exponentSign : List Char → Bool × List Char
  | '-' :: cs => (true, cs)
  | '+' :: cs => (false, cs)
  | cs => (false, cs)

/-- The letter of an exponent, its sign and at least one digit. -/
def exponentSpan (cs : List Char) : Option Int × List Char :=
  match cs with
  | [] => (none, [])
  | c :: rest =>
    if c = 'e' || c = 'E' then
      let (negative, rest) := exponentSign rest
      match digitSpan rest with
      | ([], _) => (none, cs)
      | (ds, rest) => (some (if negative then -(ofDigits ds : Int) else ofDigits ds), rest)
    else (none, cs)

/-- A number. It is whole if it has neither a fraction nor an exponent. -/
def readNumber (cs : List Char) : Except Stop (Value × List Char) :=
  let (negative, rest) := match cs with
    | '-' :: rest => (true, rest)
    | _ => (false, cs)
  match wholeSpan rest with
  | ([], _) => .error (.malformed .noValue cs)
  | (whole, rest) =>
    match fractionSpan rest with
    | (part, rest) =>
      match exponentSpan rest with
      | (none, rest) =>
        match part with
        | none =>
          if maxDigits < whole.length then .error (.tooManyDigits whole.length)
          else .ok (.int (if negative then -(ofDigits whole : Int) else ofDigits whole), rest)
        | some part =>
          .ok (.float (.ofDecimal negative (ofDigits (whole ++ part)) (-part.length)), rest)
      | (some exponent, rest) =>
        let part := part.getD []
        .ok (.float (.ofDecimal negative (ofDigits (whole ++ part)) (exponent - part.length)), rest)

/-! ## Values -/

/-- A function that reads one value. -/
abbrev ValueReader := List Char → Except Stop (Value × List Char)

/-- The words that are values. -/
def wordValues : List (List Char × Value) :=
  [("null".toList, .null), ("true".toList, .bool true), ("false".toList, .bool false),
   ("NaN".toList, .float .nan), ("Infinity".toList, .float (.infinite false)),
   ("-Infinity".toList, .float (.infinite true))]

/-- A word or a number. -/
def readWord (cs : List Char) : Except Stop (Value × List Char) :=
  match wordValues.find? fun (word, _) => word.isPrefixOf cs with
  | some (word, v) => .ok (v, cs.drop word.length)
  | none => readNumber cs

/-- The elements of an array from the first one on, up to the closing bracket. The count bounds the
number of elements; the length of the text is enough. -/
def readElements (inner : ValueReader) :
    Nat → List Char → Except Stop (List Value × List Char)
  | 0, cs => .error (.malformed .noValue cs)
  | n + 1, cs => do
    let (v, rest) ← inner cs
    match skipGap rest with
    | ']' :: rest => return ([v], rest)
    | ',' :: rest =>
      let (vs, rest) ← readElements inner n (skipGap rest)
      return (v :: vs, rest)
    | rest => throw (.malformed .noComma rest)

/-- An array whose opening bracket has been read. -/
def readArray (inner : ValueReader) (cs : List Char) : Except Stop (List Value × List Char) :=
  match skipGap cs with
  | ']' :: rest => .ok ([], rest)
  | rest => readElements inner (rest.length + 1) rest

/-- The name of a member, the colon and the gaps around it. -/
def readName (d : Dialect) : List Char → Except Stop (WireText × List Char)
  | '"' :: cs => do
    let (name, rest) ← readText d ('"' :: cs) cs
    match skipGap rest with
    | ':' :: rest => return (name, skipGap rest)
    | rest => throw (.malformed .noColon rest)
  | cs => .error (.malformed .noName cs)

/-- The members of an object from the first one on, up to the closing brace. -/
def readMembers (d : Dialect) (inner : ValueReader) :
    Nat → List Char → Except Stop (Table × List Char)
  | 0, cs => .error (.malformed .noName cs)
  | n + 1, cs => do
    let (name, rest) ← readName d cs
    let (v, rest) ← inner rest
    match skipGap rest with
    | '\x7d' :: rest => return ([(name.toValue, v)], rest)
    | ',' :: rest =>
      let (members, rest) ← readMembers d inner n (skipGap rest)
      return ((name.toValue, v) :: members, rest)
    | rest => throw (.malformed .noComma rest)

/-- An object whose opening brace has been read. -/
def readObject (d : Dialect) (inner : ValueReader) (cs : List Char) :
    Except Stop (Table × List Char) :=
  match skipGap cs with
  | '\x7d' :: rest => .ok ([], rest)
  | rest => do
    let (members, rest) ← readMembers d inner (rest.length + 1) rest
    return (Table.ofPairs members, rest)

/-- A value, given how to read the values inside it, if any deeper ones may be there. -/
def readValueWith (d : Dialect) (inner? : Option ValueReader) : ValueReader := fun cs =>
  match cs with
  | '"' :: rest => do
    let (t, rest) ← readText d cs rest
    return (t.toValue, rest)
  | '[' :: rest =>
    match inner? with
    | none => .error (.tooDeep .array)
    | some inner => do
      let (items, rest) ← readArray inner rest
      return (.list items, rest)
  | '\x7b' :: rest =>
    match inner? with
    | none => .error (.tooDeep .object)
    | some inner => do
      let (entries, rest) ← readObject d inner rest
      return (.table entries, rest)
  | _ => readWord cs

/-- A value with at most `depth` arrays and objects around any part of it. -/
def readValue (d : Dialect) : (depth : Nat) → ValueReader
  | 0 => readValueWith d none
  | depth + 1 => readValueWith d (some (readValue d depth))

/-- A whole document: one value with gaps around it, and nothing before or after. -/
def readDocument (d : Dialect) (cs : List Char) : Except Stop Value :=
  if cs.head? = some (Char.ofNat 0xFEFF) then .error (.malformed .byteOrderMark cs)
  else do
    let (v, rest) ← readValue d d.maxDepth (skipGap cs)
    match skipGap rest with
    | [] => return v
    | rest => throw (.malformed .extraData rest)

/-- A fault with its place in the whole text. -/
def Stop.fault (whole : List Char) : Stop → Fault
  | .malformed what rest => .malformed what (.after (whole.take (whole.length - rest.length)))
  | .tooDeep nest => .tooDeep nest
  | .tooManyDigits count => .tooManyDigits count

/-- The decisions for wire lines, schemas and overrides. -/
def Dialect.wire : Dialect := ⟨1000, true⟩

/-- The decisions for an answer that is checked against a record model. -/
def Dialect.answer : Dialect := ⟨200, false⟩

/-- The value that a text holds. -/
def read (d : Dialect) (s : String) : Except Fault Value :=
  (readDocument d s.toList).mapError (·.fault s.toList)

end AgentClient.Json
