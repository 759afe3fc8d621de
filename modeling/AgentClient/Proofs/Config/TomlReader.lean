import AgentClient.Number.Reading
import AgentClient.Text.Hex
import AgentClient.Text.Surrogate
import AgentClient.Value.Basic

/-!
# Proofs/Config/TomlReader — reading a TOML value

What a written value is measured by: a reader of the values of TOML 1.0, from the grammar and not
from the writer.  It takes basic strings, truth values, decimal integers, floating-point numbers,
arrays and inline tables with bare or quoted keys.  Arrays may go over several lines and end in a
comma; inline tables may do neither, and name no key twice.

Every function takes the text that is left and returns what it read with the text then left.
-/

namespace AgentClient.Toml

open Number

/-! ## Strings

Basic strings on one line. The other three kinds of strings are never written. -/

/-- The characters that stand for themselves in a string: the tab, and all that are neither controls
of ASCII nor delete. -/
def isRaw (c : Char) : Bool :=
  c = '\t' || (0x20 ≤ c.toNat && c.toNat ≠ 0x7F)

/-- The character that a one-letter escape stands for. -/
def shortEscape? (c : Char) : Option Char :=
  if c = '"' || c = '\\' then some c
  else if c = 'b' then some '\x08'
  else if c = 't' then some '\t'
  else if c = 'n' then some '\n'
  else if c = 'f' then some '\x0C'
  else if c = 'r' then some '\r'
  else none

/-- The character with a code point; halves of surrogate pairs have none. -/
def scalar? (n : Nat) : Option Char :=
  if n < 0x110000 then Text.charOf? n else none

/-- A string whose opening mark has been read. -/
def readText : List Char → Option (List Char × List Char)
  | [] => none
  | c :: cs =>
    if c = '"' then some ([], cs)
    else if c = '\\' then
      match cs with
      | [] => none
      | e :: cs =>
        if e = 'u' then
          match cs with
          | h :: i :: j :: k :: cs => do
            let c ← scalar? (← Text.hexValue4? h i j k)
            (readText cs).map fun (text, rest) => (c :: text, rest)
          | _ => none
        else if e = 'U' then
          match cs with
          | h :: i :: j :: k :: l :: m :: n :: o :: cs => do
            let c ← scalar? ((← Text.hexValue4? h i j k) * 0x10000 + (← Text.hexValue4? l m n o))
            (readText cs).map fun (text, rest) => (c :: text, rest)
          | _ => none
        else do
          let c ← shortEscape? e
          (readText cs).map fun (text, rest) => (c :: text, rest)
    else if isRaw c then (readText cs).map fun (text, rest) => (c :: text, rest)
    else none

/-! ## Numbers

A number is taken as far as its characters go and is only then looked at as a whole. So it must end
before a character that no number has. -/

/-- Whether a character may stand in a number. -/
def isNumberChar (c : Char) : Bool :=
  c.isDigit || c = '+' || c = '-' || c = '.' || c = 'e' || c = 'E' || c = '_'

/-- The digits of a whole part, which has no zero in front, and what follows them. -/
def wholePart? (cs : List Char) : Option (List Nat × List Char) := do
  let (ds, rest) ← takeDigits cs
  if ds = [] || (ds.head? = some 0 && 1 < ds.length) then none else some (ds, rest)

/-- Whether a text is an exponent. -/
def isExponent : List Char → Bool
  | [] => false
  | c :: cs =>
    (c = 'e' || c = 'E') &&
      match takeDigits (takeSign cs).2 with
      | some (_ :: _, []) => true
      | _ => false

/-- Whether a text is what makes a number a floating-point one: a fraction, an exponent or both. -/
def isPoint : List Char → Bool
  | '.' :: cs =>
    match takeDigits cs with
    | some (_ :: _, rest) => rest.isEmpty || isExponent rest
    | _ => false
  | cs => isExponent cs

/-- The number that a text is. -/
def number? (token : List Char) : Option Value :=
  let (negative, cs) := takeSign token
  match wholePart? cs with
  | some (ds, []) => some (.int (if negative then -(ofDigits ds : Int) else ofDigits ds))
  | some (_, rest) =>
    if isPoint rest then (readFloat? (String.ofList token)).map .float else none
  | none => none

/-- A number: as far as there are characters of one. -/
def readNumber (cs : List Char) : Option (Value × List Char) :=
  (number? (cs.takeWhile isNumberChar)).map fun v => (v, cs.dropWhile isNumberChar)

/-! ## Values

The reader needs fuel since a member may be read after any amount of blank space. Everything that
takes fuel also takes a character, so the length of the text is always enough. -/

/-- The text without the blanks at its front. -/
def skipBlanks (cs : List Char) : List Char :=
  cs.dropWhile fun c => c = ' ' || c = '\t'

/-- The text without the blanks and ends of lines at its front; a carriage return belongs to the
line feed behind it. -/
def skipLines : List Char → List Char
  | [] => []
  | c :: cs =>
    if c = ' ' || c = '\t' || c = '\n' || (c = '\r' && cs.head? = some '\n') then skipLines cs
    else c :: cs

/-- The text behind a word at its front. -/
def afterWord? (word cs : List Char) : Option (List Char) :=
  if word.isPrefixOf cs then some (cs.drop word.length) else none

/-- The characters of a key that has no marks. -/
def isKeyChar (c : Char) : Bool :=
  c.isAlphanum || c = '_' || c = '-'

/-- A key, bare or quoted. -/
def readKey : List Char → Option (String × List Char)
  | [] => none
  | c :: cs =>
    if c = '"' then (readText cs).map fun (text, rest) => (String.ofList text, rest)
    else if isKeyChar c then
      some (String.ofList ((c :: cs).takeWhile isKeyChar), (c :: cs).dropWhile isKeyChar)
    else none

mutual

/-- A value.  Every value, member and entry costs one unit of the fuel; a text has not more of them
than characters. -/
def readValue : Nat → List Char → Option (Value × List Char)
  | 0, _ | _, [] => none
  | fuel + 1, c :: cs =>
    if c = '"' then (readText cs).map fun (text, rest) => (.str (String.ofList text), rest)
    else if c = '[' then (readItems fuel cs).map fun (items, rest) => (.list items, rest)
    else if c = '\x7b' then
      match skipBlanks cs with
      | '\x7d' :: rest => some (.table [], rest)
      | cs => (readEntries fuel cs).map fun (entries, rest) => (.table entries, rest)
    else if c = 't' then (afterWord? ['r', 'u', 'e'] cs).map fun rest => (.bool true, rest)
    else if c = 'f' then (afterWord? ['a', 'l', 's', 'e'] cs).map fun rest => (.bool false, rest)
    else readNumber (c :: cs)

/-- The members of an array up to its closing bracket. -/
def readItems : Nat → List Char → Option (List Value × List Char)
  | 0, _ => none
  | fuel + 1, cs =>
    match skipLines cs with
    | ']' :: rest => some ([], rest)
    | cs => do
      let (v, rest) ← readValue fuel cs
      match skipLines rest with
      | ']' :: rest => some ([v], rest)
      | ',' :: rest => (readItems fuel rest).map fun (vs, rest) => (v :: vs, rest)
      | _ => none

/-- The entries of an inline table, of which there is at least one, up to its closing brace. -/
def readEntries : Nat → List Char → Option (List (Value × Value) × List Char)
  | 0, _ => none
  | fuel + 1, cs => do
    let (key, rest) ← readKey cs
    match skipBlanks rest with
    | '=' :: rest =>
      let (v, rest) ← readValue fuel (skipBlanks rest)
      match skipBlanks rest with
      | '\x7d' :: rest => some ([(.str key, v)], rest)
      | ',' :: rest =>
        let (entries, rest) ← readEntries fuel (skipBlanks rest)
        if entries.any fun e => e.1 = .str key then none
        else some ((.str key, v) :: entries, rest)
      | _ => none
    | _ => none

end

/-- **The value that a text is**, nothing left over. -/
def read (text : String) : Option Value :=
  match readValue text.length text.toList with
  | some (v, []) => some v
  | _ => none

end AgentClient.Toml
