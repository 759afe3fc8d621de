import AgentClient.Number.Layout
import AgentClient.Text.Hex
import AgentClient.Text.Pieces
import AgentClient.Value.Basic

/-!
# Json/Writer — writing JSON documents

A document is written on one line or with two blanks of indentation for every level. Its texts are
ASCII. Tuples are written as arrays. Keys that are numbers, truth values or null are written as the
texts they have as values; other keys, and values that JSON has no form for, are refused. A document
may be nested as deep as one likes: what limits the depth of events and results is that they are
copied before they are written (`CommandLine/Run`), and a schema is written however deep it is. -/

namespace AgentClient.Json

open Number

/-- Why a value has no JSON document. -/
inductive WriteFault where
  /-- A key of this type. -/
  | badKey (typeName : String)
  /-- A value of this type. -/
  | badValue (typeName : String)
  /-- A whole number of too many digits. -/
  | tooManyDigits
  deriving DecidableEq, Repr

/-! ## Texts -/

/-- The letter of a short escape. -/
def shortEscapeLetter? (c : Char) : Option Char :=
  if c = '"' || c = '\\' then some c
  else if c = '\n' then some 'n'
  else if c = '\r' then some 'r'
  else if c = '\t' then some 't'
  else if c = '\x0C' then some 'f'
  else if c = '\x08' then some 'b'
  else none

/-- The escape of a code unit. -/
def unitEscape (u : Nat) : List Char :=
  '\\' :: 'u' :: Text.hexDigits 4 u

/-- The escape of a character: one code unit, or a surrogate pair. -/
def codeEscape (c : Char) : List Char :=
  if c.toNat < 0x10000 then unitEscape c.toNat
  else
    let n := c.toNat - 0x10000
    unitEscape (0xD800 + n / 0x400) ++ unitEscape (0xDC00 + n % 0x400)

/-- A character inside a text, where `plain` says which characters may stand for themselves. -/
def textChar (plain : Char → Bool) (c : Char) : List Char :=
  match shortEscapeLetter? c with
  | some letter => ['\\', letter]
  | none => if plain c then [c] else codeEscape c

/-- A text between its marks. -/
def textChars (plain : Char → Bool) (cs : List Char) : List Char :=
  '"' :: cs.flatMap (textChar plain) ++ ['"']

/-- The characters of a text of ASCII: from the space to the tilde. -/
def isAsciiPlain (c : Char) : Bool :=
  0x20 ≤ c.toNat && c.toNat ≤ 0x7E

/-- A code point inside a text of ASCII. -/
def asciiPoint (n : Nat) : List Char :=
  match Text.charOf? n with
  | some c => textChar isAsciiPlain c
  | none => unitEscape n

/-- A text in ASCII. -/
def asciiText : WireText → String
  | .plain s => String.ofList (textChars isAsciiPlain s.toList)
  | .broken points => String.ofList ('"' :: points.flatMap asciiPoint ++ ['"'])

/-! ## Documents -/

/-- How the parts of a document are set apart. -/
inductive Spacing where
  /-- All on one line. -/
  | oneLine
  /-- Every part on its own line, behind this many blanks for each level. -/
  | indented (width : Nat)
  deriving DecidableEq, Repr

namespace Spacing

/-- What stands before the first part and, at one level less, behind the last one. -/
def edge (s : Spacing) (level : Nat) : String :=
  match s with
  | .oneLine => ""
  | .indented width => "\n" ++ String.ofList (List.replicate (width * level) ' ')

/-- What stands between two parts. -/
def between (s : Spacing) (level : Nat) : String :=
  match s with
  | .oneLine => ", "
  | .indented _ => "," ++ s.edge level

/-- Some parts between brackets. No parts leave nothing between them. -/
def enclose (s : Spacing) (level : Nat) (left right : String) (parts : List String) : String :=
  if parts.isEmpty then left ++ right
  else
    left ++ s.edge (level + 1) ++ Text.join (s.between (level + 1)) parts ++ s.edge level ++ right

end Spacing

/-- A floating-point number. -/
def floatText : Binary64 → String
  | .nan => "NaN"
  | .infinite false => "Infinity"
  | .infinite true => "-Infinity"
  | x => x.shortText

/-- A whole number. -/
def intDocument (n : Int) : Except WriteFault String :=
  if isOverlong n then .error .tooManyDigits else .ok (intText n)

/-- The text of a key. -/
def keyText : Value → Except WriteFault WireText
  | .str s => .ok (.plain s)
  | .broken points => .ok (.broken points)
  | .null => .ok (.plain "null")
  | .bool true => .ok (.plain "true")
  | .bool false => .ok (.plain "false")
  | .int n => (intDocument n).map .plain
  | .float x => .ok (.plain (floatText x))
  | v => .error (.badKey v.typeName)

mutual

/-- A value at a level of a document. -/
def writeAt (s : Spacing) (level : Nat) : Value → Except WriteFault String
  | .null => .ok "null"
  | .bool true => .ok "true"
  | .bool false => .ok "false"
  | .int n => intDocument n
  | .float x => .ok (floatText x)
  | .str t => .ok (asciiText (.plain t))
  | .broken points => .ok (asciiText (.broken points))
  | .list items => do
    return s.enclose level "[" "]" (← writeItems s (level + 1) items)
  | .tuple items => do
    return s.enclose level "[" "]" (← writeItems s (level + 1) items)
  | .table entries => do
    return s.enclose level "\x7b" "\x7d" (← writeEntries s (level + 1) entries)
  | v => .error (.badValue v.typeName)

/-- The members of a sequence. -/
def writeItems (s : Spacing) (level : Nat) : List Value → Except WriteFault (List String)
  | [] => .ok []
  | v :: vs => do
    let text ← writeAt s level v
    let texts ← writeItems s level vs
    return text :: texts

/-- The entries of a table, each key before its value. -/
def writeEntries (s : Spacing) (level : Nat) :
    List (Value × Value) → Except WriteFault (List String)
  | [] => .ok []
  | (k, v) :: rest => do
    let key ← keyText k
    let text ← writeAt s level v
    let texts ← writeEntries s level rest
    return (asciiText key ++ ": " ++ text) :: texts

end

/-- The document of a value. -/
def write (s : Spacing) (v : Value) : Except WriteFault String :=
  writeAt s 0 v

end AgentClient.Json
