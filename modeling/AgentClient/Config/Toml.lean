import AgentClient.Failure.ClientError
import AgentClient.Json.Writer

/-!
# Config/Toml — values written as TOML

An override carries its value as a TOML literal. Texts keep their characters and have the escapes
that JSON and TOML share; the delete character, which JSON leaves alone, is escaped too. Numbers
have to be finite and null has no form, so not every value can be written; the error names the
place.

Two things are left out. TOML has no form for half of a surrogate pair; it is replaced by U+FFFD
here, where a writer may as well leave it in its text, and a process cannot be started with that
text at all. And a writer that calls itself for the members of a list gives up on lists nested as
deep as its calls may stand on one another, some five hundred deep; this one writes them however
deep they are. -/

namespace AgentClient.Config

open Number

/-- The characters of a text that stand for themselves: all but controls and delete. -/
def isTomlPlain (c : Char) : Bool :=
  0x20 ≤ c.toNat && c.toNat ≠ 0x7F

/-- A text between its marks. -/
def tomlText (s : String) : String :=
  String.ofList (Json.textChars isTomlPlain s.toList)

/-- The characters of a key that needs no marks. -/
def isBareChar (c : Char) : Bool :=
  ('A' ≤ c && c ≤ 'Z') || ('a' ≤ c && c ≤ 'z') || ('0' ≤ c && c ≤ '9') || c = '_' || c = '-'

/-- A text without the line feed that it may end with. -/
def dropFinalNewline (cs : List Char) : List Char :=
  if cs.getLast? = some '\n' then cs.dropLast else cs

/-- Whether a key is written without marks: it is made of bare characters, and one line feed may
follow them. -/
def isBareKey (cs : List Char) : Bool :=
  let body := dropFinalNewline cs
  !body.isEmpty && body.all isBareChar

/-- A key inside a table. -/
def tomlKey (name : String) : String :=
  if isBareKey name.toList then name else tomlText name

/-- The name that a key is, if it is a text and not empty. -/
def keyName? : Value → Option String
  | .str name => if name = "" then none else some name
  | .broken points => some (WireText.broken points).toString
  | _ => none

/-- The name that a key has to be. -/
def keyName (key : Value) : Except Failure String :=
  match keyName? key with
  | some name => .ok name
  | none => .error (.client (.config .badKey))

/-- The path of a member of a sequence. -/
def itemPath (path : String) (index : Nat) : String :=
  path ++ "[" ++ toString index ++ "]"

/-- The path of an entry of a table. -/
def entryPath (path name : String) : String :=
  path ++ "." ++ name

mutual

/-- A value at a path. -/
def toml (path : String) : Value → Except Failure String
  | .str s => .ok (tomlText s)
  | .broken points => .ok (tomlText (WireText.broken points).toString)
  | .bool true => .ok "true"
  | .bool false => .ok "false"
  | .int n => if isOverlong n then .error (.fault .overlongInt) else .ok (intText n)
  | .float x =>
    if x.isFinite then .ok x.shortText else .error (.client (.config (.notFinite path)))
  | .list items => do return "[" ++ Text.join ", " (← tomlItems path 0 items) ++ "]"
  | .tuple items => do return "[" ++ Text.join ", " (← tomlItems path 0 items) ++ "]"
  | .table entries => do return "\x7b" ++ Text.join ", " (← tomlEntries path entries) ++ "\x7d"
  | .null => .error (.client (.config (.nullValue path)))
  | v => .error (.client (.config (.unsupported path v.typeName)))

/-- The members of a sequence from an index on. -/
def tomlItems (path : String) (index : Nat) : List Value → Except Failure (List String)
  | [] => .ok []
  | v :: vs => do
    let text ← toml (itemPath path index) v
    let texts ← tomlItems path (index + 1) vs
    return text :: texts

/-- The entries of a table, each key before its value. -/
def tomlEntries (path : String) : List (Value × Value) → Except Failure (List String)
  | [] => .ok []
  | (key, v) :: rest => do
    let name ← keyName key
    let text ← toml (entryPath path name) v
    let texts ← tomlEntries path rest
    return (tomlKey name ++ " = " ++ text) :: texts

end

end AgentClient.Config
