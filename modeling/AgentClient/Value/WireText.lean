import AgentClient.Text.Quoted
import AgentClient.Text.Surrogate

/-!
# Value/WireText — texts that may be no strings of characters

A document may escape half of a surrogate pair alone. A text with such a half is no string of
characters, but it can be compared, shown and written again all the same, so its code points are
kept. All texts without one are strings. -/

namespace AgentClient

/-- A text that has come over the wire. -/
inductive WireText where
  /-- A string of characters. -/
  | plain (s : String)
  /-- Code points, of which at least one is half of a surrogate pair. -/
  | broken (points : List Nat)
  deriving DecidableEq, Repr, Inhabited

namespace WireText

/-- The text of some code points. -/
def ofPoints (points : List Nat) : WireText :=
  match points.mapM Text.charOf? with
  | some cs => .plain (String.ofList cs)
  | none => .broken points

/-- The code points of a text. -/
def points : WireText → List Nat
  | .plain s => s.toList.map Char.toNat
  | .broken points => points

/-- The nearest string: a half alone is replaced. -/
def toString : WireText → String
  | .plain s => s
  | .broken points =>
    String.ofList (points.map fun n => (Text.charOf? n).getD Text.replacement)

/-- One code point on a stream that writes half of a surrogate pair as its escape. -/
def escapedPoint (n : Nat) : List Char :=
  match Text.charOf? n with
  | some c => [c]
  | none => '\\' :: 'u' :: Text.hexDigits 4 n

/-- The text as the error stream and the log have it: a half alone stands as its escape. -/
def escaped : WireText → String
  | .plain s => s
  | .broken points => String.ofList (points.flatMap escapedPoint)

/-- How one code point stands between quotation marks. -/
def quotedPoint (mark : Char) (n : Nat) : List Char :=
  match Text.charOf? n with
  | some c => Text.quotedChar mark c
  | none => '\\' :: 'u' :: Text.hexDigits 4 n

/-- A text between quotation marks, character by character. -/
def quotedChars : WireText → List Char
  | .plain s => Text.quotedChars s.toList
  | .broken points =>
    let mark := Text.quotationMark (points.filterMap Text.charOf?)
    mark :: points.flatMap (quotedPoint mark) ++ [mark]

/-- A text between quotation marks. -/
def quoted (t : WireText) : String :=
  String.ofList t.quotedChars

/-- The texts of the single code points. -/
def singles (t : WireText) : List WireText :=
  t.points.map fun n => ofPoints [n]

/-- The code points of characters make the string of these characters. -/
theorem ofPoints_toNat (cs : List Char) :
    ofPoints (cs.map Char.toNat) = .plain (String.ofList cs) := by
  have : (cs.map Char.toNat).mapM Text.charOf? = some cs := by
    induction cs with
    | nil => rfl
    | cons c cs ih => simp [Text.charOf?_toNat, ih]
  simp [ofPoints, this]

end WireText

end AgentClient
