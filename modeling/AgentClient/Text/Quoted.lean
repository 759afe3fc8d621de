import AgentClient.Text.Hex
import AgentClient.Text.Printable

/-!
# Text/Quoted — text in quotation marks, for messages

A message shows a foreign text in quotation marks, on one line and in printable characters: the
backslash and the mark itself are escaped, and so is everything that is not printable.
-/

namespace AgentClient.Text

/-- The mark around a text: the single one, unless the text holds it and not the double one. -/
def quotationMark (cs : List Char) : Char :=
  if cs.contains '\'' && !cs.contains '"' then '"' else '\''

/-- How one character stands between marks. An escape has the shortest of three widths that holds
the code point. -/
def quotedChar (mark c : Char) : List Char :=
  if c = mark || c = '\\' then ['\\', c]
  else if c = '\t' then ['\\', 't']
  else if c = '\n' then ['\\', 'n']
  else if c = '\r' then ['\\', 'r']
  else if isPrintable c then [c]
  else if c.toNat < 0x100 then '\\' :: 'x' :: hexDigits 2 c.toNat
  else if c.toNat < 0x10000 then '\\' :: 'u' :: hexDigits 4 c.toNat
  else '\\' :: 'U' :: hexDigits 8 c.toNat

/-- A text between quotation marks, character by character. -/
def quotedChars (cs : List Char) : List Char :=
  let mark := quotationMark cs
  mark :: cs.flatMap (quotedChar mark) ++ [mark]

/-- A text between quotation marks. -/
def quoted (s : String) : String :=
  String.ofList (quotedChars s.toList)

end AgentClient.Text
