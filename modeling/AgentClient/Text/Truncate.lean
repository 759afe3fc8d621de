/-!
# Text/Truncate — long texts cut for messages
-/

namespace AgentClient.Text

/-- The first `n` characters of a text, or all but its last `-n` ones if `n` is negative. -/
def front (n : Int) (cs : List Char) : List Char :=
  if 0 ≤ n then cs.take n.toNat else cs.take (cs.length - n.natAbs)

/-- A text of more than `limit` characters is cut there, and three points show it. -/
def truncate (limit : Int) (s : String) : String :=
  let cs := s.toList
  if limit < cs.length then String.ofList (front limit cs ++ ['.', '.', '.']) else s

/-- How much of a foreign text a message shows. -/
def messageLimit : Int := 200

end AgentClient.Text
