import AgentClient.Child.Script
import AgentClient.Text.Blank
import AgentClient.Text.Pieces
import AgentClient.Text.Utf8

/-!
# Child/Framing — the lines of an output that comes in portions

Portions may end anywhere, inside a line or inside a character. What has not ended with a line feed
waits for the next portion; what is left at the end of the output is the last line. Blank lines are
dropped.
-/

namespace AgentClient

/-- What is held back between two portions: the character begun and the line begun. -/
structure Framing where
  character : Text.Utf8.Progress := .idle
  line : List Char := []
  deriving DecidableEq

namespace Framing

/-- The pieces of a text between line feeds, the first one continuing the line begun before it. -/
def pieces (begun text : List Char) : List (List Char) :=
  match Text.splitAt '\n' text with
  | [] => [begun]
  | piece :: rest => (begun ++ piece) :: rest

/-- A line begun, which no line feed has ended, is continued as if it had come with the text. -/
theorem pieces_eq_splitAt {begun : List Char} (text : List Char) (h : '\n' ∉ begun) :
    pieces begun text = Text.splitAt '\n' (begun ++ text) := by
  induction begun with
  | nil =>
    cases hs : Text.splitAt '\n' text with
    | nil => exact absurd hs (Text.splitAt_ne_nil _ _)
    | cons => simp [pieces, hs]
  | cons c begun ih =>
    rw [List.mem_cons, not_or] at h
    rw [List.cons_append, Text.splitAt, if_neg (Ne.symm h.1), ← ih h.2]
    cases hs : Text.splitAt '\n' text <;> simp [pieces, hs]

/-- The lines that are not blank. -/
def carrying (lines : List (List Char)) : List String :=
  (lines.filter fun l => !Text.isBlankText l).map String.ofList

/-- Take one portion: the lines that it completes, and what is held back — the last piece. -/
def feed (f : Framing) (bytes : List UInt8) : List String × Framing :=
  let (character, text) := Text.Utf8.feed f.character bytes
  let pieces := pieces f.line text
  (carrying pieces.dropLast, ⟨character, pieces.getLastD []⟩)

/-- The last line, which no line feed ends. -/
def finish (f : Framing) : List String :=
  carrying [f.line ++ Text.Utf8.finish f.character]

/-- The lines of an output, and whether it ended rather than fell silent. -/
def lines (f : Framing) : List Chunk → List String × Bool
  | [] => (f.finish, true)
  | .silence :: _ => ([], false)
  | .bytes bytes :: rest =>
    let (now, f) := f.feed bytes
    let (later, ended) := f.lines rest
    (now ++ later, ended)

end Framing

end AgentClient
