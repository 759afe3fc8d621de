import AgentClient.Failure.Fault

/-!
# Child/Script — what a child process does

A script is everything that a child does to its parent: whether it comes up, what becomes of the
prompt, what it writes and when it falls silent, and how it exits.
-/

namespace AgentClient

/-- What becomes of the prompt. -/
inductive PromptFate where
  /-- The child takes it. -/
  | taken
  /-- The child has gone before it could be written. -/
  | broken
  /-- The pipe is closed. -/
  | closed
  /-- The child never takes it. -/
  | ignored
  deriving DecidableEq, Repr

/-- A portion of the output. -/
inductive Chunk where
  | bytes (bytes : List UInt8)
  /-- Nothing comes any more, and the output does not end. -/
  | silence
  deriving DecidableEq, Repr

/-- What a child process does. -/
structure Script where
  /-- The refusal of the operating system to start it. -/
  refusal : Option SystemError := none
  /-- Whether there are pipes to it. -/
  hasPipes : Bool := true
  prompt : PromptFate := .taken
  output : List Chunk := []
  /-- All that it writes to its error stream. -/
  errors : List UInt8 := []
  /-- Whether it exits once its output has ended. -/
  exits : Bool := true
  /-- The code that it exits with. -/
  code : Int := 0
  deriving DecidableEq, Inhabited

/-- A script and those after it; behind the last one every child does nothing and exits with zero.
-/
def takeScript : List Script → Script × List Script
  | [] => ({}, [])
  | s :: rest => (s, rest)

end AgentClient
