import AgentClient.Failure.ClientError

/-!
# Conversation/Input — what a turn is given to do

An input is a text, or a list of texts and images in any order. The texts are put together with a
blank line between neighbours; the images keep their order. Any other entry is refused and named.
How deep a value may be nested to be named depends on the calls that stand below when a turn is
started, so the depth is an argument of `normalizeAt`; `normalize` has all of `Value.displayDepth`.
-/

namespace AgentClient

/-- An entry of an input. -/
inductive InputEntry where
  | text (text : String)
  | image (path : Value)
  /-- A value that is no entry. -/
  | other (v : Value)
  deriving DecidableEq

/-- What a turn is given to do. -/
inductive Input where
  | text (text : String)
  | entries (items : List InputEntry)
  deriving DecidableEq

namespace Input

/-- The fault of a value that is no entry. It names the value, which has to be shown for that. -/
def entryFault (depth : Nat) (v : Value) : Fault :=
  match v.displayObstacle? depth with
  | none => .badEntry v.display
  | some .overlong => .overlongInt
  | some .nesting => .tooDeepToShow

/-- The texts and the images of a list of entries, each in their order. -/
def collect (depth : Nat) : List InputEntry → Except Failure (List String × List Value)
  | [] => .ok ([], [])
  | .text s :: rest => do
    let (texts, images) ← collect depth rest
    return (s :: texts, images)
  | .image path :: rest => do
    let (texts, images) ← collect depth rest
    return (texts, path :: images)
  | .other v :: _ => .error (.fault (entryFault depth v))

/-- The prompt and the images of an input, where values may be shown that are nested this deep. -/
def normalizeAt (depth : Nat) : Input → Except Failure (String × List Value)
  | .text s => .ok (s, [])
  | .entries items => do
    let (texts, images) ← collect depth items
    return (Text.join "\n\n" texts, images)

/-- The failure of a value that is no entry. -/
def badEntry (v : Value) : Failure :=
  .fault (entryFault Value.displayDepth v)

/-- **The prompt and the images of an input.** -/
def normalize (input : Input) : Except Failure (String × List Value) :=
  input.normalizeAt Value.displayDepth

end Input

end AgentClient
