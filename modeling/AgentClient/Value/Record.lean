/-!
# Value/Record — declared shapes of a final answer

A record model declares the fields that an answer has to have. It is data: what it asks for can be
written as a schema for the agent and checked on the answer that comes back.
-/

namespace AgentClient

/-- What the value of a field has to be. -/
inductive FieldShape where
  /-- Any text. -/
  | text
  /-- One of some texts. -/
  | oneOf (choices : List String)
  deriving DecidableEq, Repr

/-- A field of a record: its name, its title for people and its shape. -/
structure Field where
  name : String
  title : String
  shape : FieldShape
  deriving DecidableEq, Repr

/-- A record model: its fields are all required, and others are forbidden or ignored. -/
structure RecordModel where
  name : String
  fields : List Field
  forbidsOthers : Bool
  deriving DecidableEq, Repr

namespace RecordModel

/-- The fields of a report on the state of a repository. -/
def statusFields : List Field :=
  [⟨"summary", "Summary", .text⟩, ⟨"status", "Status", .oneOf ["ok", "action_required"]⟩]

/-- A report on the state of a repository. -/
def repositoryStatus : RecordModel := ⟨"RepositoryStatus", statusFields, false⟩

/-- The same report, with nothing besides its fields. -/
def strictStatus : RecordModel := ⟨"StrictStatus", statusFields, true⟩

end RecordModel

end AgentClient
