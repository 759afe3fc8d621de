import AgentClient.Failure.ClientError
import AgentClient.Json.Writer
import AgentClient.Value.Table

/-!
# Schema/Output — the schema of the final answer

An output schema is a table, which is handed on as it is, or a record model, whose schema is written
out. The agent reads it from a file that is made for the turn.
-/

namespace AgentClient

namespace Field

/-- The schema of a field. -/
def schema (f : Field) : Value :=
  match f.shape with
  | .text => .named [("title", .str f.title), ("type", .str "string")]
  | .oneOf choices =>
    .named [("enum", .list (choices.map .str)), ("title", .str f.title), ("type", .str "string")]

end Field

namespace RecordModel

/-- The schema of a record model. -/
def schema (m : RecordModel) : Table :=
  (if m.forbidsOthers then Table.named [("additionalProperties", .bool false)] else [])
    ++ Table.named
      [("properties", .named (m.fields.map fun f => (f.name, f.schema))),
       ("required", .list (m.fields.map fun f => .str f.name)),
       ("title", .str m.name),
       ("type", .str "object")]

end RecordModel

/-- What an output schema asks for: the schema to hand on, and the model to check the answer by. -/
structure OutputSchema where
  schema : Option Table
  model : Option RecordModel
  deriving DecidableEq

namespace OutputSchema

/-- **The output schema that options give.** -/
def resolve : Value → Except Failure OutputSchema
  | .null => .ok ⟨none, none⟩
  | .model m => .ok ⟨some m.schema, some m⟩
  | .table t => .ok ⟨some t, none⟩
  | v => .error (.client (.config (.badSchema v.typeName)))

end OutputSchema

/-- A file with a schema. -/
structure SchemaFile where
  path : String
  text : String
  deriving DecidableEq, Repr

namespace SchemaFile

/-- The file of a schema in a directory of its own. -/
def ofSchema (directory : String) (schema : Value) : Except Failure SchemaFile :=
  match Json.write .oneLine schema with
  | .ok text => .ok ⟨directory ++ "/schema.json", text⟩
  | .error f => .error (.fault (.unwritable f))

/-- The file of a schema, if there is one. -/
def ofSchema? (directory : String) : Option Table → Except Failure (Option SchemaFile)
  | none => .ok none
  | some t => (ofSchema directory (.table t)).map some

end SchemaFile

end AgentClient
