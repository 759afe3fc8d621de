import AgentClient.Json.Reader
import AgentClient.Schema.Output

/-!
# Schema/Answer — checking the final answer against a record model

The answer has to be a document with an object that holds every field in its shape. Nothing is
converted. All mismatches are found, those of the fields in the order of the fields and then those
of the other members in the order of the document. -/

namespace AgentClient

/-- An answer that is what its model declares: the fields with their values. -/
structure Record where
  model : RecordModel
  fields : List (String × Value)
  deriving DecidableEq

/-- A record as a value. -/
def Record.toValue (r : Record) : Value :=
  .named r.fields

namespace FieldShape

/-- What is wrong with a value of a field. -/
def mismatch? : FieldShape → Value → Option MismatchKind
  | .text, .str _ => none
  | .text, _ => some .fieldNotText
  | .oneOf choices, .str s => if choices.contains s then none else some .fieldNotChoice
  | .oneOf _, _ => some .fieldNotChoice

end FieldShape

namespace Field

/-- What is wrong with a field of an object. -/
def mismatch? (t : Table) (f : Field) : Option Mismatch :=
  match t.get? f.name with
  | none => some ⟨.missingField, some f.name⟩
  | some v => (f.shape.mismatch? v).map fun kind => ⟨kind, some f.name⟩

end Field

namespace RecordModel

/-- The names of the members of an object that are no fields. -/
def others (m : RecordModel) (t : Table) : List String :=
  t.filterMap fun
    | (.str name, _) => if m.fields.any (·.name = name) then none else some name
    | _ => none

/-- What is wrong with an object. -/
def mismatches (m : RecordModel) (t : Table) : List Mismatch :=
  m.fields.filterMap (Field.mismatch? t)
    ++ (if m.forbidsOthers then (m.others t).map fun name => ⟨.forbiddenField, some name⟩ else [])

/-- The record that an answer is, or what is wrong with it. -/
def check (m : RecordModel) : Value → Except (List Mismatch) Record
  | .str s =>
    match Json.read .answer s with
    | .error _ => .error [⟨.unreadable, none⟩]
    | .ok (.table t) =>
      match m.mismatches t with
      | [] => .ok ⟨m, m.fields.map fun f => (f.name, Table.getD t f.name .null)⟩
      | found => .error found
    | .ok _ => .error [⟨.notTable, none⟩]
  | _ => .error [⟨.notText, none⟩]

/-- **The record that an answer is**, or the error of an answer that is none. -/
def validate (m : RecordModel) (response : Value) : Except Failure Record :=
  (m.check response).mapError fun found =>
    .client (.mismatch ("Final response does not match " ++ m.name) response (some (.found found)))

end RecordModel

end AgentClient
