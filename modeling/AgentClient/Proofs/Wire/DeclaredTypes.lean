import AgentClient.Proofs.Conversation.Insertion
import AgentClient.Proofs.Wire.WrongPayloads

/-!
# Proofs/Wire/DeclaredTypes — which fields have the types that they are declared to have

Events and items declare a type for each of their fields.  A field that is brought to its type has
it in every event (`Item.admits_coerced`, `Event.admits_coerced`).  A field that is copied from the
wire is not looked at: it has its type if and only if the wire member has, where there is one
(`Item.admits_copied_iff`).  So **a text may be a number**, and with it the final response of a turn
(`Scene.exists_addAll_of_run`). -/

namespace AgentClient

open Wire

/-! ## Declared types

The types are those that the records of the library declare, with what a list or a table holds left
open where the declaration leaves it open. Whether a value is of one is decided by evaluation. -/

/-- What a field is declared to be. -/
inductive FieldType where
  /-- Any text. -/
  | text
  /-- A whole number; a truth value counts as one. -/
  | whole
  /-- A whole number or nothing. -/
  | wholeOrNone
  | truth
  /-- One of some texts. -/
  | oneOf (choices : List String)
  /-- A list, whatever its members are. -/
  | list
  /-- A table, whatever its entries are. -/
  | table
  /-- A record of some fields, whatever else it has. -/
  | record (fields : List (String × FieldType))
  /-- What has members, if any, of one type only. -/
  | each (type : FieldType)

namespace FieldType

mutual

/-- Whether a value is of a type. -/
def admits : FieldType → Value → Bool
  | .text, v => v.text?.isSome
  | .whole, v => match v with | .int _ | .bool _ => true | _ => false
  | .wholeOrNone, v => match v with | .null | .int _ | .bool _ => true | _ => false
  | .truth, v => match v with | .bool _ => true | _ => false
  | .oneOf choices, v => match v with | .str s => choices.contains s | _ => false
  | .list, v => match v with | .list _ => true | _ => false
  | .table, v => match v with | .table _ => true | _ => false
  | .record fields, v => match v with | .table t => admitsFields fields t | _ => false
  | .each type, v =>
    match membersOf v with
    | .ok members => members.all type.admits
    | .error _ => false

/-- Whether a table has some fields with values of their types. -/
def admitsFields : List (String × FieldType) → Table → Bool
  | [], _ => true
  | (name, type) :: rest, t => (t.get? name).any type.admits && admitsFields rest t

end

variable {fields : List (String × FieldType)} {t : Table} {type : FieldType}

/-- A table is a record of some fields just if it has them all, each with its type. -/
theorem admits_record_iff :
    (record fields).admits (.table t) = true
      ↔ ∀ f ∈ fields, ∃ v, t.get? f.1 = some v ∧ f.2.admits v = true := by
  rw [admits]
  induction fields with
  | nil => simp [admitsFields]
  | cons f fields ih =>
    obtain ⟨name, type⟩ := f
    rw [admitsFields, Bool.and_eq_true, ih, List.forall_mem_cons, Option.any_eq_true]

theorem admits_record_append_iff {others : List (String × FieldType)} :
    (record (fields ++ others)).admits (.table t) = true
      ↔ (record fields).admits (.table t) = true ∧ (record others).admits (.table t) = true := by
  simp only [admits_record_iff, List.forall_mem_append]

theorem admits_named_iff {entries : List (String × Value)} :
    (record fields).admits (.named entries) = true
      ↔ ∀ f ∈ fields, ∃ v, (Table.named entries).get? f.1 = some v ∧ f.2.admits v = true :=
  admits_record_iff

theorem admits_each_map_iff {α : Type} {g : α → Value} {xs : List α} :
    type.each.admits (.list (xs.map g)) = true ↔ ∀ x ∈ xs, type.admits (g x) = true := by
  simp [admits, membersOf]

@[simp]
theorem admits_text_toValue (t : WireText) : text.admits t.toValue = true := by
  rw [admits, WireText.text?_toValue]
  rfl

@[simp]
theorem admits_text_str (s : String) : text.admits (.str s) = true := rfl

@[simp]
theorem admits_whole_int (n : Int) : whole.admits (.int n) = true := rfl

@[simp]
theorem admits_truth_bool (b : Bool) : truth.admits (.bool b) = true := rfl

@[simp]
theorem admits_list_list (items : List Value) : list.admits (.list items) = true := rfl

@[simp]
theorem admits_table_table (t : Table) : table.admits (.table t) = true := rfl

end FieldType

namespace Table

/-- A table with values of their types under some names, where it has any there. -/
def Agrees (t : Table) (fields : List (String × FieldType)) : Prop :=
  ∀ f ∈ fields, ∀ v, t.get? f.1 = some v → f.2.admits v = true

variable {t : Table} {name : String} {type : FieldType} {v : Value}

/-- A member that may be missing is of a type that what is taken for it has, if it is where it is
not missing. -/
theorem admits_getD_iff (hv : type.admits v = true) :
    type.admits (t.getD name v) = true ↔ ∀ w, t.get? name = some w → type.admits w = true := by
  rw [getD]
  cases t.get? name with
  | none => exact iff_of_true hv (by simp)
  | some w => exact ⟨fun h _ hw => Option.some.inj hw ▸ h, fun h => h w rfl⟩

/-- A member that is required is of the type that it is of where it is. -/
theorem admits_require_iff (h : require t name = .ok v) :
    type.admits v = true ↔ ∀ w, t.get? name = some w → type.admits w = true := by
  rw [Item.get?_of_require h]
  exact ⟨fun h _ hw => Option.some.inj hw ▸ h, fun h => h v rfl⟩

end Table

/-! ## Items

Each item has its fields in two lists: those that are converted on the way in, whose types are
certain, and those that are copied. For the copied ones the table of the wire object is compared
under the same names; what is taken for a missing member always has the type. -/

namespace Item

/-- The states of a command. -/
def commandStates : FieldType :=
  .oneOf ["in_progress", "completed", "failed", "declined"]

/-- The states of a change of files. -/
def patchStates : FieldType :=
  .oneOf ["completed", "failed"]

/-- The states of a call of a tool. -/
def callStates : FieldType :=
  .oneOf ["in_progress", "completed", "failed"]

/-- The kinds of a change of one file. -/
def changeKinds : FieldType :=
  .oneOf ["add", "delete", "update"]

/-- The fields of a change of one file. -/
def changeFields : FieldType :=
  .record [("path", .text), ("kind", changeKinds)]

/-- The fields of an item that are brought to their types. -/
def coerced : Item → List (String × FieldType)
  | .fileChange .. => [("id", .text), ("type", .text), ("changes", .list)]
  | .todoList .. => [("id", .text), ("type", .text), ("items", .list),
      ("items", .each (.record [("completed", .truth)]))]
  | .unknown .. => [("id", .text), ("type", .text), ("data", .table)]
  | _ => [("id", .text), ("type", .text)]

/-- The fields of an item that are copied from the wire members of the same names. -/
def copied : Item → List (String × FieldType)
  | .agentMessage .. | .reasoning .. => [("text", .text)]
  | .commandExecution .. => [("command", .text), ("aggregated_output", .text),
      ("exit_code", .wholeOrNone), ("status", commandStates)]
  | .fileChange .. => [("changes", .each changeFields), ("status", patchStates)]
  | .toolCall .. => [("server", .text), ("tool", .text), ("status", callStates)]
  | .webSearch .. => [("query", .text)]
  | .todoList .. => [("items", .each (.record [("text", .text)]))]
  | .error .. => [("message", .text)]
  | .unknown .. => []

/-- **Fields that are brought to their types have them**, in every item. -/
theorem admits_coerced (i : Item) : (FieldType.record i.coerced).admits i.toValue = true := by
  have htruth : ∀ e : TodoEntry,
      (FieldType.record [("completed", .truth)]).admits (todoValue e) = true :=
    fun e => FieldType.admits_named_iff.mpr (by simp [Table.named, Table.get?])
  cases i with
  | todoList id entries =>
    have hentries := FieldType.admits_each_map_iff.mpr fun e (_ : e ∈ entries) => htruth e
    refine FieldType.admits_named_iff.mpr ?_
    simpa [coerced, Table.named, Table.get?] using hentries
  | _ =>
    refine FieldType.admits_named_iff.mpr ?_
    simp [coerced, Table.named, Table.get?]

variable {v : Value} {t : Table} {i : Item}

/-- Only a table is taken for one. -/
theorem eq_table_of_tableOf (h : tableOf v = .ok t) : v = .table t := by
  cases v with
  | table entries => exact congrArg Value.table (Except.ok.inj h)
  | _ => exact absurd h nofun

/-- A change of one file has what its wire object has. -/
theorem admits_changeValue_iff {c : FileChange} (h : changeOf v = .ok c) :
    changeFields.admits (changeValue c) = true ↔ changeFields.admits v = true := by
  obtain ⟨t, ht, h⟩ := Json.exists_of_bind_eq_ok h
  obtain ⟨path, hpath, h⟩ := Json.exists_of_bind_eq_ok h
  obtain ⟨kind, hkind, h⟩ := Json.exists_of_bind_eq_ok h
  obtain rfl := Except.ok.inj h
  obtain rfl := eq_table_of_tableOf ht
  rw [changeFields, FieldType.admits_record_iff, changeValue, FieldType.admits_named_iff]
  simp [Table.named, Table.get?, get?_of_require hpath, get?_of_require hkind]

/-- The text of an entry of a to-do list is what its wire object has. -/
theorem admits_todoValue_iff {e : TodoEntry} (h : todoOf v = .ok e) :
    (FieldType.record [("text", .text)]).admits (todoValue e) = true
      ↔ (FieldType.record [("text", .text)]).admits v = true := by
  obtain ⟨t, ht, h⟩ := Json.exists_of_bind_eq_ok h
  obtain ⟨text, htext, h⟩ := Json.exists_of_bind_eq_ok h
  obtain rfl := Except.ok.inj h
  obtain rfl := eq_table_of_tableOf ht
  rw [FieldType.admits_record_iff, todoValue, FieldType.admits_named_iff]
  simp [Table.named, Table.get?, get?_of_require htext]

/-- What is made of the members of a value has what each of them has. -/
theorem admits_each_iff {α : Type} {part : Value → Except Fault α} {shown : α → Value}
    {type : FieldType} (hpart : ∀ {m a}, part m = .ok a →
      (type.admits (shown a) = true ↔ type.admits m = true))
    {members : List Value} {parts : List α} (hmembers : membersOf v = .ok members)
    (hparts : members.mapM part = .ok parts) :
    type.each.admits (.list (parts.map shown)) = true ↔ type.each.admits v = true := by
  rw [FieldType.admits_each_map_iff, FieldType.admits, hmembers]
  dsimp only
  rw [List.all_eq_true]
  -- The members are known by now, so the induction is on them and on what is made of each.
  clear hmembers
  induction members generalizing parts with
  | nil =>
    obtain rfl := Except.ok.inj hparts
    exact iff_of_true nofun nofun
  | cons m members ih =>
    rw [List.mapM_cons] at hparts
    obtain ⟨a, ha, hparts⟩ := Json.exists_of_bind_eq_ok hparts
    obtain ⟨rest, hrest, hparts⟩ := Json.exists_of_bind_eq_ok hparts
    obtain rfl := Except.ok.inj hparts
    rw [List.forall_mem_cons, List.forall_mem_cons, ih hrest, hpart ha]

/-- A record agrees with a table if each of its fields has its type just where the table has it. -/
theorem admits_iff_agrees {fields : List (String × FieldType)} {entries : List (String × Value)}
    (h : ∀ f ∈ fields, ∃ v, (Table.named entries).get? f.1 = some v
      ∧ (f.2.admits v = true ↔ ∀ w, t.get? f.1 = some w → f.2.admits w = true)) :
    (FieldType.record fields).admits (.named entries) = true ↔ t.Agrees fields := by
  rw [FieldType.admits_named_iff, Table.Agrees]
  refine forall₂_congr fun f hf => ?_
  obtain ⟨v, hv, hiff⟩ := h f hf
  simp [hv, hiff]

/-- **Copied fields have the types that the wire members have**, as far as these are there. -/
theorem admits_copied_iff_of_ofMembers {id : WireText} {type : Value}
    (h : ofMembers t id type = .ok i) :
    (FieldType.record i.copied).admits i.toValue = true ↔ t.Agrees i.copied := by
  -- the types with a meaning in their order, and any other one last
  rw [ofMembers.eq_def] at h
  split at h
  · obtain rfl := Except.ok.inj h
    refine admits_iff_agrees ?_
    simpa [copied, Table.named, Table.get?] using Table.admits_getD_iff rfl
  · obtain rfl := Except.ok.inj h
    refine admits_iff_agrees ?_
    simpa [copied, Table.named, Table.get?] using Table.admits_getD_iff rfl
  · obtain ⟨command, hcommand, h⟩ := Json.exists_of_bind_eq_ok h
    obtain rfl := Except.ok.inj h
    refine admits_iff_agrees ?_
    simpa [copied, Table.named, Table.get?] using ⟨Table.admits_require_iff hcommand,
      Table.admits_getD_iff rfl, Table.admits_getD_iff rfl, Table.admits_getD_iff rfl⟩
  · obtain ⟨members, hmembers, h⟩ := Json.exists_of_bind_eq_ok h
    obtain ⟨changes, hchanges, h⟩ := Json.exists_of_bind_eq_ok h
    obtain rfl := Except.ok.inj h
    have hlist := admits_each_iff admits_changeValue_iff hmembers hchanges
    refine admits_iff_agrees ?_
    simpa [copied, Table.named, Table.get?] using
      ⟨hlist.trans (Table.admits_getD_iff rfl), Table.admits_getD_iff rfl⟩
  · obtain ⟨server, hserver, h⟩ := Json.exists_of_bind_eq_ok h
    obtain ⟨tool, htool, h⟩ := Json.exists_of_bind_eq_ok h
    obtain rfl := Except.ok.inj h
    refine admits_iff_agrees ?_
    simpa [copied, Table.named, Table.get?] using ⟨Table.admits_require_iff hserver,
      Table.admits_require_iff htool, Table.admits_getD_iff rfl⟩
  · obtain rfl := Except.ok.inj h
    refine admits_iff_agrees ?_
    simpa [copied, Table.named, Table.get?] using Table.admits_getD_iff rfl
  · obtain ⟨members, hmembers, h⟩ := Json.exists_of_bind_eq_ok h
    obtain ⟨entries, hentries, h⟩ := Json.exists_of_bind_eq_ok h
    obtain rfl := Except.ok.inj h
    have hlist := admits_each_iff admits_todoValue_iff hmembers hentries
    refine admits_iff_agrees ?_
    simpa [copied, Table.named, Table.get?] using hlist.trans (Table.admits_getD_iff rfl)
  · obtain rfl := Except.ok.inj h
    refine admits_iff_agrees ?_
    simpa [copied, Table.named, Table.get?] using Table.admits_getD_iff rfl
  · obtain ⟨name, -, h⟩ := Json.exists_of_bind_eq_ok h
    obtain rfl := Except.ok.inj h
    exact admits_iff_agrees fun f hf => absurd hf List.not_mem_nil

/-- An item of a wire object is made of its members by its type. -/
theorem exists_ofMembers_of_parse (h : parse (.table t) = .ok i) :
    ∃ id type, ofMembers t id type = .ok i := by
  obtain ⟨type, -, h⟩ := Json.exists_of_bind_eq_ok h
  obtain ⟨idValue, -, h⟩ := Json.exists_of_bind_eq_ok h
  obtain ⟨id, -, h⟩ := Json.exists_of_bind_eq_ok h
  exact ⟨id, type, h⟩

theorem admits_copied_iff (h : parse (.table t) = .ok i) :
    (FieldType.record i.copied).admits i.toValue = true ↔ t.Agrees i.copied := by
  obtain ⟨id, type, h⟩ := exists_ofMembers_of_parse h
  exact admits_copied_iff_of_ofMembers h

/-- An item is made of a table. -/
theorem exists_table_of_parse (h : parse v = .ok i) : ∃ t, v = .table t := by
  cases v with
  | table t => exact ⟨t, rfl⟩
  | _ => exact absurd h nofun

end Item

/-! ## Events

An event has converted fields and the item. So the copied fields of an event are those of its item,
looked up in the member of that name. -/

namespace Event

/-- The fields of an event that are brought to their types. -/
def coerced : Event → List (String × FieldType)
  | .threadStarted _ => [("thread_id", .text), ("type", .text)]
  | .turnStarted => [("type", .text)]
  | .turnCompleted _ => [("usage", .record [("input_tokens", .whole),
      ("cached_input_tokens", .whole), ("output_tokens", .whole)]), ("type", .text)]
  | .turnFailed _ | .error _ => [("message", .text), ("type", .text)]
  | .item _ i => [("item", .record i.coerced), ("type", .text)]

/-- The fields of an event that are copied from its wire object: those of its item. -/
def copied : Event → List (String × FieldType)
  | .item _ i => [("item", .record i.copied)]
  | _ => []

/-- An event all of whose fields, and those of its item, are of the types that they are declared to
be. -/
def IsTyped (e : Event) : Prop :=
  (FieldType.record (e.coerced ++ e.copied)).admits e.toValue = true

instance (e : Event) : Decidable e.IsTyped :=
  inferInstanceAs (Decidable (_ = true))

/-- A wire object whose item, if it has one, has values of the declared types under the names that
are copied from it. -/
def AgreesWith (t : Table) (e : Event) : Prop :=
  ∀ stage i (item : Table), e = .item stage i → t.get? "item" = some (.table item) →
    Table.Agrees item i.copied

/-- **Fields that are brought to their types have them**, in every event. -/
theorem admits_coerced (e : Event) : (FieldType.record e.coerced).admits e.toValue = true := by
  cases e with
  | item stage i =>
    refine FieldType.admits_named_iff.mpr ?_
    simp [coerced, Table.named, Table.get?, Item.admits_coerced]
  | turnCompleted usage =>
    have husage : (FieldType.record [("input_tokens", .whole), ("cached_input_tokens", .whole),
        ("output_tokens", .whole)]).admits usage.toValue = true :=
      FieldType.admits_named_iff.mpr (by simp [Table.named, Table.get?])
    refine FieldType.admits_named_iff.mpr ?_
    simp [coerced, Table.named, Table.get?, husage]
  | _ =>
    refine FieldType.admits_named_iff.mpr ?_
    simp [coerced, Table.named, Table.get?]

variable {t : Table} {e : Event}

/-- **An event is typed if and only if** the members that are copied into it are. -/
theorem isTyped_iff_of_ofTable (h : ofTable t = .ok e) : e.IsTyped ↔ AgreesWith t e := by
  have hcoerced := admits_coerced e
  cases e with
  | item stage i =>
    obtain ⟨v, hv, hi⟩ := exists_parse_of_ofTable h
    obtain ⟨item, rfl⟩ := Item.exists_table_of_parse hi
    have hcopied :
        (FieldType.record (copied (.item stage i))).admits (toValue (.item stage i)) = true
        ↔ Table.Agrees item i.copied := by
      rw [copied, toValue, FieldType.admits_named_iff, ← Item.admits_copied_iff hi]
      simp [Table.named, Table.get?]
    -- What is converted is typed in any case, so it is left to what is copied.
    rw [IsTyped, toValue, Value.named, FieldType.admits_record_append_iff]
    refine (and_iff_right hcoerced).trans (hcopied.trans ?_)
    constructor
    · rintro hagrees stage' i' item' ⟨⟩ hitem'
      obtain rfl := Value.table.inj (Option.some.inj (hv.symm.trans hitem'))
      exact hagrees
    · exact fun h => h stage i item rfl hv
  | _ =>
    refine iff_of_true ?_ (by rintro _ _ _ ⟨⟩)
    simpa [IsTyped, copied] using hcoerced

theorem isTyped_iff {line : String} (hread : Json.read .wire line = .ok (.table t))
    (h : parse line = .ok e) : e.IsTyped ↔ AgreesWith t e := by
  rw [parse, hread] at h
  dsimp only at h
  cases hof : ofTable t with
  | ok e' =>
    rw [hof] at h
    obtain rfl := Except.ok.inj h
    exact isTyped_iff_of_ofTable hof
  | error f =>
    rw [hof] at h
    dsimp only at h
    split at h <;> cases h

end Event

/-! ## Results of turns

The final response is the text of the last message as it came, or the empty text if there was none.
It is the one field of a result that depends on a copied one. -/

namespace Scene

variable {s s' : Scene} {input : Input} {options : TurnOptions}

/-- A turn that is gone through without a failure adds up to what its lines say. -/
theorem eq_addAll_of_deliver {t : LiveTurn} {lines : List String} {turn turn' : Turn}
    (h : deliver addTo t lines s turn = (none, turn', s')) :
    turn' = turn.addAll (Event.ofLines lines) := by
  induction lines generalizing s turn with
  | nil =>
    rw [deliver, finish] at h
    cases hfailure : t.feed.failure with
    | none =>
      rw [hfailure] at h
      rw [← (Prod.mk.inj (Prod.mk.inj h).2).1]
      simp [Turn.addAll, Event.ofLines]
    | some f =>
      rw [hfailure] at h
      exact absurd (Prod.mk.inj h).1 (Option.some_ne_none f)
  | cons line rest ih =>
    rw [deliver, takeLine] at h
    cases hp : Event.parse line with
    | error f =>
      rw [hp] at h
      exact absurd (Prod.mk.inj h).1 (Option.some_ne_none f)
    | ok e =>
      rw [hp] at h
      dsimp only [addTo] at h
      cases hfailure : e.failure? (s.notice e).thread.id with
      | some f =>
        rw [Turn.add_eq_error hfailure] at h
        exact absurd (Prod.mk.inj h).1 (Option.some_ne_none f)
      | none =>
        rw [Turn.add_eq hfailure] at h
        rw [Event.ofLines_cons hp, Turn.addAll_cons]
        exact ih h

/-- A turn that is completed has been started, and is made of what its lines say. -/
theorem exists_addAll_of_run {turn : Turn} (h : (s.run input options).1 = .ok turn) :
    ∃ t model, (s.start input options).1 = .ok t
      ∧ (Turn.addAll {} (Event.ofLines t.feed.lines)).check model = .ok turn := by
  cases hresolve : OutputSchema.resolve options.outputSchema with
  | error f =>
    rw [run, hresolve] at h
    cases h
  | ok schema =>
    rw [run_of_resolve hresolve, drain] at h
    rcases hstart : s.start input options with ⟨f | t, s₁⟩
    · rw [hstart] at h
      cases h
    · rw [hstart] at h
      dsimp only at h
      rcases hdeliver : deliver addTo t t.feed.lines s₁ {} with ⟨_ | f, turn', s₂⟩
      · rw [hdeliver] at h
        exact ⟨t, schema.model, rfl, eq_addAll_of_deliver hdeliver ▸ h⟩
      · rw [hdeliver] at h
        cases h

end Scene

namespace Turn

/-- The last message among some items. -/
def lastMessage? (items : List Item) : Option Value :=
  (items.filterMap messageOf?).getLast?

/-- A check looks at the final response and leaves it. -/
theorem finalResponse_of_check {t u : Turn} {model : Option RecordModel}
    (h : t.check model = .ok u) :
    u.finalResponse = t.finalResponse := by
  cases model with
  | none => rw [Except.ok.inj h]
  | some m =>
    obtain ⟨record, -, h⟩ := Json.exists_of_bind_eq_ok h
    rw [← Except.ok.inj h]

end Turn

/-- **A field has its declared type unless it is copied from a wire member that has another.**  In
every event that a line gives, the fields that are brought to their types have them, and all have
them if and only if the members that are copied into the item have, as far as they are there.  The
items of a turn that is completed are those of its lines, and its final response is a text if and
only if the last message among them is. -/
theorem typed_iff_copied_typed (line : String) (s : Scene) (input : Input) (options : TurnOptions) :
    (∀ (t : Table) e, Json.read .wire line = .ok (.table t) → Event.parse line = .ok e →
      (FieldType.record e.coerced).admits e.toValue = true
        ∧ (e.IsTyped ↔ Event.AgreesWith t e))
    ∧ ∀ turn, (s.run input options).1 = .ok turn →
      ∃ t, (s.start input options).1 = .ok t
        ∧ turn.items = (Event.ofLines t.feed.lines).filterMap Event.completedItem?
        ∧ (FieldType.text.admits turn.finalResponse = true
          ↔ ∀ v ∈ Turn.lastMessage? turn.items, FieldType.text.admits v = true) := by
  refine ⟨fun t e hread hparse => ⟨e.admits_coerced, Event.isTyped_iff hread hparse⟩, ?_⟩
  intro turn h
  obtain ⟨t, model, hstart, hcheck⟩ := Scene.exists_addAll_of_run h
  have hturn : turn.items = (Event.ofLines t.feed.lines).filterMap Event.completedItem? :=
    MarkedLine.items_of_check hcheck
  have hlast : turn.finalResponse = (Turn.lastMessage? turn.items).getD (.str "") := by
    rw [Turn.finalResponse_of_check hcheck, hturn]
    rfl
  refine ⟨t, hstart, hturn, ?_⟩
  rw [hlast]
  cases Turn.lastMessage? turn.items with
  | none => exact iff_of_true rfl nofun
  | some v => simp

/-- The line of a message whose text is a number. -/
def numberMessage : String :=
  "\x7b\"type\":\"item.completed\",\"item\":\x7b\"id\":\"i\","
    ++ "\"type\":\"agent_message\",\"text\":5\x7d\x7d"

/-- A thread whose agent answers with this message. -/
def numberTurn : Scene where
  client := .inMemory { environment := [], files := [], schemaDirectory := "/tmp/schemas" } {}
    [⟨[numberMessage], none⟩]
  thread := {}

theorem parse_numberMessage :
    Event.parse numberMessage = .ok (.item .completed (.agentMessage (.plain "i") (.int 5))) := by
  decide +kernel

theorem run_numberTurn : (numberTurn.run (.text "go") {}).1
    = .ok { items := [.agentMessage (.plain "i") (.int 5)], finalResponse := .int 5 } := by
  decide +kernel

/-- The message has no text, and neither has the turn. -/
theorem typed_numberMessage :
    ¬ (Event.item .completed (.agentMessage (.plain "i") (.int 5))).IsTyped
      ∧ ∃ turn, (numberTurn.run (.text "go") {}).1 = .ok turn
        ∧ ¬ FieldType.text.admits turn.finalResponse = true := by
  have hread : Json.read .wire numberMessage = .ok (.named [("type", .str "item.completed"),
      ("item", .named [("id", .str "i"), ("type", .str "agent_message"), ("text", .int 5)])]) := by
    decide +kernel
  obtain ⟨hline, hturn⟩ := typed_iff_copied_typed numberMessage numberTurn (.text "go") {}
  refine ⟨fun htyped => ?_, _, run_numberTurn, fun htext => ?_⟩
  · have hagrees := (hline _ _ hread parse_numberMessage).2.mp htyped
    have htext := hagrees _ _ _ rfl rfl ("text", .text) List.mem_cons_self (.int 5) rfl
    exact absurd htext (by decide)
  · obtain ⟨-, -, -, hiff⟩ := hturn _ run_numberTurn
    exact absurd (hiff.mp htext (.int 5) rfl) (by decide)

/-- **Not every field has its declared type**, nor has every final response. -/
theorem not_isTyped_numberMessage :
    (¬ ∀ line e, Event.parse line = .ok e → e.IsTyped)
      ∧ ¬ ∀ (s : Scene) input options turn, (s.run input options).1 = .ok turn →
        FieldType.text.admits turn.finalResponse = true := by
  constructor
  · intro h
    exact absurd (h _ _ parse_numberMessage) (by decide)
  · intro h
    exact absurd (h _ _ _ _ run_numberTurn) (by decide)

end AgentClient
