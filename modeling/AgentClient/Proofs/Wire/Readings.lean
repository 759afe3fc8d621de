import AgentClient.Proofs.Conversation.Insertion
import AgentClient.Proofs.Wire.WrongPayloads

/-!
# Proofs/Wire/Readings — what is read of an event

What is looked at in an event is a `Reading`: its type and the members of that type, and of these
again some members or elements only (`Event.reading`).  **Two tables that are alike there are one
event**, or none of them is one (`Event.ofTable_alike`).  An item without meaning is the exception,
as it keeps all that it is made of. -/

namespace AgentClient

open Wire

/-! ## What is read of a value

A reading is a tree that says where a value is looked at. Two values are alike in it if they are
equal, or are both tables or lists that are alike further down; equality is among the cases since a
value of another form is complained about as a whole. -/

/-- What is looked at in a value. -/
inductive Reading where
  /-- The value as a whole. -/
  | whole
  /-- Of an object some members only, each of them in its own way. -/
  | members (fields : List (String × Reading))
  /-- Of an array every element, all of them in one way. -/
  | elements (element : Reading)

namespace Reading

mutual

/-- Two values that differ in nothing that is looked at. -/
def Alike : Reading → Value → Value → Prop
  | .whole, v, v' => v = v'
  | .members fields, v, v' =>
    v = v' ∨ ∃ t t', v = .table t ∧ v' = .table t' ∧ AlikeMembers fields t t'
  | .elements r, v, v' =>
    v = v' ∨ ∃ vs vs', v = .list vs ∧ v' = .list vs' ∧ List.Forall₂ r.Alike vs vs'

/-- Two tables that have alike values under some names, or none. -/
def AlikeMembers : List (String × Reading) → Table → Table → Prop
  | [], _, _ => True
  | (name, r) :: rest, t, t' =>
    Option.Rel r.Alike (t.get? name) (t'.get? name) ∧ AlikeMembers rest t t'

end

variable {fields : List (String × Reading)} {t t' : Table} {r : Reading} {name : String}

/-- Tables are alike in some members if each of these is alike in both. -/
theorem alikeMembers_iff :
    AlikeMembers fields t t' ↔ ∀ f ∈ fields, Option.Rel f.2.Alike (t.get? f.1) (t'.get? f.1) := by
  induction fields with
  | nil => simp [AlikeMembers]
  | cons f fields ih =>
    obtain ⟨name, r⟩ := f
    rw [AlikeMembers, ih, List.forall_mem_cons]

/-- A member that is looked at as a whole is the same. -/
theorem AlikeMembers.get?_eq (h : AlikeMembers fields t t') (hname : (name, whole) ∈ fields) :
    t'.get? name = t.get? name := by
  have hrel := alikeMembers_iff.mp h _ hname
  revert hrel
  dsimp only
  cases t.get? name <;> cases t'.get? name <;> intro hrel <;> cases hrel
  · rfl
  · next heq => exact congrArg some heq.symm

theorem AlikeMembers.mono {more : List (String × Reading)} (h : AlikeMembers more t t')
    (hsub : fields ⊆ more) : AlikeMembers fields t t' :=
  alikeMembers_iff.mpr fun f hf => alikeMembers_iff.mp h f (hsub hf)

theorem AlikeMembers.require_eq (h : AlikeMembers fields t t') (hname : (name, whole) ∈ fields) :
    require t' name = require t name := by
  rw [require, require, h.get?_eq hname]

theorem AlikeMembers.getD_eq (h : AlikeMembers fields t t') (hname : (name, whole) ∈ fields)
    (v : Value) : t'.getD name v = t.getD name v := by
  rw [Table.getD, Table.getD, h.get?_eq hname]

/-- A member that may be missing is alike in two tables if what is taken for it is itself. -/
theorem alike_getD (h : Option.Rel r.Alike (t.get? name) (t'.get? name)) {v : Value}
    (hv : r.Alike v v) : r.Alike (t.getD name v) (t'.getD name v) := by
  revert h
  rw [Table.getD, Table.getD]
  cases t.get? name <;> cases t'.get? name <;> intro h <;> cases h
  · exact hv
  · assumption

/-- Alike elements make the same parts, if one of them does. -/
theorem Alike.mapM_membersOf {α : Type} {part : Value → Except Fault α}
    (hpart : ∀ v v', r.Alike v v' → part v' = part v) {v v' : Value}
    (h : (elements r).Alike v v') :
    (membersOf v' >>= fun members => members.mapM part)
      = membersOf v >>= fun members => members.mapM part := by
  rw [Alike] at h
  obtain rfl | ⟨vs, vs', rfl, rfl, hvs⟩ := h
  · rfl
  · show vs'.mapM part = vs.mapM part
    induction hvs with
    | nil => rfl
    | cons hv _ ih => rw [List.mapM_cons, List.mapM_cons, hpart _ _ hv, ih]

/-- A member that has to be a table is alike in two tables, or it fails alike. -/
theorem tableMember_alike
    (h : Option.Rel (members fields).Alike (t.get? name) (t'.get? name)) :
    Event.tableMember t' name = Event.tableMember t name
      ∨ ∃ u u', Event.tableMember t name = .ok u ∧ Event.tableMember t' name = .ok u'
        ∧ AlikeMembers fields u u' := by
  have hself : (members fields).Alike .null .null := .inl rfl
  have halike := alike_getD h hself
  rw [Event.tableMember, Event.tableMember]
  rw [Alike] at halike
  obtain heq | ⟨u, u', hu, hu', halike⟩ := halike
  · rw [heq]
    exact .inl rfl
  · rw [hu, hu']
    -- a table that does not count as given is empty, and is taken for itself
    have htable : ∀ u : Table, (if (Value.table u).isTruthy then Except.ok u else .ok [])
        = (Except.ok u : Except Fault Table) := by
      intro u
      cases u <;> rfl
    exact .inr ⟨u, u', htable u, htable u', halike⟩

end Reading

/-! ## Items

The reading of an item depends on its type. It is kept beside the function that makes items, in the
same order of types, and each case says that this function asks for no member that the reading
leaves out. -/

namespace Item

open Reading

/-- What is read of a change of one file. -/
def changeReading : Reading :=
  .members [("path", .whole), ("kind", .whole)]

/-- What is read of an entry of a to-do list. -/
def todoReading : Reading :=
  .members [("text", .whole), ("completed", .whole)]

/-- What is read of an item of a type besides its type and its id. -/
def fieldsOf : Value → List (String × Reading)
  | .str "agent_message" | .str "reasoning" => [("text", .whole)]
  | .str "command_execution" => [("command", .whole), ("aggregated_output", .whole),
      ("exit_code", .whole), ("status", .whole)]
  | .str "file_change" => [("changes", .elements changeReading), ("status", .whole)]
  | .str "mcp_tool_call" => [("server", .whole), ("tool", .whole), ("status", .whole)]
  | .str "web_search" => [("query", .whole)]
  | .str "todo_list" => [("items", .elements todoReading)]
  | .str "error" => [("message", .whole)]
  | _ => []

/-- What is read of an item. -/
def reading : Value → Reading
  | .table t =>
    .members (("type", .whole) :: ("id", .whole) :: fieldsOf (Table.getD t "type" .null))
  | _ => .whole

/-- Changes that are alike are read alike. -/
theorem changeOf_alike {v v' : Value} (h : changeReading.Alike v v') :
    changeOf v' = changeOf v := by
  rw [changeReading, Alike] at h
  obtain rfl | ⟨t, t', rfl, rfl, h⟩ := h
  · rfl
  · have hpath : require t' "path" = require t "path" := h.require_eq (by simp)
    have hkind : require t' "kind" = require t "kind" := h.require_eq (by simp)
    show (require t' "path" >>= _) = (require t "path" >>= _)
    rw [hpath, hkind]

/-- So are the entries of a list. -/
theorem todoOf_alike {v v' : Value} (h : todoReading.Alike v v') : todoOf v' = todoOf v := by
  rw [todoReading, Alike] at h
  obtain rfl | ⟨t, t', rfl, rfl, h⟩ := h
  · rfl
  · have htext : require t' "text" = require t "text" := h.require_eq (by simp)
    have hcompleted :
        Table.getD t' "completed" (.bool false) = Table.getD t "completed" (.bool false) :=
      h.getD_eq (by simp) _
    show (require t' "text" >>= _) = (require t "text" >>= _)
    rw [htext, hcompleted]

variable {t t' : Table} {v v' : Value}

theorem ofMembers_fileChange (t : Table) (id : WireText) :
    ofMembers t id (.str "file_change")
      = (membersOf (t.getD "changes" (.list [])) >>= fun members => members.mapM changeOf)
        >>= fun changes => .ok (.fileChange id changes (t.getD "status" (.str "completed"))) :=
  (bind_assoc _ _ _).symm

theorem ofMembers_todoList (t : Table) (id : WireText) :
    ofMembers t id (.str "todo_list")
      = (membersOf (t.getD "items" (.list [])) >>= fun members => members.mapM todoOf)
        >>= fun entries => .ok (.todoList id entries) :=
  (bind_assoc _ _ _).symm

/-- **An item of a type with a meaning is the same** if what is read of it is. -/
theorem ofMembers_alike {type : Value} (htype : type ∈ knownTypes.map Value.str)
    (h : AlikeMembers (fieldsOf type) t t') (id : WireText) :
    ofMembers t' id type = ofMembers t id type := by
  have hget : ∀ name, (name, whole) ∈ fieldsOf type → t'.get? name = t.get? name :=
    fun name hname => h.get?_eq hname
  simp only [knownTypes, List.map_cons, List.map_nil, List.mem_cons, List.not_mem_nil,
    or_false] at htype
  -- the types in the order in which they are listed
  rcases htype with rfl | rfl | rfl | rfl | rfl | rfl | rfl | rfl
  · simp [ofMembers, Table.getD, hget, fieldsOf]
  · simp [ofMembers, Table.getD, hget, fieldsOf]
  · simp [ofMembers, Table.getD, require, hget, fieldsOf]
  · have hchanges :=
      alike_getD (alikeMembers_iff.mp h _ List.mem_cons_self) (v := .list []) (.inl rfl)
    have hparts := Alike.mapM_membersOf (fun _ _ => changeOf_alike) hchanges
    have hstatus : t'.getD "status" (.str "completed") = t.getD "status" (.str "completed") :=
      h.getD_eq (by simp [fieldsOf]) _
    rw [ofMembers_fileChange, ofMembers_fileChange, hparts, hstatus]
  · simp [ofMembers, Table.getD, require, hget, fieldsOf]
  · simp [ofMembers, Table.getD, hget, fieldsOf]
  · have hitems :=
      alike_getD (alikeMembers_iff.mp h _ List.mem_cons_self) (v := .list []) (.inl rfl)
    have hparts := Alike.mapM_membersOf (fun _ _ => todoOf_alike) hitems
    rw [ofMembers_todoList, ofMembers_todoList, hparts]
  · simp [ofMembers, Table.getD, hget, fieldsOf]

/-- **An item of any type** is the same if what is read of it is, or it is one without meaning. -/
theorem ofMembers_alike_or {type : Value} (h : AlikeMembers (fieldsOf type) t t') (id : WireText) :
    ofMembers t' id type = ofMembers t id type
      ∨ ∃ i, ofMembers t id type = .ok i ∧ i.isKnown = false := by
  -- Without a meaning the item keeps the whole table, so then nothing is said about it.
  by_cases htype : type ∈ knownTypes.map Value.str
  · exact .inl (ofMembers_alike htype h id)
  · rw [ofMembers_eq_unknown htype, ofMembers_eq_unknown htype]
    cases textOf type with
    | error f => exact .inl rfl
    | ok name => exact .inr ⟨_, rfl, rfl⟩

/-- **Items that are alike are read alike**, unless the item has a type without meaning. -/
theorem parse_alike (h : (reading v).Alike v v') :
    parse v' = parse v ∨ ∃ i, parse v = .ok i ∧ i.isKnown = false := by
  cases v with
  | table t =>
    rw [reading, Alike] at h
    obtain rfl | ⟨t, t', ⟨⟩, rfl, h⟩ := h
    · exact .inl rfl
    · have htype : require t' "type" = require t "type" := h.require_eq (by simp)
      have hid : require t' "id" = require t "id" := h.require_eq (by simp)
      rw [parse, parse, htype, hid]
      cases hrequire : require t "type" with
      | error f => exact .inl rfl
      | ok type =>
        have hget : Table.getD t "type" .null = type := by
          rw [Table.getD, get?_of_require hrequire]
          rfl
        rw [hget] at h
        dsimp only [bind, Except.bind]
        cases require t "id" with
        | error f => exact .inl rfl
        | ok idValue =>
          dsimp only
          cases textOf idValue with
          | error f => exact .inl rfl
          | ok id => exact ofMembers_alike_or (h.mono (by simp)) id
  | _ => exact .inl (congrArg parse (Eq.symm h))

end Item

/-! ## Events

The reading of an event has that of its item inside. For the turns that are completed or have failed
there is one table more on the way, which may be missing or not count as given. -/

namespace Event

open Reading

/-- What is read of the counts of tokens. -/
def usageReading : Reading :=
  .members (countNames.map (·, .whole))

/-- What is read of an event of a type besides its type. -/
def fieldsOf (t : Table) : Value → List (String × Reading)
  | .str "thread.started" => [("thread_id", .whole)]
  | .str "turn.completed" => [("usage", usageReading)]
  | .str "turn.failed" => [("error", .members [("message", .whole)])]
  | .str "item.started" | .str "item.updated" | .str "item.completed" =>
    [("item", Item.reading (t.getD "item" .null))]
  | .str "error" => [("message", .whole)]
  | _ => []

/-- What is read of an event. -/
def reading (t : Table) : Reading :=
  .members (("type", .whole) :: fieldsOf t (t.getD "type" .null))

/-- The types of events. -/
def types : List String :=
  ["thread.started", "turn.started", "turn.completed", "turn.failed", "item.started",
    "item.updated", "item.completed", "error"]

variable {t t' : Table}

/-- An event of no type fails alike, whatever its members are. -/
theorem ofMembers_of_not_mem {v : Value} (h : v ∉ types.map Value.str) (t t' : Table) :
    ofMembers t' v = ofMembers t v := by
  rw [ofMembers.eq_def, ofMembers.eq_def]
  split
  all_goals first
    | exact absurd (List.mem_map_of_mem (by simp [types])) h
    | rfl

/-- The event of an item is made of the item alone. -/
theorem itemEvent_alike
    (h : Option.Rel (Item.reading (t.getD "item" .null)).Alike (t.get? "item") (t'.get? "item"))
    (stage : ItemStage) :
    itemEvent t' stage = itemEvent t stage
      ∨ ∃ i, itemEvent t stage = .ok (.item stage i) ∧ i.isKnown = false := by
  rw [Table.getD] at h
  rw [itemEvent, itemEvent, require, require]
  revert h
  cases t.get? "item" <;> cases t'.get? "item" <;> intro h <;> cases h
  · exact .inl rfl
  · next v v' h =>
    have halike : (Item.reading v).Alike v v' := h
    rcases Item.parse_alike halike with heq | ⟨i, hi, hunknown⟩
    · exact .inl (by simp only [bind, Except.bind, heq])
    · refine .inr ⟨i, ?_, hunknown⟩
      simp only [bind, Except.bind, hi]
      rfl

/-- The end of a turn is made of its counts. -/
theorem ofMembers_turnCompleted_alike
    (h : Option.Rel usageReading.Alike (t.get? "usage") (t'.get? "usage")) :
    ofMembers t' (.str "turn.completed") = ofMembers t (.str "turn.completed") := by
  rw [ofMembers, ofMembers]
  obtain heq | ⟨u, u', hu, hu', halike⟩ := tableMember_alike h
  · rw [heq]
  · have hcount : ∀ name ∈ countNames, tokenCount u' name = tokenCount u name := by
      intro name hname
      have hmem : (name, whole) ∈ countNames.map (·, whole) := List.mem_map_of_mem hname
      exact congrArg intOf (halike.getD_eq hmem _)
    obtain ⟨hinput, hcached, houtput⟩ : _ ∧ _ ∧ _ := by simpa [countNames] using hcount
    rw [hu, hu']
    simp only [bind, Except.bind, hinput, hcached, houtput]

/-- A failed turn is made of its message. -/
theorem ofMembers_turnFailed_alike
    (h : Option.Rel (members [("message", whole)]).Alike (t.get? "error") (t'.get? "error")) :
    ofMembers t' (.str "turn.failed") = ofMembers t (.str "turn.failed") := by
  rw [ofMembers, ofMembers]
  obtain heq | ⟨u, u', hu, hu', halike⟩ := tableMember_alike h
  · rw [heq]
  · have hmessage :
        u'.getD "message" (.str "Turn failed") = u.getD "message" (.str "Turn failed") :=
      halike.getD_eq List.mem_cons_self _
    rw [hu, hu']
    simp only [bind, Except.bind, hmessage]

/-- **An event is the same** if what is read of it is, or it is one of an item without meaning. -/
theorem ofMembers_alike {v : Value} (h : AlikeMembers (fieldsOf t v) t t') :
    ofMembers t' v = ofMembers t v
      ∨ ∃ stage i, ofMembers t v = .ok (.item stage i) ∧ i.isKnown = false := by
  by_cases hv : v ∈ types.map Value.str
  · have hfirst := fun f hf => alikeMembers_iff.mp h f hf
    have hget : ∀ name, (name, whole) ∈ fieldsOf t v → t'.get? name = t.get? name :=
      fun name hname => h.get?_eq hname
    have hitem : ∀ {stage}, itemEvent t' stage = itemEvent t stage
        ∨ (∃ i, itemEvent t stage = .ok (.item stage i) ∧ i.isKnown = false) →
        itemEvent t' stage = itemEvent t stage
        ∨ ∃ stage' i, itemEvent t stage = .ok (.item stage' i) ∧ i.isKnown = false :=
      fun h => h.imp_right fun ⟨i, hi⟩ => ⟨_, i, hi⟩
    simp only [types, List.map_cons, List.map_nil, List.mem_cons, List.not_mem_nil, or_false] at hv
    rcases hv with rfl | rfl | rfl | rfl | rfl | rfl | rfl | rfl
    · exact .inl (by simp [ofMembers, require, hget, fieldsOf])
    · exact .inl rfl
    · exact .inl (ofMembers_turnCompleted_alike (hfirst _ List.mem_cons_self))
    · exact .inl (ofMembers_turnFailed_alike (hfirst _ List.mem_cons_self))
    · exact hitem (itemEvent_alike (hfirst _ List.mem_cons_self) .started)
    · exact hitem (itemEvent_alike (hfirst _ List.mem_cons_self) .updated)
    · exact hitem (itemEvent_alike (hfirst _ List.mem_cons_self) .completed)
    · exact .inl (by simp [ofMembers, Table.getD, hget, fieldsOf])
  · exact .inl (ofMembers_of_not_mem hv t t')

/-- **Events that are alike are read alike**, unless one is about an item of a type without meaning.
-/
theorem ofTable_alike (h : (reading t).Alike (.table t) (.table t')) :
    ofTable t' = ofTable t
      ∨ ∃ stage i, ofTable t = .ok (.item stage i) ∧ i.isKnown = false := by
  rw [reading, Alike] at h
  obtain heq | ⟨t, t', ⟨⟩, ⟨⟩, h⟩ := h
  · exact .inl (congrArg ofTable (Value.table.inj heq).symm)
  · have htype : t'.getD "type" .null = t.getD "type" .null := h.getD_eq List.mem_cons_self _
    rw [ofTable, ofTable, htype]
    exact ofMembers_alike (h.mono (List.subset_cons_self _ _))

end Event

end AgentClient
