import AgentClient.Proofs.Wire.LetThrough

/-!
# Proofs/Wire/WrongPayloads — payloads of a wrong type, and which of them are taken for none

A payload that should be a table, or an array of tables, and is not, makes a line malformed, if it
is looked into at all.  Two defaults come before that.  The usage and the error of a turn are taken
for missing **if they do not count as given** — and so is an empty array, a zero or `false`, not
only `null` (`Event.tableMember_of_isWrong`).  And the members of an item are counted before one of
them is looked into, so **an empty text and an empty object hold none**, like an empty array
(`Item.holdsTables_or_isEmptyHolder`).  `Event.parse_wrongPayload` says which is which for every
line.
-/

namespace AgentClient

open Wire

/-- What several things are made of can each be made. -/
theorem Wire.forall_of_mapM_eq_ok {α β ε : Type} {f : α → Except ε β} {xs : List α} {ys : List β}
    (h : xs.mapM f = .ok ys) : ∀ x ∈ xs, ∃ y ∈ ys, f x = .ok y := by
  induction xs generalizing ys with
  | nil => exact nofun
  | cons x xs ih =>
    rw [List.mapM_cons] at h
    obtain ⟨y, hy, h⟩ := Json.exists_of_bind_eq_ok h
    obtain ⟨ys, hys, h⟩ := Json.exists_of_bind_eq_ok h
    obtain rfl := Except.ok.inj h
    refine List.forall_mem_cons.mpr ⟨⟨y, List.mem_cons_self, hy⟩, fun z hz => ?_⟩
    obtain ⟨w, hw, hz⟩ := ih hys z hz
    exact ⟨w, List.mem_cons_of_mem y hw, hz⟩

/-- A wire object of a type, with a payload under a name. -/
structure Table.Carries (t : Table) (type name : String) (v : Value) : Prop where
  type_eq : t.get? "type" = some (.str type)
  payload_eq : t.get? name = some v

/-! ## Items that hold tables

Changes of files and to-do lists are made alike: the member is taken apart into its members, and
each of them has to be a table. A text has its code points for members and a table its keys, neither
of which is a table, so these two are refused unless they are empty. -/

namespace Item

/-- A type of items that hold tables: the name of the member with the tables, and the item made if
there are none. -/
structure Holder where
  type : String
  member : String
  memberless : WireText → Table → Item

/-- The types of items that hold tables. -/
def holders : List Holder :=
  [⟨"file_change", "changes", fun id t => .fileChange id [] (t.getD "status" (.str "completed"))⟩,
   ⟨"todo_list", "items", fun id _ => .todoList id []⟩]

/-- An array of tables. -/
def HoldsTables (w : Value) : Prop :=
  ∃ items, w = .list items ∧ ∀ v ∈ items, ∃ entries, v = .table entries

/-- What is no array but has no members either. -/
def IsEmptyHolder (w : Value) : Prop :=
  w = .str "" ∨ w = .table []

/-- A change is read of a table. -/
theorem exists_table_of_changeOf {v : Value} {c : FileChange} (h : changeOf v = .ok c) :
    ∃ entries, v = .table entries := by
  cases v with
  | table entries => exact ⟨entries, rfl⟩
  | _ => exact absurd h nofun

/-- So is an entry of a list. -/
theorem exists_table_of_todoOf {v : Value} {e : TodoEntry} (h : todoOf v = .ok e) :
    ∃ entries, v = .table entries := by
  cases v with
  | table entries => exact ⟨entries, rfl⟩
  | _ => exact absurd h nofun

/-- **Both types hold their tables alike**: each member is taken for a part, and only a table is
one. -/
theorem ofMembers_of_mem_holders {h : Holder} (hh : h ∈ holders) (t : Table) (id : WireText) :
    ∃ (α : Type) (part : Value → Except Fault α) (make : List α → Item),
      (∀ v a, part v = .ok a → ∃ entries, v = .table entries)
      ∧ make [] = h.memberless id t
      ∧ ofMembers t id (.str h.type) = (do
          let members ← membersOf (t.getD h.member (.list []))
          let parts ← members.mapM part
          return make parts) := by
  simp only [holders, List.mem_cons, List.not_mem_nil, or_false] at hh
  rcases hh with rfl | rfl
  · exact ⟨FileChange, changeOf, fun cs => .fileChange id cs (t.getD "status" (.str "completed")),
      fun _ _ => exists_table_of_changeOf, rfl, rfl⟩
  · exact ⟨TodoEntry, todoOf, .todoList id, fun _ _ => exists_table_of_todoOf, rfl, rfl⟩

theorem ne_table_of_toValue (text : WireText) (entries : Table) :
    text.toValue ≠ .table entries := by
  cases text <;> exact nofun

/-- Members that are texts and tables at once are none. -/
theorem eq_nil_of_members {members : List Value}
    (htexts : ∀ m ∈ members, ∃ text : WireText, m = text.toValue)
    (htables : ∀ m ∈ members, ∃ entries, m = .table entries) : members = [] := by
  refine List.eq_nil_iff_forall_not_mem.mpr fun m hm => ?_
  obtain ⟨text, rfl⟩ := htexts m hm
  obtain ⟨entries, hentries⟩ := htables _ hm
  exact ne_table_of_toValue text entries hentries

/-- **Only arrays of tables have tables as members**, and what has no members at all. -/
theorem holdsTables_or_isEmptyHolder {depth : Nat} {w : Value} {members : List Value}
    (hw : w.IsDocument depth) (hmembers : membersOf w = .ok members)
    (htables : ∀ m ∈ members, ∃ entries, m = .table entries) : HoldsTables w ∨ IsEmptyHolder w := by
  have hsingles : ∀ text : WireText, (text.singles.map WireText.toValue) = members →
      text.points = [] := by
    rintro text rfl
    have hnil := eq_nil_of_members (fun m hm => ?_) htables
    · exact List.map_eq_nil_iff.mp (List.map_eq_nil_iff.mp hnil)
    · obtain ⟨u, -, rfl⟩ := List.mem_map.mp hm
      exact ⟨u, rfl⟩
  cases w with
  | list items =>
    obtain rfl := Except.ok.inj hmembers
    exact .inl ⟨items, rfl, htables⟩
  | str s =>
    have hnil := List.map_eq_nil_iff.mp (hsingles (.plain s) (Except.ok.inj hmembers))
    exact .inr (.inl (congrArg Value.str (String.toList_eq_nil_iff.mp hnil)))
  | broken points =>
    -- a text of no code points is a string
    have hnil : points = [] := hsingles (.broken points) (Except.ok.inj hmembers)
    subst hnil
    exact absurd hw.parts.ofPoints_eq nofun
  | table entries =>
    obtain rfl := Except.ok.inj hmembers
    obtain ⟨-, -, hkeys, -⟩ := hw.parts
    have hnil := eq_nil_of_members (fun m hm => ?_) htables
    · exact .inr (.inr (congrArg Value.table (List.map_eq_nil_iff.mp hnil)))
    · obtain ⟨e, he, rfl⟩ := List.mem_map.mp hm
      obtain ⟨key, -, hkey⟩ := hkeys e he
      exact ⟨key, hkey⟩
  | tuple => exact hw.parts.elim
  | _ => exact absurd hmembers nofun

section

variable {depth : Nat} {item : Table} {h : Holder} {w idValue : Value}

/-- An item of a type with a meaning is made of its id and of its members. -/
theorem parse_table_eq (htype : item.get? "type" = some (.str h.type)) :
    parse (.table item) = (do
      let idValue ← require item "id"
      let id ← textOf idValue
      ofMembers item id (.str h.type)) := by
  rw [parse, require, htype]
  rfl

/-- **An item of such a type is taken only if** its member holds tables, or is empty. -/
theorem holdsTables_or_isEmptyHolder_of_parse {i : Item} (hh : h ∈ holders)
    (hitem : item.Carries h.type h.member w) (hw : w.IsDocument depth)
    (hparse : parse (.table item) = .ok i) : HoldsTables w ∨ IsEmptyHolder w := by
  rw [parse_table_eq hitem.type_eq] at hparse
  obtain ⟨idValue, -, hparse⟩ := Json.exists_of_bind_eq_ok hparse
  obtain ⟨id, -, hparse⟩ := Json.exists_of_bind_eq_ok hparse
  -- All that a holder takes is read of a table.
  obtain ⟨α, part, make, hpart, -, hmake⟩ := ofMembers_of_mem_holders hh item id
  rw [hmake, Table.getD, hitem.payload_eq] at hparse
  obtain ⟨members, hmembers, hparse⟩ := Json.exists_of_bind_eq_ok hparse
  obtain ⟨parts, hparts, -⟩ := Json.exists_of_bind_eq_ok hparse
  refine holdsTables_or_isEmptyHolder hw hmembers fun m hm => ?_
  obtain ⟨a, -, ha⟩ := forall_of_mapM_eq_ok hparts m hm
  exact hpart m a ha

/-- An item whose member is empty is taken for one without members. -/
theorem parse_of_isEmptyHolder {id : WireText} (hh : h ∈ holders)
    (hitem : item.Carries h.type h.member w) (hw : IsEmptyHolder w)
    (hid : item.get? "id" = some idValue) (htext : textOf idValue = .ok id) :
    parse (.table item) = .ok (h.memberless id item) := by
  have hnone : membersOf w = .ok [] := by
    rcases hw with rfl | rfl <;> rfl
  obtain ⟨α, part, make, -, hempty, hmake⟩ := ofMembers_of_mem_holders hh item id
  rw [parse_table_eq hitem.type_eq, require, hid]
  show (textOf idValue >>= fun id => ofMembers item id (.str h.type)) = _
  rw [htext]
  show ofMembers item id (.str h.type) = _
  rw [hmake, Table.getD, hitem.payload_eq, Option.getD_some, hnone, ← hempty]
  rfl

end

end Item

/-! ## Events

For the usage and the error of a turn the question whether a payload counts as given comes first.
`null` and a table are the two payloads that are not wrong, and what is left is decided by that
question alone. -/

namespace Event

variable {line : String} {t : Table} {v : Value} {e : Event} {f : Fault}

/-- What a line ends in whose wire object has a fault. -/
def refusal (line : String) (f : Fault) : Except Failure Event :=
  .error (.client (.protocol (.malformed f) (some line)))

/-- A payload that is neither `null` nor a table. -/
def IsWrong (v : Value) : Prop :=
  v ≠ .null ∧ ∀ entries, v ≠ .table entries

theorem parse_of_ofTable_eq_ok (hread : Json.read .wire line = .ok (.table t))
    (h : ofTable t = .ok e) : parse line = .ok e := by
  rw [parse, hread]
  dsimp only
  rw [h]

theorem parse_of_ofTable_eq_error (hread : Json.read .wire line = .ok (.table t))
    (h : ofTable t = .error f) (hf : isMalformed f = true) : parse line = refusal line f := by
  rw [parse, hread]
  dsimp only
  rw [h]
  exact if_pos hf

theorem ofTable_eq (htype : t.get? "type" = some v) : ofTable t = ofMembers t v := by
  rw [ofTable, Table.getD, htype]
  rfl

/-- **A payload of a wrong type is taken for missing** if it does not count as given. -/
theorem tableMember_of_isWrong {name : String} (hget : t.get? name = some v) (hv : IsWrong v) :
    tableMember t name
      = if v.isTruthy then .error (.memberNotTable name v.typeName) else .ok [] := by
  rw [tableMember, Table.getD, hget]
  dsimp only [Option.getD_some]
  split
  · split
    · exact absurd rfl (hv.2 _)
    · rfl
  · rfl

/-- A member that is no table is refused if it holds anything, and taken for nothing if it does not.
-/
theorem parse_of_tableMember {type name : String} (hread : Json.read .wire line = .ok (.table t))
    (ht : t.Carries type name v) (hv : IsWrong v) {make : Table → Except Fault Event}
    (hmake : ofMembers t (.str type) = tableMember t name >>= make) (hnone : make [] = .ok e) :
    parse line
      = if v.isTruthy then refusal line (.memberNotTable name v.typeName) else .ok e := by
  have hmember := tableMember_of_isWrong ht.payload_eq hv
  split
  · next htruthy =>
    rw [if_pos htruthy] at hmember
    refine parse_of_ofTable_eq_error hread ?_ rfl
    rw [ofTable_eq ht.type_eq, hmake, hmember]
    rfl
  · next hfalsy =>
    rw [if_neg hfalsy] at hmember
    refine parse_of_ofTable_eq_ok hread ?_
    rw [ofTable_eq ht.type_eq, hmake, hmember]
    exact hnone

theorem ofMembers_eventType (t : Table) (stage : ItemStage) :
    ofMembers t (.str stage.eventType) = itemEvent t stage := by
  cases stage <;> rfl

/-- The event of an item is its item's. -/
theorem ofTable_of_carries_item {stage : ItemStage} (ht : t.Carries stage.eventType "item" v) :
    ofTable t = (Item.parse v).map (.item stage) := by
  rw [ofTable_eq ht.type_eq, ofMembers_eventType, itemEvent, require, ht.payload_eq]
  show (Item.parse v >>= fun i => Except.ok (Event.item stage i)) = _
  cases Item.parse v <;> rfl

theorem parse_of_item_eq_error {stage : ItemStage} (hread : Json.read .wire line = .ok (.table t))
    (ht : t.Carries stage.eventType "item" v) (hf : Item.parse v = .error f) :
    parse line = refusal line f :=
  parse_of_ofTable_eq_error hread ((ofTable_of_carries_item ht).trans (congrArg _ hf))
    (Item.onlyMalformed_parse v f hf)

/-- **What becomes of a payload of a wrong type**, in any line: a usage or an error makes the line
malformed if it counts as given, and is taken for missing if not; an item that is no table makes the
line malformed, and so does what should be an array of tables, unless it is empty. -/
theorem parse_wrongPayload (hread : Json.read .wire line = .ok (.table t)) :
    (∀ v, t.Carries "turn.completed" "usage" v → IsWrong v →
      parse line = if v.isTruthy then refusal line (.memberNotTable "usage" v.typeName)
        else .ok (.turnCompleted ⟨0, 0, 0⟩))
    ∧ (∀ v, t.Carries "turn.failed" "error" v → IsWrong v →
      parse line = if v.isTruthy then refusal line (.memberNotTable "error" v.typeName)
        else .ok (.turnFailed (.plain "Turn failed")))
    ∧ (∀ (stage : ItemStage) v, t.Carries stage.eventType "item" v →
      (∀ entries, v ≠ .table entries) → parse line = refusal line (.itemNotTable v.typeName))
    ∧ ∀ (stage : ItemStage) (item : Table), ∀ h ∈ Item.holders, ∀ w,
      t.Carries stage.eventType "item" (.table item) → item.Carries h.type h.member w →
      ¬ Item.HoldsTables w →
      (¬ Item.IsEmptyHolder w → ∃ f, parse line = refusal line f)
      ∧ (Item.IsEmptyHolder w → ∀ idValue, item.get? "id" = some idValue →
        ∃ id, textOf idValue = .ok id ∧ parse line = .ok (.item stage (h.memberless id item))) := by
  refine ⟨fun v ht hv => ?_, fun v ht hv => ?_, fun stage v ht hv => ?_, ?_⟩
  · exact parse_of_tableMember hread ht hv rfl rfl
  · exact parse_of_tableMember hread ht hv rfl rfl
  · cases v with
    | table entries => exact absurd rfl (hv entries)
    | _ => exact parse_of_item_eq_error hread ht rfl
  · intro stage item h hh w ht hitem hw
    -- The payload was read with the line, so it is a value of a document.
    obtain ⟨k, -, -, -, hvalues⟩ := (Json.isDocument_read hread).parts
    obtain ⟨k', -, -, -, hmembers⟩ := (hvalues _ (Table.mem_of_get?_eq_some ht.payload_eq)).parts
    constructor
    · intro hempty
      cases hparse : Item.parse (.table item) with
      | error f => exact ⟨f, parse_of_item_eq_error hread ht hparse⟩
      | ok i =>
        have hwdocument := hmembers _ (Table.mem_of_get?_eq_some hitem.payload_eq)
        have htaken := Item.holdsTables_or_isEmptyHolder_of_parse hh hitem hwdocument hparse
        exact (htaken.elim hw hempty).elim
    · intro hempty idValue hid
      obtain ⟨id, htext⟩ := (hmembers _ (Table.mem_of_get?_eq_some hid)).exists_textOf
      have hparse := Item.parse_of_isEmptyHolder hh hitem hempty hid htext
      exact ⟨id, htext,
        parse_of_ofTable_eq_ok hread ((ofTable_of_carries_item ht).trans (congrArg _ hparse))⟩

/-- The line of a completed turn with an array for its usage. -/
def countlessTurn : String :=
  "\x7b\"type\":\"turn.completed\",\"usage\":[]\x7d"

/-- The line of an item with a text for its changes. -/
def wordyChanges : String :=
  "\x7b\"type\":\"item.completed\",\"item\":\x7b\"id\":\"f\","
    ++ "\"type\":\"file_change\",\"changes\":\"ab\"\x7d\x7d"

theorem parse_wrongPayload_examples :
    parse countlessTurn = .ok (.turnCompleted ⟨0, 0, 0⟩)
      ∧ ∃ f, parse wordyChanges = refusal wordyChanges f := by
  have hcountless : Json.read .wire countlessTurn
      = .ok (.named [("type", .str "turn.completed"), ("usage", .list [])]) := by
    decide +kernel
  have hwordy : Json.read .wire wordyChanges
      = .ok (.named [("type", .str "item.completed"), ("item", .named [("id", .str "f"),
          ("type", .str "file_change"), ("changes", .str "ab")])]) := by
    decide +kernel
  constructor
  · exact (parse_wrongPayload hcountless).1 (.list []) ⟨rfl, rfl⟩ ⟨nofun, nofun⟩
  · refine ((parse_wrongPayload hwordy).2.2.2 .completed _ _ List.mem_cons_self (.str "ab")
      ⟨rfl, rfl⟩ ⟨rfl, rfl⟩ ?_).1 ?_
    · rintro ⟨items, h, -⟩
      exact absurd h nofun
    · rintro (h | h)
      · exact absurd (Value.str.inj h) (by decide)
      · exact absurd h nofun

/-- **Not every payload of a wrong type is refused**: an empty array is taken for no usage. -/
theorem parse_countlessTurn :
    ¬ ∀ line (t : Table) v, Json.read .wire line = .ok (.table t) →
      t.Carries "turn.completed" "usage" v →
      IsWrong v → ∃ cause, parse line = .error (.client (.protocol cause (some line))) := by
  intro hrefused
  obtain ⟨cause, h⟩ := hrefused countlessTurn
    (Table.named [("type", .str "turn.completed"), ("usage", .list [])]) (.list [])
    (by decide +kernel) ⟨rfl, rfl⟩ ⟨nofun, nofun⟩
  have hparse : parse countlessTurn = .ok (.turnCompleted ⟨0, 0, 0⟩) := by decide +kernel
  exact absurd (h.symm.trans hparse) nofun

end Event

end AgentClient
