import AgentClient.Proofs.Json.RoundTrip
import AgentClient.Wire.Event

/-!
# Proofs/Wire/EventLines — the line of an event, written again

What a line says is made of parts of the line and of defaults, so the event is a value that a
document may hold, and can be written (`Event.isDocument_of_parse`).  From its own members an event
has itself back (`Event.ofTable_toValue`), hence from what is written of it
(`Event.parse_of_write`).  Two kinds of events have not: a failed turn is written with its message
in another place than the agent has it, and an item of a type without meaning with its wire object
as one of its members. -/

namespace AgentClient

open Number Wire

/-! ## Tables of documents

What is found in a table of a document is of a document, and so is what is taken for a missing
member. -/

namespace Table

variable {depth : Nat} {t : Table} {name : String} {v : Value}

/-- What is found under a name stands in the table. -/
theorem mem_of_get?_eq_some (h : t.get? name = some v) : (.str name, v) ∈ t := by
  induction t with
  | nil => exact absurd h nofun
  | cons e t ih =>
    obtain ⟨key, w⟩ := e
    rw [get?] at h
    split at h
    · next hkey =>
      rw [hkey, Option.some.inj h]
      exact List.mem_cons_self
    · exact List.mem_cons_of_mem _ (ih h)

namespace HoldsDocuments

/-- What is found or stands in its place is a document. -/
theorem getD (h : t.HoldsDocuments depth) (name : String) {default : Value}
    (hdefault : default.IsDocument depth) : (t.getD name default).IsDocument depth := by
  rw [Table.getD]
  cases hget : t.get? name with
  | none => exact hdefault
  | some v => exact h _ (mem_of_get?_eq_some hget)

/-- What is required and found is a document. -/
theorem require (h : t.HoldsDocuments depth) (hv : require t name = .ok v) :
    v.IsDocument depth := by
  rw [Wire.require] at hv
  cases hget : t.get? name with
  | none =>
    rw [hget] at hv
    exact absurd hv nofun
  | some w =>
    rw [hget] at hv
    obtain rfl := Except.ok.inj hv
    exact h _ (mem_of_get?_eq_some hget)

end HoldsDocuments

end Table

/-! ## Coercions

None of the conversions makes anything that could not be written: texts stay texts that can be read,
whole numbers stay short enough, and the members of a value are one level less deep. -/

namespace Value

variable {depth : Nat} {v : Value}

/-- A list has no number of too many digits if its members have none. -/
theorem anyOverlong_eq_false {vs : List Value} (h : ∀ v ∈ vs, v.hasOverlong = false) :
    anyOverlong vs = false := by
  induction vs with
  | nil => rfl
  | cons v vs ih =>
    rw [List.forall_mem_cons] at h
    rw [anyOverlong, h.1, ih h.2]
    rfl

/-- Nor has a table, if its keys and values have none. -/
theorem anyOverlongEntry_eq_false {t : Table}
    (h : ∀ e ∈ t, e.1.hasOverlong = false ∧ e.2.hasOverlong = false) :
    anyOverlongEntry t = false := by
  induction t with
  | nil => rfl
  | cons e t ih =>
    rw [List.forall_mem_cons] at h
    rw [anyOverlongEntry, h.1.1, h.1.2, ih h.2]
    rfl

theorem hasOverlong_toValue (t : WireText) : t.toValue.hasOverlong = false := by
  cases t <;> rfl

/-- A document has no whole number of too many digits anywhere. -/
theorem IsDocument.hasOverlong_eq_false (h : v.IsDocument depth) : v.hasOverlong = false := by
  induction h with
  | null | bool | float => rfl
  | int hn => exact hn
  | @text _ t _ => exact hasOverlong_toValue t
  | list _ ih => exact anyOverlong_eq_false ih
  | table hkeys _ _ ih =>
    refine anyOverlongEntry_eq_false fun e he => ⟨?_, ih e he⟩
    obtain ⟨key, -, hkey⟩ := hkeys e he
    rw [hkey, hasOverlong_toValue]

/-- Any part of a document can be taken as text. -/
theorem IsDocument.exists_textOf (h : v.IsDocument depth) : ∃ text, Wire.textOf v = .ok text := by
  rw [Wire.textOf, h.hasOverlong_eq_false]
  cases v.text? with
  | some t => exact ⟨t, rfl⟩
  | none => exact ⟨_, rfl⟩

end Value

namespace Wire

variable {depth : Nat} {v : Value}

/-- Truth values count as one and zero. -/
theorem isOverlong_bool (b : Bool) : isOverlong (if b then 1 else 0) = false := by
  have hone : 1 < 10 ^ maxDigits := Nat.one_lt_pow (by decide) (by decide)
  rw [isOverlong_eq_false_iff]
  cases b with
  | true => exact hone
  | false => exact Nat.lt_of_succ_lt hone

/-- A whole number that is made of a value of a document can be written again. -/
theorem isOverlong_intOf {n : Int} (hv : v.IsDocument depth) (h : intOf v = .ok n) :
    isOverlong n = false := by
  have htext : ∀ {t : WireText}, intOfText t = .ok n → isOverlong n = false := by
    intro t ht
    rw [intOfText] at ht
    cases hread : readInt t.toString with
    | ok m =>
      rw [hread] at ht
      obtain rfl := Except.ok.inj ht
      exact isOverlong_readInt hread
    | error e =>
      rw [hread] at ht
      cases e <;> exact absurd ht nofun
  -- Whole numbers come out of numbers that are read, rounded or truncated, and each way keeps them
  -- within the limit.
  cases v with
  | bool b =>
    obtain rfl := Except.ok.inj h
    exact isOverlong_bool b
  | int m =>
    obtain rfl := Except.ok.inj h
    exact hv.parts
  | float x =>
    cases x with
    | finite negative m e =>
      obtain rfl := Except.ok.inj h
      exact Binary64.isOverlong_truncate hv.parts
    | _ => exact absurd h nofun
  | str s => exact htext h
  | broken points => exact htext h
  | _ => exact absurd h nofun

/-- The members of a value of a document are values of documents, one level less deep. -/
theorem isDocument_membersOf {members : List Value} (hv : v.IsDocument (depth + 1))
    (h : membersOf v = .ok members) : ∀ m ∈ members, m.IsDocument depth := by
  have hsingles : ∀ {t : WireText}, t.IsJoined →
      ∀ m ∈ t.singles.map WireText.toValue, m.IsDocument depth := by
    intro t ht m hm
    obtain ⟨u, hu, rfl⟩ := List.mem_map.mp hm
    exact .text (ht.of_mem_singles hu)
  -- The members of a list are inside of it, those of a text are its characters, and those of a
  -- table its keys.
  cases v with
  | list items =>
    obtain rfl := Except.ok.inj h
    obtain ⟨k, hk, hitems⟩ := hv.parts
    exact Nat.succ.inj hk ▸ hitems
  | tuple items => exact hv.parts.elim
  | str s =>
    obtain rfl := Except.ok.inj h
    exact hsingles (WireText.isJoined_plain s)
  | broken points =>
    obtain rfl := Except.ok.inj h
    exact hsingles hv.parts
  | table entries =>
    obtain rfl := Except.ok.inj h
    obtain ⟨k, -, hkeys, -, -⟩ := hv.parts
    intro m hm
    obtain ⟨e, he, rfl⟩ := List.mem_map.mp hm
    obtain ⟨key, hjoined, hkey⟩ := hkeys e he
    exact hkey ▸ .text hjoined
  | _ => exact absurd h nofun

/-- The text that is made of a value of a document can be read. -/
theorem isJoined_textOf {t : WireText} (hv : v.IsDocument depth) (h : textOf v = .ok t) :
    t.IsJoined := by
  have hstands : ∀ {u : WireText}, v.text? = some u → u.IsJoined := by
    intro u hu
    cases v with
    | str | broken => exact Option.some.inj hu ▸ hv.isJoined
    | _ => exact absurd hu nofun
  -- A text stands for itself, half pairs and all; any other value is shown, and what is shown has
  -- none.
  revert h
  rw [textOf]
  split
  · next u hu => exact fun h => Except.ok.inj h ▸ hstands hu
  · split
    · exact nofun
    · exact fun h => Except.ok.inj h ▸ WireText.isJoined_plain _

theorem textOf_toValue (t : WireText) : textOf t.toValue = .ok t := by
  rw [textOf, WireText.text?_toValue]

/-- What is made of several values is made of each of them. -/
theorem exists_of_mapM_eq_ok {α β ε : Type} {f : α → Except ε β} {xs : List α} {ys : List β}
    (h : xs.mapM f = .ok ys) : ∀ y ∈ ys, ∃ x ∈ xs, f x = .ok y := by
  induction xs generalizing ys with
  | nil =>
    obtain rfl := Except.ok.inj h
    exact nofun
  | cons x xs ih =>
    rw [List.mapM_cons] at h
    obtain ⟨y, hy, h⟩ := Json.exists_of_bind_eq_ok h
    obtain ⟨ys, hys, h⟩ := Json.exists_of_bind_eq_ok h
    obtain rfl := Except.ok.inj h
    refine List.forall_mem_cons.mpr ⟨⟨x, List.mem_cons_self, hy⟩, fun z hz => ?_⟩
    obtain ⟨w, hw, hz⟩ := ih hys z hz
    exact ⟨w, List.mem_cons_of_mem x hw, hz⟩

/-- Values that are each undone are undone one after another. -/
theorem mapM_map_eq_ok {α β ε : Type} {f : α → β} {g : β → Except ε α} (h : ∀ x, g (f x) = .ok x)
    (xs : List α) : (xs.map f).mapM g = .ok xs := by
  induction xs with
  | nil => rfl
  | cons x xs ih =>
    rw [List.map_cons, List.mapM_cons, h, ih]
    rfl

end Wire

/-! ## Items

An item is a table of its fields, and lies no deeper than the wire object it was made of, except
that an item without a meaning has that whole object as one of its fields. The converse, reading the
table of an item again, needs no more than that a conversion leaves what has the type already. -/

namespace Item

/-- Whether an item is of a type that has a meaning. -/
def isKnown : Item → Bool
  | .unknown .. => false
  | _ => true

section

variable {depth : Nat} {v : Value}

/-- A change is written with the path and the kind that it was read with. -/
theorem isDocument_changeValue {c : FileChange} (hv : v.IsDocument depth) (h : changeOf v = .ok c) :
    (changeValue c).IsDocument depth := by
  rw [changeOf] at h
  obtain ⟨t, ht, h⟩ := Json.exists_of_bind_eq_ok h
  obtain ⟨path, hpath, h⟩ := Json.exists_of_bind_eq_ok h
  obtain ⟨kind, hkind, h⟩ := Json.exists_of_bind_eq_ok h
  obtain rfl := Except.ok.inj h
  cases v with
  | table entries =>
    obtain rfl := Except.ok.inj ht
    obtain ⟨k, rfl, -, -, hvalues⟩ := hv.parts
    exact .named (by simp) (by simp [hvalues.require hpath, hvalues.require hkind])
  | _ => exact absurd ht nofun

/-- An entry is written with its text, and a truth value. -/
theorem isDocument_todoValue {e : TodoEntry} (hv : v.IsDocument depth) (h : todoOf v = .ok e) :
    (todoValue e).IsDocument depth := by
  rw [todoOf] at h
  obtain ⟨t, ht, h⟩ := Json.exists_of_bind_eq_ok h
  obtain ⟨text, htext, h⟩ := Json.exists_of_bind_eq_ok h
  obtain rfl := Except.ok.inj h
  cases v with
  | table entries =>
    obtain rfl := Except.ok.inj ht
    obtain ⟨k, rfl, -, -, hvalues⟩ := hv.parts
    exact .named (by simp) (by simp [hvalues.require htext, Value.IsDocument.bool])
  | _ => exact absurd ht nofun

/-- A list of what is made of the members of a value is as deep as the value. -/
theorem isDocument_list {α : Type} {f : Value → Except Fault α} {g : α → Value}
    {members : List Value}
    {xs : List α} (hv : v.IsDocument (depth + 1)) (hmembers : membersOf v = .ok members)
    (hxs : members.mapM f = .ok xs)
    (h : ∀ {m x}, m.IsDocument depth → f m = .ok x → (g x).IsDocument depth) :
    (Value.list (xs.map g)).IsDocument (depth + 1) := by
  refine .list fun w hw => ?_
  obtain ⟨x, hx, rfl⟩ := List.mem_map.mp hw
  obtain ⟨m, hm, hfx⟩ := exists_of_mapM_eq_ok hxs x hx
  exact h (isDocument_membersOf hv hmembers m hm) hfx

end

section

variable {depth : Nat} {t : Table} {i : Item}

/-- **An item of a document** is no deeper than its wire object, if its type has a meaning. -/
theorem isDocument_of_ofMembers (hkeys : t.HasTextKeys) (hnodup : t.keys.Nodup)
    (ht : t.HoldsDocuments (depth + 1)) {id : WireText} (hjoined : id.IsJoined) {type : Value}
    (htyped : type.IsDocument (depth + 1)) (h : ofMembers t id type = .ok i) :
    i.toValue.IsDocument (if i.isKnown then depth + 2 else depth + 3) := by
  have hid : ∀ {k : Nat}, id.toValue.IsDocument k := .text hjoined
  have htype : ∀ s : String, (Value.str s).IsDocument (depth + 1) := .str
  have hget : ∀ name s, (t.getD name (.str s)).IsDocument (depth + 1) :=
    fun name s => ht.getD name (.str s)
  -- the types with a meaning in their order, and any other one last
  rw [ofMembers.eq_def] at h
  split at h
  · obtain rfl := Except.ok.inj h
    exact .named (by simp) (by simp [hid, hget, htype])
  · obtain rfl := Except.ok.inj h
    exact .named (by simp) (by simp [hid, hget, htype])
  · obtain ⟨command, hcommand, h⟩ := Json.exists_of_bind_eq_ok h
    obtain rfl := Except.ok.inj h
    exact .named (by simp) (by simp [hid, ht.require hcommand, hget, ht.getD _ .null, htype])
  · obtain ⟨members, hmembers, h⟩ := Json.exists_of_bind_eq_ok h
    obtain ⟨changes, hchanges, h⟩ := Json.exists_of_bind_eq_ok h
    obtain rfl := Except.ok.inj h
    have hlist := isDocument_list (ht.getD "changes" .nil) hmembers hchanges
      isDocument_changeValue
    exact .named (by simp) (by simp [hid, hlist, hget, htype])
  · obtain ⟨server, hserver, h⟩ := Json.exists_of_bind_eq_ok h
    obtain ⟨tool, htool, h⟩ := Json.exists_of_bind_eq_ok h
    obtain rfl := Except.ok.inj h
    exact .named (by simp) (by simp [hid, ht.require hserver, ht.require htool, hget, htype])
  · obtain rfl := Except.ok.inj h
    exact .named (by simp) (by simp [hid, hget, htype])
  · obtain ⟨members, hmembers, h⟩ := Json.exists_of_bind_eq_ok h
    obtain ⟨entries, hentries, h⟩ := Json.exists_of_bind_eq_ok h
    obtain rfl := Except.ok.inj h
    have hlist := isDocument_list (ht.getD "items" .nil) hmembers hentries
      isDocument_todoValue
    exact .named (by simp) (by simp [hid, hlist, htype])
  · obtain rfl := Except.ok.inj h
    exact .named (by simp) (by simp [hid, hget, htype])
  · obtain ⟨name, hname, h⟩ := Json.exists_of_bind_eq_ok h
    obtain rfl := Except.ok.inj h
    have hdata : (Value.table t).IsDocument (depth + 2) := .table hkeys hnodup ht
    have hnamed : name.toValue.IsDocument (depth + 2) := .text (isJoined_textOf htyped hname)
    exact .named (by simp) (by simp [hid, hnamed, hdata])

/-- **An item is a document** no deeper than the value that it was read from; an unknown item keeps
that value whole, one level down. -/
theorem isDocument_of_parse {v : Value} (hv : v.IsDocument (depth + 2)) (h : parse v = .ok i) :
    i.toValue.IsDocument (if i.isKnown then depth + 2 else depth + 3) := by
  cases v with
  | table t =>
    obtain ⟨k, hk, hkeys, hnodup, hvalues⟩ := hv.parts
    obtain rfl := Nat.succ.inj hk
    rw [parse] at h
    obtain ⟨type, htype, h⟩ := Json.exists_of_bind_eq_ok h
    obtain ⟨idValue, hidValue, h⟩ := Json.exists_of_bind_eq_ok h
    obtain ⟨id, hid, h⟩ := Json.exists_of_bind_eq_ok h
    have hvalues : Table.HoldsDocuments (depth + 1) t := hvalues
    exact isDocument_of_ofMembers hkeys hnodup hvalues
      (isJoined_textOf (hvalues.require hidValue) hid) (hvalues.require htype) h
  | _ => exact absurd h nofun

end

theorem changeOf_changeValue (c : FileChange) : changeOf (changeValue c) = .ok c :=
  rfl

theorem todoOf_todoValue (e : TodoEntry) : todoOf (todoValue e) = .ok e :=
  rfl

/-- **An item has itself back** from its members, if its type has a meaning. -/
theorem parse_toValue {i : Item} (h : i.isKnown = true) : parse i.toValue = .ok i := by
  have hstart : ∀ (id : WireText) {type : Value} {t : Table}, t.get? "type" = some type →
      t.get? "id" = some id.toValue → parse (.table t) = ofMembers t id type := by
    intro id type t htype hid
    rw [parse, require, require, htype, hid]
    dsimp only [bind, Except.bind]
    rw [textOf_toValue]
  -- Each item is written with the members that it is read from, under the same names; lists are
  -- read member by member.
  cases i with
  | fileChange id changes status =>
    rw [toValue, Value.named, hstart id rfl rfl]
    show (do
      let changes ← (changes.map changeValue).mapM changeOf
      return Item.fileChange id changes status) = _
    rw [mapM_map_eq_ok changeOf_changeValue]
    rfl
  | todoList id entries =>
    rw [toValue, Value.named, hstart id rfl rfl]
    show (do
      let entries ← (entries.map todoValue).mapM todoOf
      return Item.todoList id entries) = _
    rw [mapM_map_eq_ok todoOf_todoValue]
    rfl
  | unknown => exact absurd h Bool.false_ne_true
  | agentMessage id _ | reasoning id _ | commandExecution id _ _ _ _ | toolCall id _ _ _
    | webSearch id _ | error id _ =>
    rw [toValue, Value.named, hstart id rfl rfl]
    rfl

end Item

/-! ## Events

The depth adds up along the way: a line holds a table, the table an item, and the item its parts.
The numbers in the statements are what is left of the depth of the reader at each of these. -/

namespace Event

section

variable {depth : Nat} {t : Table} {e : Event}

/-- What is found under a name and is a table has documents in it. -/
theorem holdsDocuments_of_tableMember {name : String} {entries : Table}
    (ht : t.HoldsDocuments depth) (h : tableMember t name = .ok entries) :
    entries.HoldsDocuments depth := by
  have hv := ht.getD name Value.IsDocument.null
  rw [tableMember] at h
  split at h
  · split at h
    · next hget =>
      obtain rfl := Except.ok.inj h
      rw [hget] at hv
      obtain ⟨k, rfl, -, -, hvalues⟩ := hv.parts
      exact fun e he => (hvalues e he).mono (Nat.le_succ k)
    · exact absurd h nofun
  · obtain rfl := Except.ok.inj h
    exact fun e he => absurd he List.not_mem_nil

theorem isDocument_tokenCount {depth' : Nat} {name : String} {n : Int} (ht : t.HoldsDocuments depth)
    (h : tokenCount t name = .ok n) : (Value.int n).IsDocument depth' :=
  .int (isOverlong_intOf (ht.getD name (.int (isOverlong_bool false))) h)

/-- Whether the item of an event, if it has one, is of a type that has a meaning. -/
def isKnown : Event → Bool
  | .item _ i => i.isKnown
  | _ => true

/-- An event with an item is one level deeper than the item. -/
theorem isDocument_itemEvent {stage : ItemStage} (ht : t.HoldsDocuments (depth + 2))
    (h : itemEvent t stage = .ok e) :
    e.toValue.IsDocument (if e.isKnown then depth + 3 else depth + 4) := by
  rw [itemEvent] at h
  obtain ⟨v, hv, h⟩ := Json.exists_of_bind_eq_ok h
  obtain ⟨i, hi, h⟩ := Json.exists_of_bind_eq_ok h
  obtain rfl := Except.ok.inj h
  have hitem := Item.isDocument_of_parse (ht.require hv) hi
  have hevent : ∀ {k : Nat}, i.toValue.IsDocument k → (item stage i).toValue.IsDocument (k + 1) :=
    fun h => .named (by simp) (by simp [h, Value.IsDocument.str])
  rw [isKnown]
  cases hknown : i.isKnown with
  | true =>
    rw [hknown, if_pos rfl] at hitem
    exact hevent hitem
  | false =>
    rw [hknown, if_neg Bool.false_ne_true] at hitem
    exact hevent hitem

/-- **An event of a document** is no deeper than its wire object, if the type of its item has a
meaning. -/
theorem isDocument_of_ofTable (ht : t.HoldsDocuments (depth + 2)) (h : ofTable t = .ok e) :
    e.toValue.IsDocument (if e.isKnown then depth + 3 else depth + 4) := by
  have hone : ∀ {k : Nat} (name type : String) {v : Value} {text : WireText}, name ≠ "type" →
      v.IsDocument (depth + 2) → textOf v = .ok text →
      (Value.named [(name, text.toValue), ("type", .str type)]).IsDocument (k + 1) := by
    intro k name type v text hname hv htext
    have hvalue : text.toValue.IsDocument k := .text (isJoined_textOf hv htext)
    exact .named (by simp [hname]) (by simp [hvalue, Value.IsDocument.str])
  -- the types of events in their order, and last what is none
  rw [ofTable, ofMembers.eq_def] at h
  split at h
  · obtain ⟨v, hv, h⟩ := Json.exists_of_bind_eq_ok h
    obtain ⟨id, hid, h⟩ := Json.exists_of_bind_eq_ok h
    obtain rfl := Except.ok.inj h
    exact hone _ _ (by decide) (ht.require hv) hid
  · obtain rfl := Except.ok.inj h
    exact .named (by simp) (by simp [Value.IsDocument.str])
  · obtain ⟨usage, husage, h⟩ := Json.exists_of_bind_eq_ok h
    obtain ⟨input, hinput, h⟩ := Json.exists_of_bind_eq_ok h
    obtain ⟨cached, hcached, h⟩ := Json.exists_of_bind_eq_ok h
    obtain ⟨output, houtput, h⟩ := Json.exists_of_bind_eq_ok h
    obtain rfl := Except.ok.inj h
    have hcounts := holdsDocuments_of_tableMember ht husage
    have hvalue : (Usage.toValue ⟨input, cached, output⟩).IsDocument (depth + 2) := by
      exact .named (by simp) (by simp [isDocument_tokenCount hcounts hinput,
        isDocument_tokenCount hcounts hcached, isDocument_tokenCount hcounts houtput])
    exact .named (by simp) (by simp [hvalue, Value.IsDocument.str])
  · obtain ⟨error, herror, h⟩ := Json.exists_of_bind_eq_ok h
    obtain ⟨text, htext, h⟩ := Json.exists_of_bind_eq_ok h
    obtain rfl := Except.ok.inj h
    have hmembers := holdsDocuments_of_tableMember ht herror
    exact hone _ _ (by decide) (hmembers.getD "message" (.str _)) htext
  · exact isDocument_itemEvent ht h
  · exact isDocument_itemEvent ht h
  · exact isDocument_itemEvent ht h
  · obtain ⟨text, htext, h⟩ := Json.exists_of_bind_eq_ok h
    obtain rfl := Except.ok.inj h
    exact hone _ _ (by decide) (ht.getD "message" (.str _)) htext
  · split at h
    · exact absurd h nofun
    · obtain ⟨text, -, h⟩ := Json.exists_of_bind_eq_ok h
      exact absurd h nofun

/-- The line of an event holds a wire object that describes it. -/
theorem exists_read_of_parse {line : String} (h : parse line = .ok e) :
    ∃ t, Json.read .wire line = .ok (.table t) ∧ ofTable t = .ok e := by
  revert h
  -- Of the four ways to read a line only one gives an event.
  rw [parse]
  split
  · rintro ⟨⟩
  · rintro ⟨⟩
  · next t hread =>
    split
    · next e' hof =>
      rintro ⟨⟩
      exact ⟨t, hread, hof⟩
    · split <;> rintro ⟨⟩
  · rintro ⟨⟩

/-- **The event of a line** is a value that a document may hold, and one of a line if the type of
its item has a meaning. -/
theorem isDocument_of_parse {line : String} (h : parse line = .ok e) :
    e.toValue.IsDocument
      (if e.isKnown then Json.Dialect.wire.maxDepth else Json.Dialect.wire.maxDepth + 1) := by
  obtain ⟨t, hread, hof⟩ := exists_read_of_parse h
  obtain ⟨k, hk, -, -, hvalues⟩ := (Json.isDocument_read hread).parts
  obtain rfl : k = 997 + 2 := (Nat.succ.inj hk).symm
  exact isDocument_of_ofTable hvalues hof

/-! ### Written again

With the fields under their names in the table of an event, making an event of it gives the event.
Where the names in the two directions differ, as for a failed turn, it does not. -/

/-- Whether an event is no failed turn, the one whose members are not those that the agent writes.
-/
def isTurnFailed : Event → Bool
  | .turnFailed _ => true
  | _ => false

/-- An event with a known item is read from the item that it is written with. -/
theorem itemEvent_toValue {i : Item} (h : i.isKnown = true) (stage : ItemStage) {rest : Table} :
    itemEvent ((.str "item", i.toValue) :: rest) stage = .ok (.item stage i) := by
  have hrequire : require ((.str "item", i.toValue) :: rest) "item" = .ok i.toValue := rfl
  rw [itemEvent, hrequire]
  dsimp only [bind, Except.bind]
  rw [Item.parse_toValue h]
  rfl

/-- **An event has itself back** from its members, if it is no failed turn and the type of its item
has a meaning. -/
theorem ofTable_toValue (hknown : e.isKnown = true) (hfailed : e.isTurnFailed = false) :
    ∃ t, e.toValue = .table t ∧ ofTable t = .ok e := by
  -- Each event is written under its own type with what it is read from. One that reports a failed
  -- turn is not: it is read from a table inside.
  cases e with
  | threadStarted id =>
    refine ⟨_, rfl, ?_⟩
    show (do return Event.threadStarted (← textOf id.toValue)) = _
    rw [textOf_toValue]
    rfl
  | turnStarted => exact ⟨_, rfl, rfl⟩
  | turnCompleted usage => exact ⟨_, rfl, rfl⟩
  | turnFailed text => exact absurd hfailed.symm Bool.false_ne_true
  | item stage i =>
    refine ⟨_, rfl, ?_⟩
    cases stage <;> exact itemEvent_toValue hknown _
  | error text =>
    refine ⟨_, rfl, ?_⟩
    show (do return Event.error (← textOf text.toValue)) = _
    rw [textOf_toValue]
    rfl

/-- **An event that is written as a line** is the event of that line, if a line may hold it, it is
no failed turn, the type of its item has a meaning, and it holds no floating-point number and no
text that is no string. -/
theorem parse_of_isDocument {text : String} (hdoc : e.toValue.IsDocument Json.Dialect.wire.maxDepth)
    (hknown : e.isKnown = true) (hfailed : e.isTurnFailed = false)
    (hplain : e.toValue.isPlain = true)
    (hwrite : Json.write .oneLine e.toValue = .ok text) : parse text = .ok e := by
  obtain ⟨t, hvalue, hof⟩ := ofTable_toValue hknown hfailed
  have hread := Json.read_of_write hdoc hplain hwrite
  rw [hvalue] at hread
  rw [parse, hread]
  dsimp only
  rw [hof]

/-- **The event of a line is the event of what is written of it**, under the same conditions. -/
theorem parse_of_write {line text : String} (h : parse line = .ok e) (hknown : e.isKnown = true)
    (hfailed : e.isTurnFailed = false) (hplain : e.toValue.isPlain = true)
    (hwrite : Json.write .oneLine e.toValue = .ok text) : parse text = .ok e := by
  have hdoc := isDocument_of_parse h
  rw [hknown] at hdoc
  exact parse_of_isDocument hdoc hknown hfailed hplain hwrite

end

end Event

end AgentClient
