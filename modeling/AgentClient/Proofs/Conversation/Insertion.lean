import AgentClient.Proofs.Conversation.Acceptance
import AgentClient.Proofs.Wire.EventLines

/-!
# Proofs/Conversation/Insertion — a run passes by what it has no use for

A newer agent may say more than a client understands: that a turn has begun, that an item has got
somewhere, that an item of a type without meaning is complete.  Such an event reports no failure,
announces no id, counts no tokens and is no message (`Event.isBystander`), so whatever is looked for
among the events is found alike with and without it (`MarkedLine.filterMap_ofLines_all`).  A run
then ends alike too, and the only difference is that the items of the inserted lines stand at their
places (`run_all_eq_run_given`). -/

namespace AgentClient

open Wire

/-! ## Items of a type without meaning

The list of types with a meaning is the list of cases of the reader of items. Everything else falls
through to the last case, which looks at the id and keeps the rest. -/

namespace Item

/-- The types of items that have a meaning. -/
def knownTypes : List String :=
  ["agent_message", "reasoning", "command_execution", "file_change", "mcp_tool_call", "web_search",
    "todo_list", "error"]

variable {t data : Table} {id type : WireText} {i : Item} {v w : Value}

/-- What is required is there. -/
theorem get?_of_require {name : String} (h : require t name = .ok v) : t.get? name = some v := by
  rw [require] at h
  cases hget : t.get? name with
  | none =>
    rw [hget] at h
    cases h
  | some w =>
    rw [hget] at h
    exact congrArg some (Except.ok.inj h)

/-- An item of any other type keeps its whole wire object. -/
theorem ofMembers_eq_unknown (h : v ∉ knownTypes.map Value.str) :
    ofMembers t id v = (textOf v).map fun name => .unknown id name t := by
  rw [ofMembers.eq_def]
  split
  all_goals first
    | exact absurd (List.mem_map_of_mem (by simp [knownTypes])) h
    | cases textOf _ <;> rfl

/-- **An item of a type without meaning is accepted**, whatever its other members are. -/
theorem exists_parse_eq_unknown {depth : Nat} (ht : (Value.table t).IsDocument depth)
    (hid : t.get? "id" = some w) (htype : t.get? "type" = some v)
    (hv : v ∉ knownTypes.map Value.str) :
    ∃ id type, textOf w = .ok id ∧ textOf v = .ok type ∧
      parse (.table t) = .ok (.unknown id type t) := by
  -- Any value of a document can be shown as a text, so neither the id nor the type can fail.
  obtain ⟨k, -, -, -, hvalues⟩ := ht.parts
  obtain ⟨id, hw⟩ := (hvalues _ (Table.mem_of_get?_eq_some hid)).exists_textOf
  obtain ⟨type, htext⟩ := (hvalues _ (Table.mem_of_get?_eq_some htype)).exists_textOf
  refine ⟨id, type, hw, htext, ?_⟩
  rw [parse, require, require, htype, hid]
  dsimp only [bind, Except.bind]
  rw [hw]
  dsimp only
  rw [ofMembers_eq_unknown hv, htext]
  rfl

/-- An item of one of these types is none without meaning. -/
theorem isKnown_of_mem_knownTypes (h : ofMembers t id v = .ok i)
    (hv : v ∈ knownTypes.map Value.str) : i.isKnown = true := by
  rw [ofMembers.eq_def] at h
  -- By the type: each known type makes an item of its own, and the last case is that of a type that
  -- is not known.
  split at h
  · obtain rfl := Except.ok.inj h
    rfl
  · obtain rfl := Except.ok.inj h
    rfl
  · obtain ⟨command, -, h⟩ := Json.exists_of_bind_eq_ok h
    obtain rfl := Except.ok.inj h
    rfl
  · obtain ⟨members, -, h⟩ := Json.exists_of_bind_eq_ok h
    obtain ⟨changes, -, h⟩ := Json.exists_of_bind_eq_ok h
    obtain rfl := Except.ok.inj h
    rfl
  · obtain ⟨server, -, h⟩ := Json.exists_of_bind_eq_ok h
    obtain ⟨tool, -, h⟩ := Json.exists_of_bind_eq_ok h
    obtain rfl := Except.ok.inj h
    rfl
  · obtain rfl := Except.ok.inj h
    rfl
  · obtain ⟨members, -, h⟩ := Json.exists_of_bind_eq_ok h
    obtain ⟨entries, -, h⟩ := Json.exists_of_bind_eq_ok h
    obtain rfl := Except.ok.inj h
    rfl
  · obtain rfl := Except.ok.inj h
    rfl
  · simp_all [knownTypes]

/-- An item without meaning is of none of these types, and has kept its whole wire object. -/
theorem eq_unknown_of_parse (h : parse v = .ok i) (hi : i.isKnown = false) :
    ∃ (id type : WireText) (data : Table) (w : Value), v = .table data ∧ data.get? "type" = some w ∧
      w ∉ knownTypes.map Value.str ∧ i = .unknown id type data := by
  cases v with
  | table data =>
    rw [parse] at h
    obtain ⟨w, hw, h⟩ := Json.exists_of_bind_eq_ok h
    obtain ⟨idValue, -, h⟩ := Json.exists_of_bind_eq_ok h
    obtain ⟨id, -, h⟩ := Json.exists_of_bind_eq_ok h
    -- An item of a known type would be known.
    have hmem : w ∉ knownTypes.map Value.str := by
      intro hmem
      rw [isKnown_of_mem_knownTypes h hmem] at hi
      exact absurd hi.symm Bool.false_ne_true
    have hget : Table.get? data "type" = some w := get?_of_require hw
    rw [ofMembers_eq_unknown hmem] at h
    cases htext : textOf w with
    | error f =>
      rw [htext] at h
      cases h
    | ok type =>
      rw [htext] at h
      exact ⟨id, type, data, w, rfl, hget, hmem, (Except.ok.inj h).symm⟩
  | _ => cases h

end Item

/-! ## Events that a run passes by

A run looks for five things among the events: failures, ids, counts, messages and completed items. A
bystander is an event with none of the first four. -/

namespace Event

/-- Whether an event is one that a run passes by: it begins the turn, or gets an item somewhere, or
completes one of a type without meaning. -/
def isBystander : Event → Bool
  | .turnStarted | .item .started _ | .item .updated _ => true
  | .item .completed i => !i.isKnown
  | _ => false

variable {e : Event}

/-- The item of an event is made of a member of the wire object. -/
theorem exists_parse_of_ofTable {t : Table} {stage : ItemStage} {i : Item}
    (h : ofTable t = .ok (.item stage i)) :
    ∃ v, t.get? "item" = some v ∧ Item.parse v = .ok i := by
  have hitem : ∀ {stage'}, itemEvent t stage' = .ok (.item stage i) →
      ∃ v, t.get? "item" = some v ∧ Item.parse v = .ok i := by
    intro stage' h
    rw [itemEvent] at h
    obtain ⟨v, hv, h⟩ := Json.exists_of_bind_eq_ok h
    obtain ⟨i', hi, h⟩ := Json.exists_of_bind_eq_ok h
    obtain ⟨-, rfl⟩ := Event.item.inj (Except.ok.inj h)
    exact ⟨v, Item.get?_of_require hv, hi⟩
  -- the types of events in their order; only those of the three stages give an item
  rw [ofTable, ofMembers.eq_def] at h
  split at h
  · obtain ⟨v, -, h⟩ := Json.exists_of_bind_eq_ok h
    obtain ⟨id, -, h⟩ := Json.exists_of_bind_eq_ok h
    cases h
  · cases h
  · obtain ⟨usage, -, h⟩ := Json.exists_of_bind_eq_ok h
    obtain ⟨input, -, h⟩ := Json.exists_of_bind_eq_ok h
    obtain ⟨cached, -, h⟩ := Json.exists_of_bind_eq_ok h
    obtain ⟨output, -, h⟩ := Json.exists_of_bind_eq_ok h
    cases h
  · obtain ⟨v, -, h⟩ := Json.exists_of_bind_eq_ok h
    obtain ⟨text, -, h⟩ := Json.exists_of_bind_eq_ok h
    cases h
  · exact hitem h
  · exact hitem h
  · exact hitem h
  · obtain ⟨text, -, h⟩ := Json.exists_of_bind_eq_ok h
    cases h
  · split at h
    · cases h
    · obtain ⟨text, -, h⟩ := Json.exists_of_bind_eq_ok h
      cases h

/-- An event that completes an item is the event of that. -/
theorem eq_of_completedItem? {i : Item} (h : e.completedItem? = some i) :
    e = .item .completed i := by
  cases e with
  | item stage i' =>
    cases stage with
    | completed => exact congrArg _ (Option.some.inj h)
    | _ => exact absurd h nofun
  | _ => exact absurd h nofun

/-- What a run looks for among the events is never one that it passes by. -/
theorem eq_none_of_isBystander (h : e.isBystander = true) :
    e.announcedId? = none ∧ e.broughtUsage? = none ∧
      e.completedItem?.bind Turn.messageOf? = none ∧ ∀ id, e.failure? id = none := by
  cases e with
  | turnStarted => exact ⟨rfl, rfl, rfl, fun _ => rfl⟩
  | item stage i =>
    refine ⟨rfl, rfl, ?_, fun _ => rfl⟩
    cases stage with
    | completed => cases i <;> first | rfl | exact absurd h Bool.false_ne_true
    | _ => rfl
  | _ => exact absurd h Bool.false_ne_true

theorem ofLines_nil : ofLines [] = [] :=
  rfl

theorem ofLines_singleton (line : String) : ofLines [line] = (parse line).toOption.toList := by
  rw [ofLines, List.filterMap_cons]
  cases (parse line).toOption <;> rfl

end Event

/-! ## Lines with others inserted among them

A line has a mark that says whether it was inserted. All lines, those without the mark, and the
items of both are then read off one list, and there is no need to speak of positions. -/

/-- A line of an answer, and whether it was inserted into another. -/
structure MarkedLine where
  line : String
  inserted : Bool := false

namespace MarkedLine

/-- The lines of the answer without those that were inserted. -/
def given (xs : List MarkedLine) : List String :=
  (xs.filter (!·.inserted)).map (·.line)

/-- All lines of the answer. -/
def all (xs : List MarkedLine) : List String :=
  xs.map (·.line)

/-- The item that a line completes. -/
def item? (x : MarkedLine) : Option Item :=
  (Event.parse x.line).toOption.bind Event.completedItem?

/-- The items that the lines complete, each marked as its line is. -/
def items (xs : List MarkedLine) : List (Item × Bool) :=
  xs.filterMap fun x => x.item?.map (·, x.inserted)

/-- Whether a line, if it was inserted, is an event that a run passes by. -/
def IsHarmless (x : MarkedLine) : Prop :=
  x.inserted = true → ∃ e, Event.parse x.line = .ok e ∧ e.isBystander = true

instance (x : MarkedLine) : Decidable x.IsHarmless :=
  decidable_of_iff
    (x.inserted = true → (Event.parse x.line).toOption.any Event.isBystander = true) <| by
      rw [IsHarmless]
      cases Event.parse x.line <;> simp [Except.toOption]

variable {xs : List MarkedLine} {x : MarkedLine}

@[simp] theorem all_append (xs ys : List MarkedLine) : all (xs ++ ys) = all xs ++ all ys :=
  List.map_append

@[simp] theorem given_append (xs ys : List MarkedLine) :
    given (xs ++ ys) = given xs ++ given ys := by
  simp [given]

theorem given_cons (x : MarkedLine) (xs : List MarkedLine) :
    given (x :: xs) = (if x.inserted then [] else [x.line]) ++ given xs := by
  cases hx : x.inserted <;> simp [given, hx]

theorem items_cons (x : MarkedLine) (xs : List MarkedLine) :
    items (x :: xs) = (x.item?.map (·, x.inserted)).toList ++ items xs := by
  rw [items, List.filterMap_cons]
  cases x.item? <;> rfl

/-- The events of an inserted line are not found by what finds no bystander. -/
theorem filterMap_ofLines_of_inserted {α : Type} {p : Event → Option α}
    (hp : ∀ e : Event, e.isBystander = true → p e = none) (h : x.IsHarmless)
    (hx : x.inserted = true) : (Event.ofLines [x.line]).filterMap p = [] := by
  obtain ⟨e, hparse, he⟩ := h hx
  simp [Event.ofLines, hparse, Except.toOption, hp e he]

/-- **What no bystander has is found alike** with and without the inserted lines. -/
theorem filterMap_ofLines_all {α : Type} {p : Event → Option α}
    (hp : ∀ e : Event, e.isBystander = true → p e = none) (h : ∀ x ∈ xs, x.IsHarmless) :
    (Event.ofLines (all xs)).filterMap p = (Event.ofLines (given xs)).filterMap p := by
  induction xs with
  | nil => rfl
  | cons x xs ih =>
    rw [List.forall_mem_cons] at h
    rw [← List.singleton_append, all_append, given_append, Event.ofLines_append,
      Event.ofLines_append, List.filterMap_append, List.filterMap_append, ih h.2]
    cases hx : x.inserted with
    | true => simp [all, given, hx, Event.ofLines_nil, filterMap_ofLines_of_inserted hp h.1 hx]
    | false => simp [all, given, hx]

/-- All completed items are those that the lines complete. -/
theorem completed_all (xs : List MarkedLine) :
    (Event.ofLines (all xs)).filterMap Event.completedItem? = (items xs).map Prod.fst := by
  rw [Event.ofLines, all, List.filterMap_map, List.filterMap_filterMap, items, List.map_filterMap]
  refine List.filterMap_congr fun x _ => ?_
  rw [Option.map_map]
  exact Option.map_id'.symm

/-- Without the inserted lines they are those that have no mark. -/
theorem completed_given (xs : List MarkedLine) :
    (Event.ofLines (given xs)).filterMap Event.completedItem?
      = ((items xs).filter (!·.2)).map Prod.fst := by
  induction xs with
  | nil => rfl
  | cons x xs ih =>
    rw [given_cons, items_cons, Event.ofLines_append, List.filterMap_append, ih, List.filter_append,
      List.map_append]
    congr 1
    -- A line that is inserted is in neither list; any other adds its item to both, or to neither.
    cases hx : x.inserted with
    | true => cases x.item? <;> simp [Event.ofLines_nil]
    | false =>
      rw [item?, if_neg Bool.false_ne_true, Event.ofLines_singleton]
      cases (Event.parse x.line).toOption with
      | none => rfl
      | some e => cases he : e.completedItem? <;> simp [he]

/-- Without the inserted lines a turn adds up to the same but for the items. -/
theorem addAll_all (h : ∀ x ∈ xs, x.IsHarmless) (t : Turn) :
    t.addAll (Event.ofLines (all xs))
      = { t.addAll (Event.ofLines (given xs)) with
          items := t.items ++ (items xs).map Prod.fst } := by
  have husage := filterMap_ofLines_all (fun e he => (Event.eq_none_of_isBystander he).2.1) h
  have hmessage := filterMap_ofLines_all (fun e he => (Event.eq_none_of_isBystander he).2.2.1) h
  simp only [Turn.addAll, List.filterMap_filterMap, husage, hmessage]
  rw [completed_all]

/-- Without the inserted lines a thread has the same id behind them. -/
theorem idAfter_all (h : ∀ x ∈ xs, x.IsHarmless) {s s' : Scene} (hthread : s'.thread = s.thread) :
    s'.idAfter (all xs) = s.idAfter (given xs) := by
  rw [Scene.idAfter, Scene.idAfter, hthread,
    filterMap_ofLines_all (fun e he => (Event.eq_none_of_isBystander he).1) h]

/-- No inserted line fails a turn. -/
theorem failsTurn_of_inserted (h : x.IsHarmless) (hx : x.inserted = true) :
    Event.failsTurn x.line = false := by
  obtain ⟨e, hparse, he⟩ := h hx
  rw [Event.failsTurn, hparse]
  cases e with
  | turnFailed text | error text => exact absurd he Bool.false_ne_true
  | _ => rfl

/-- Either no line fails a turn, or there is a first one that does, and it was not inserted. -/
theorem forall_failsTurn_or (h : ∀ x ∈ xs, x.IsHarmless) :
    (∀ x ∈ xs, Event.failsTurn x.line = false) ∨
      ∃ before x after, xs = before ++ x :: after ∧ x.inserted = false ∧
        Event.failsTurn x.line = true ∧ ∀ y ∈ before, Event.failsTurn y.line = false := by
  cases hfind : xs.find? fun x => Event.failsTurn x.line with
  | none => exact .inl fun x hx => by simpa using List.find?_eq_none.mp hfind x hx
  | some x =>
    obtain ⟨hx, before, after, rfl, hbefore⟩ := List.find?_eq_some_iff_append.mp hfind
    refine .inr ⟨before, x, after, rfl, ?_, hx, fun y hy => by simpa using hbefore y hy⟩
    by_contra hins
    have hfails := failsTurn_of_inserted (h x (by simp)) (by simpa using hins)
    exact absurd (hfails.symm.trans hx) Bool.false_ne_true

theorem forall_mem_all (h : ∀ x ∈ xs, Event.failsTurn x.line = false) :
    ∀ l ∈ all xs, Event.failsTurn l = false := by
  simpa [all] using h

theorem forall_mem_given (h : ∀ x ∈ xs, Event.failsTurn x.line = false) :
    ∀ l ∈ given xs, Event.failsTurn l = false := by
  simp only [given, List.forall_mem_map, List.mem_filter]
  exact fun x hx => h x hx.1

/-- The result of a turn with the items of these lines. -/
def withItems (xs : List MarkedLine) (t : Turn) : Turn :=
  { t with items := (items xs).map Prod.fst }

/-- A check looks at no items. -/
theorem check_withItems (xs : List MarkedLine) (t : Turn) (model : Option RecordModel) :
    (withItems xs t).check model = (t.check model).map (withItems xs) := by
  cases model with
  | none => rfl
  | some m =>
    dsimp only [Turn.check, withItems]
    cases m.validate t.finalResponse <;> rfl

/-- Checking the result does not touch the items. -/
theorem items_of_check {t u : Turn} {model : Option RecordModel} (h : t.check model = .ok u) :
    u.items = t.items := by
  cases model with
  | none => rw [Except.ok.inj h]
  | some m =>
    rw [Turn.check] at h
    obtain ⟨record, -, h⟩ := Json.exists_of_bind_eq_ok h
    rw [← Except.ok.inj h]

variable {s s' : Scene} {input : Input} {options : TurnOptions}

/-- **An accepted turn with lines inserted** ends as the one without them, but for the items. -/
theorem run_all_of_accepted (h : ∀ x ∈ xs, x.IsHarmless) (hthread : s'.thread = s.thread)
    (a : Accepted s input options) (a' : Accepted s' input options) (hgiven : a.lines = given xs)
    (hall : a'.lines = all xs) (hending : a'.ending = a.ending) :
    (s'.run input options).1 = (s.run input options).1.map (withItems xs) ∧
      (∀ t, (s.run input options).1 = .ok t → t.items = ((items xs).filter (!·.2)).map Prod.fst) ∧
      (s'.run input options).2.thread = (s.run input options).2.thread := by
  have hschema : a'.schema = a.schema := Except.ok.inj (a'.resolve_eq.symm.trans a.resolve_eq)
  -- Either no line makes the turn fail, and both turns have all their lines; or the first that does
  -- is given, and both fail at it.
  rcases forall_failsTurn_or h with hlines | ⟨before, x, after, rfl, hx, hfails, hbefore⟩
  · obtain ⟨hrun, hid⟩ := a.run_of_not_failsTurn (hgiven ▸ forall_mem_given hlines)
    obtain ⟨hrun', hid'⟩ := a'.run_of_not_failsTurn (hall ▸ forall_mem_all hlines)
    rw [hrun, hid, hrun', hid', hending, hschema, hgiven, hall, idAfter_all h hthread, hthread,
      addAll_all h]
    refine ⟨?_, fun t ht => ?_, rfl⟩
    · cases a.ending with
      | some f => rfl
      | none => exact check_withItems xs _ a.schema.model
    · cases hnone : a.ending with
      | some f =>
        rw [hnone] at ht
        cases ht
      | none =>
        rw [hnone] at ht
        rw [items_of_check ht, Turn.addAll, completed_given]
        rfl
  · obtain ⟨f, hf⟩ := Event.exists_lineFailure hfails (s.idAfter (given before))
    have hbelow : ∀ y ∈ before, y.IsHarmless := fun y hy => h y (List.mem_append_left _ hy)
    have hid := idAfter_all hbelow hthread
    have hlines : a.lines = given before ++ x.line :: given after := by
      rw [hgiven, given_append, given_cons, hx]
      rfl
    have hlines' : a'.lines = all before ++ x.line :: all after := hall.trans (all_append _ _)
    obtain ⟨hrun, hrest⟩ := a.run_of_failsTurn hlines (forall_mem_given hbefore) hf
    obtain ⟨hrun', hrest'⟩ := a'.run_of_failsTurn hlines' (forall_mem_all hbefore) (hid ▸ hf)
    rw [hrun, hrun', hrest, hrest', hid, hthread]
    refine ⟨rfl, fun t ht => ?_, rfl⟩
    cases ht

/-- **An inserted line that completes an item** completes one of a type without meaning, which keeps
its whole wire object. -/
theorem eq_unknown_of_inserted (h : x.IsHarmless) (hx : x.inserted = true) {i : Item}
    (hi : x.item? = some i) :
    ∃ (id type : WireText) (whole data : Table) (v : Value),
      Json.read .wire x.line = .ok (.table whole) ∧ whole.get? "item" = some (.table data) ∧
        data.get? "type" = some v ∧ v ∉ Item.knownTypes.map Value.str ∧
        i = .unknown id type data := by
  obtain ⟨e, hparse, he⟩ := h hx
  have hcompleted : e = .item .completed i := by
    rw [item?, hparse] at hi
    exact Event.eq_of_completedItem? hi
  subst hcompleted
  obtain ⟨whole, hread, hof⟩ := Event.exists_read_of_parse hparse
  obtain ⟨v, hv, hitem⟩ := Event.exists_parse_of_ofTable hof
  -- The line is harmless, so the item that it completes is of no known type.
  have hknown : i.isKnown = false := by simpa [Event.isBystander] using he
  obtain ⟨id, type, data, w, rfl, hw, hmem, rfl⟩ := Item.eq_unknown_of_parse hitem hknown
  exact ⟨id, type, whole, data, w, hread, hv, hw, hmem, rfl⟩

end MarkedLine

open MarkedLine in
/-- **A run passes by what it has no use for.**  With lines inserted into an answer that say that
the turn has begun, that an item has got somewhere, or that one of a type without meaning is
complete, the run fails as it does without them; otherwise it gives the same, but for the items:
those of the inserted lines stand among the others at their places.  They hold their whole wire
objects, and every object with an id and such a type is accepted as one. -/
theorem run_all_eq_run_given {xs : List MarkedLine} {s s' : Scene} {input : Input}
    {options : TurnOptions} {ending : Option Failure} (h : ∀ x ∈ xs, x.IsHarmless)
    (hthread : s'.thread = s.thread)
    (hgiven : ∀ a : Accepted s input options, a.lines = given xs ∧ a.ending = ending)
    (hall : ∀ a : Accepted s' input options, a.lines = all xs ∧ a.ending = ending) :
    (∀ f, (s'.run input options).1 = .error f ↔ (s.run input options).1 = .error f) ∧
    (∀ t, (s.run input options).1 = .ok t →
      t.items = ((items xs).filter (!·.2)).map Prod.fst ∧
      ∃ t', (s'.run input options).1 = .ok t' ∧ t'.items = (items xs).map Prod.fst ∧
        t'.finalResponse = t.finalResponse ∧ t'.usage = t.usage ∧ t'.parsed = t.parsed) ∧
    (s'.run input options).2.thread = (s.run input options).2.thread ∧
    (∀ x ∈ xs, x.inserted = true → ∀ i, x.item? = some i →
      ∃ (id type : WireText) (whole data : Table) (v : Value),
        Json.read .wire x.line = .ok (.table whole) ∧ whole.get? "item" = some (.table data) ∧
          data.get? "type" = some v ∧ v ∉ Item.knownTypes.map Value.str ∧
          i = .unknown id type data) ∧
    (∀ (depth : Nat) (t : Table) (v w : Value), (Value.table t).IsDocument depth →
      t.get? "id" = some w → t.get? "type" = some v → v ∉ Item.knownTypes.map Value.str →
        ∃ id type, textOf w = .ok id ∧ textOf v = .ok type ∧
          Item.parse (.table t) = .ok (.unknown id type t)) := by
  have hruns : (s'.run input options).1 = (s.run input options).1.map (withItems xs) ∧
      (∀ t, (s.run input options).1 = .ok t →
        t.items = ((items xs).filter (!·.2)).map Prod.fst) ∧
      (s'.run input options).2.thread = (s.run input options).2.thread := by
    -- A turn that is refused is so before any line, and alike for both; an accepted one has the
    -- lines that are given.
    rcases hquestion : s.thread.question "" input options with f | q
    · obtain ⟨f', hf⟩ := Scene.exists_run_eq_error hquestion
      rw [(hf s rfl).1, (hf s rfl).2.1, (hf s' hthread).1, (hf s' hthread).2.1]
      exact ⟨rfl, fun t ht => absurd ht nofun, rfl⟩
    · obtain ⟨a⟩ := Scene.exists_accepted hquestion
      obtain ⟨a'⟩ := Scene.exists_accepted (hthread ▸ hquestion : s'.thread.question _ _ _ = _)
      exact run_all_of_accepted h hthread a a' (hgiven a).1 (hall a').1
        ((hall a').2.trans (hgiven a).2.symm)
  obtain ⟨hrun, hitems, hafter⟩ := hruns
  refine ⟨fun f => ?_, fun t ht => ?_, hafter,
    fun x hx hins i => eq_unknown_of_inserted (h x hx) hins,
    fun depth t v w => Item.exists_parse_eq_unknown⟩
  · rw [hrun]
    cases (s.run input options).1 <;> simp [Except.map]
  · rw [hrun, ht]
    exact ⟨hitems t ht, _, rfl, rfl, rfl, rfl, rfl⟩

/-- An answer of a newer agent; an older one would have given the lines without a mark. -/
def newerAnswer : List MarkedLine :=
  [⟨"\x7b\"type\":\"thread.started\",\"thread_id\":\"t1\"\x7d", false⟩,
   ⟨"\x7b\"type\":\"turn.started\"\x7d", true⟩,
   ⟨"\x7b\"type\":\"item.completed\",\"item\":\x7b\"id\":9,\"type\":7\x7d\x7d", true⟩,
   ⟨"\x7b\"type\":\"item.completed\",\"item\":\x7b\"id\":\"i1\",\"type\":\"agent_message\",\"text\":\"hi\"\x7d\x7d",
    false⟩]

/-- A new conversation with an agent that has these lines to give. -/
def conversationOf (lines : List String) : Scene :=
  ⟨.inMemory { environment := [], files := [], schemaDirectory := "/tmp/schemas" }
    {} [{ lines }], {}⟩

/-- The item of type 7 stands before the message, with its wire object. -/
theorem run_newerAnswer :
    ∃ t', ((conversationOf (MarkedLine.all newerAnswer)).run (.text "go") {}).1 = .ok t' ∧
      t'.finalResponse = .str "hi" ∧
      t'.items = [.unknown (.plain "9") (.plain "7") [(.str "id", .int 9), (.str "type", .int 7)],
        .agentMessage (.plain "i1") (.str "hi")] := by
  have hlines : ∀ lines (a : Accepted (conversationOf lines) (.text "go") {}),
      a.lines = lines ∧ a.ending = none := fun _ a => a.lines_of_memory rfl
  have hharmless : ∀ x ∈ newerAnswer, x.IsHarmless := by decide +kernel
  have hthread : (conversationOf (MarkedLine.all newerAnswer)).thread
      = (conversationOf (MarkedLine.given newerAnswer)).thread := rfl
  have hrun := run_all_eq_run_given hharmless hthread (hlines (MarkedLine.given newerAnswer))
    (hlines (MarkedLine.all newerAnswer))
  have hgiven : ((conversationOf (MarkedLine.given newerAnswer)).run (.text "go") {}).1
      = .ok { items := [.agentMessage (.plain "i1") (.str "hi")], finalResponse := .str "hi" } := by
    decide +kernel
  obtain ⟨-, t', ht', hitems, hresponse, -⟩ := hrun.2.1 _ hgiven
  refine ⟨t', ht', hresponse, hitems.trans ?_⟩
  decide +kernel

end AgentClient
