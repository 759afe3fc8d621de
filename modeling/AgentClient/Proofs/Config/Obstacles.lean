import AgentClient.Config.Flatten
import AgentClient.Proofs.Number.Magnitude
import AgentClient.Value.Table

/-!
# Proofs/Config/Obstacles — which configurations can be written, and what is reported of the others

A configuration is gone through depth first and from left to right, every key before its value:
`tour` lists what is come upon, and each key and each value inside is in it at its own place
(`mem_tour_iff`).  What is wrong with one of them is seen from itself (`Spot.failure?`).  Writing
agrees with the tour part by part (`decidedBy_flattenValue`), so a configuration is written exactly
if nothing is wrong anywhere, and the failure is else that of the first spot with one
(`overrides_outcome`). -/

namespace AgentClient.Config

open Number

/-! ## Places

A place is the list of steps that lead to it from the top. Its text is what a failure reports; two
places may have the same text, since a key may hold points and brackets, so places are told apart by
their steps. -/

/-- A step from a value to a part of it. -/
inductive PathStep where
  /-- To the value under a key of a table. -/
  | entry (key : Value)
  /-- To a member of a sequence. -/
  | member (index : Nat)

/-- A place in a configuration: the steps to it from the top. -/
abbrev Place := List PathStep

/-- The text of a place one step further on: a key stands behind a point unless it is the first
step, an index in brackets. -/
def PathStep.behind (path : String) : PathStep → String
  | .entry key => if path = "" then key.asText.toString else path ++ "." ++ key.asText.toString
  | .member index => path ++ "[" ++ toString index ++ "]"

/-- The text of a place. -/
def Place.text (place : Place) : String :=
  place.foldl PathStep.behind ""

theorem Place.text_concat (place : Place) (step : PathStep) :
    Place.text (place ++ [step]) = step.behind place.text :=
  List.foldl_concat ..

/-- **What a value holds** at a place: itself at the top, and what its entries and members hold. -/
inductive Holds : Value → Place → Value → Prop where
  | here (v : Value) : Holds v [] v
  | entry {entries : Table} {key w v : Value} {place : Place} (hmem : (key, w) ∈ entries)
      (hw : Holds w place v) : Holds (.table entries) (.entry key :: place) v
  | member {whole w v : Value} {items : List Value} {index : Nat} {place : Place}
      (hwhole : whole = .list items ∨ whole = .tuple items) (hget : items[index]? = some w)
      (hw : Holds w place v) : Holds whole (.member index :: place) v

/-! ## What can be written

This says which configurations are fit, and does not mention writing them: there is no order in it,
and nothing in it depends on where a value stands. -/

/-- Whether a key is a text, and not the empty one. -/
def isNonemptyText (key : Value) : Bool :=
  key.text?.any (· ≠ .plain "")

/-- A value that nothing is wrong with, its parts apart. -/
inductive IsWritable : Value → Prop where
  | str (s : String) : IsWritable (.str s)
  | broken (points : List Nat) : IsWritable (.broken points)
  | bool (b : Bool) : IsWritable (.bool b)
  | int {n : Int} (hn : digitCount n.natAbs ≤ maxDigits) : IsWritable (.int n)
  | float {x : Binary64} (hx : x.isFinite = true) : IsWritable (.float x)
  | list (items : List Value) : IsWritable (.list items)
  | tuple (items : List Value) : IsWritable (.tuple items)
  | table (entries : Table) : IsWritable (.table entries)

/-- **A configuration that can be written**: a table in which all keys are texts that are not empty,
and nothing is wrong with any value. -/
structure IsConfiguration (config : Value) : Prop where
  isTable : ∃ entries, config = .table entries
  keys : ∀ {place entries}, Holds config place (.table entries) →
    ∀ e ∈ entries, isNonemptyText e.1 = true
  values : ∀ {place v}, Holds config place v → IsWritable v

/-! ## The tour

The tour is where the order comes in. It lists values with their places and computes no text, so it
can be compared with the configuration on one side and with the writer on the other. -/

/-- What is come upon on a tour of a configuration. -/
inductive Spot where
  /-- A key of the table at a place. -/
  | key (place : Place) (k : Value)
  /-- A value at a place. -/
  | value (place : Place) (v : Value)

/-- What is wrong with a value at a place, its parts apart. -/
def valueFailure? (place : Place) : Value → Option Failure
  | .null => some (.client (.config (.nullValue place.text)))
  | .int n => if maxDigits < digitCount n.natAbs then some (.fault .overlongInt) else none
  | .float x => if x.isFinite then none else some (.client (.config (.notFinite place.text)))
  | .model m => some (.client (.config (.unsupported place.text (Value.model m).typeName)))
  | .foreign name => some (.client (.config (.unsupported place.text name)))
  | _ => none

/-- **What is wrong with a spot.** -/
def Spot.failure? : Spot → Option Failure
  | .key _ k => if isNonemptyText k then none else some (.client (.config .badKey))
  | .value place v => valueFailure? place v

mutual

/-- **The tour of a value** at a place: the value, and then its parts from left to right. -/
def tour (place : Place) : Value → List Spot
  | .list items => .value place (.list items) :: tourItems place 0 items
  | .tuple items => .value place (.tuple items) :: tourItems place 0 items
  | .table entries => .value place (.table entries) :: tourEntries place entries
  | v => [.value place v]

/-- The tours of the members of a sequence from an index on. -/
def tourItems (place : Place) (index : Nat) : List Value → List Spot
  | [] => []
  | v :: vs => tour (place ++ [.member index]) v ++ tourItems place (index + 1) vs

/-- The tours of the entries of a table, each key before its value. -/
def tourEntries (place : Place) : List (Value × Value) → List Spot
  | [] => []
  | (key, v) :: rest => .key place key :: (tour (place ++ [.entry key]) v ++ tourEntries place rest)

end

/-! ## What is on the tour

A failure is reported for a spot on the tour, so the tour must neither leave out a key or a value
nor come upon anything else. -/

/-- A spot of a value that stands at a place. -/
def Spot.IsIn (whole : Value) (start : Place) : Spot → Prop
  | .key place k =>
    ∃ q entries w, place = start ++ q ∧ Holds whole q (.table entries) ∧ (k, w) ∈ entries
  | .value place v => ∃ q, place = start ++ q ∧ Holds whole q v

/-- A spot of a part is a spot of the whole, one step further down. -/
theorem Spot.IsIn.of_step {whole w : Value} {start : Place} {step : PathStep} {spot : Spot}
    (hstep : ∀ {q : Place} {v : Value}, Holds w q v → Holds whole (step :: q) v)
    (h : spot.IsIn w (start ++ [step])) : spot.IsIn whole start := by
  cases spot with
  | key place key =>
    obtain ⟨q, entries, u, rfl, hq, hmem⟩ := h
    exact ⟨step :: q, entries, u, List.append_cons .. ▸ rfl, hstep hq, hmem⟩
  | value place v =>
    obtain ⟨q, rfl, hq⟩ := h
    exact ⟨step :: q, List.append_cons .. ▸ rfl, hstep hq⟩

theorem head_mem_tour (place : Place) (v : Value) : Spot.value place v ∈ tour place v := by
  cases v <;> exact List.mem_cons_self

mutual

/-- Every spot of the tour is in the value, at the place that it names. -/
theorem isIn_of_mem_tour : ∀ (v : Value) {start : Place} {spot : Spot},
    spot ∈ tour start v → spot.IsIn v start
  | .list items, start, spot, h => by
    rcases List.mem_cons.mp h with rfl | h
    · exact ⟨[], (List.append_nil _).symm, .here _⟩
    · obtain ⟨index, w, hget, hin⟩ := exists_of_mem_tourItems items h
      rw [Nat.zero_add] at hin
      exact hin.of_step (.member (.inl rfl) hget)
  | .tuple items, start, spot, h => by
    rcases List.mem_cons.mp h with rfl | h
    · exact ⟨[], (List.append_nil _).symm, .here _⟩
    · obtain ⟨index, w, hget, hin⟩ := exists_of_mem_tourItems items h
      rw [Nat.zero_add] at hin
      exact hin.of_step (.member (.inr rfl) hget)
  | .table entries, start, spot, h => by
    rcases List.mem_cons.mp h with rfl | h
    · exact ⟨[], (List.append_nil _).symm, .here _⟩
    · obtain ⟨key, w, hmem, rfl | hin⟩ := exists_of_mem_tourEntries entries h
      · exact ⟨[], entries, w, (List.append_nil _).symm, .here _, hmem⟩
      · exact hin.of_step (.entry hmem)
  | .null, _, _, h | .bool _, _, _, h | .int _, _, _, h | .float _, _, _, h | .str _, _, _, h
  | .broken _, _, _, h | .model _, _, _, h | .foreign _, _, _, h =>
    List.mem_singleton.mp h ▸ ⟨[], (List.append_nil _).symm, .here _⟩

/-- A spot of the items is in one of them, at its index. -/
theorem exists_of_mem_tourItems : ∀ (items : List Value) {start : Place} {n : Nat} {spot : Spot},
    spot ∈ tourItems start n items →
      ∃ i w, items[i]? = some w ∧ spot.IsIn w (start ++ [.member (n + i)])
  | [], _, _, _, h => absurd h List.not_mem_nil
  | v :: vs, start, n, spot, h => by
    rw [tourItems] at h
    rcases List.mem_append.mp h with h | h
    · exact ⟨0, v, rfl, isIn_of_mem_tour v h⟩
    · obtain ⟨i, w, hget, hin⟩ := exists_of_mem_tourItems vs h
      rw [Nat.add_assoc, Nat.add_comm 1 i] at hin
      exact ⟨i + 1, w, hget, hin⟩

/-- A spot of the entries is a key, or is in the value of one. -/
theorem exists_of_mem_tourEntries :
    ∀ (entries : List (Value × Value)) {start : Place} {spot : Spot},
    spot ∈ tourEntries start entries →
      ∃ key w, (key, w) ∈ entries ∧
        (spot = .key start key ∨ spot.IsIn w (start ++ [.entry key]))
  | [], _, _, h => absurd h List.not_mem_nil
  | (key, v) :: rest, start, spot, h => by
    rw [tourEntries] at h
    -- The key comes first, then what is under it, then the entries behind it.
    rcases List.mem_cons.mp h with rfl | h
    · exact ⟨key, v, List.mem_cons_self, .inl rfl⟩
    · rcases List.mem_append.mp h with h | h
      · exact ⟨key, v, List.mem_cons_self, .inr (isIn_of_mem_tour v h)⟩
      · obtain ⟨other, w, hmem, hspot⟩ := exists_of_mem_tourEntries rest h
        exact ⟨other, w, List.mem_cons_of_mem _ hmem, hspot⟩

end

/-- The tour of the items goes through each of them. -/
theorem tour_subset_tourItems {items : List Value} {i : Nat} {w : Value} (h : items[i]? = some w)
    (start : Place) (n : Nat) : tour (start ++ [.member (n + i)]) w ⊆ tourItems start n items := by
  induction items generalizing i n with
  | nil => exact absurd h nofun
  | cons v vs ih =>
    rw [tourItems]
    cases i with
    | zero =>
      obtain rfl := Option.some.inj h
      exact List.subset_append_left _ _
    | succ i =>
      rw [← Nat.add_assoc, Nat.add_right_comm]
      exact List.Subset.trans (ih h (n + 1)) (List.subset_append_right _ _)

/-- The tour of the entries goes to each key and through what is under it. -/
theorem cons_tour_subset_tourEntries {entries : Table} {key w : Value} (h : (key, w) ∈ entries)
    (start : Place) :
    .key start key :: tour (start ++ [.entry key]) w ⊆ tourEntries start entries := by
  induction entries with
  | nil => exact absurd h List.not_mem_nil
  | cons e entries ih =>
    obtain ⟨first, v⟩ := e
    rw [tourEntries]
    rcases List.mem_cons.mp h with heq | h
    · obtain ⟨rfl, rfl⟩ := Prod.mk.inj heq
      exact List.cons_subset_cons _ (List.subset_append_left _ _)
    · exact List.Subset.trans (ih h)
        (List.Subset.trans (List.subset_append_right _ _) (List.subset_cons_self _ _))

/-- The tour of a part is on the tour of the whole. -/
theorem tour_subset_of_holds {whole v : Value} {q : Place} (h : Holds whole q v) (start : Place) :
    tour (start ++ q) v ⊆ tour start whole := by
  -- Down the place, a step at a time.
  induction h generalizing start with
  | here v => rw [List.append_nil]; exact List.Subset.refl _
  | @entry entries key w v q hmem _ ih =>
    rw [List.append_cons]
    have hentry := List.subset_of_cons_subset (cons_tour_subset_tourEntries hmem start)
    exact List.Subset.trans (ih _) (List.Subset.trans hentry (List.subset_cons_self _ _))
  | @member whole w v items index q hwhole hget _ ih =>
    rw [List.append_cons]
    have hitems := tour_subset_tourItems hget start 0
    rw [Nat.zero_add] at hitems
    refine List.Subset.trans (ih _) (List.Subset.trans hitems ?_)
    rcases hwhole with rfl | rfl <;> exact List.subset_cons_self _ _

/-- **The tour comes upon every key and every value**, each at its place, and upon nothing else. -/
theorem mem_tour_iff {whole : Value} {start : Place} {spot : Spot} :
    spot ∈ tour start whole ↔ spot.IsIn whole start := by
  refine ⟨isIn_of_mem_tour whole, fun h => ?_⟩
  cases spot with
  | key place key =>
    obtain ⟨q, entries, w, rfl, hq, hmem⟩ := h
    refine tour_subset_of_holds hq start (List.mem_cons_of_mem _ ?_)
    exact cons_tour_subset_tourEntries hmem _ List.mem_cons_self
  | value place v =>
    obtain ⟨q, rfl, hq⟩ := h
    exact tour_subset_of_holds hq start (head_mem_tour _ v)

/-! ## Writing agrees with the tour

The writer stops at its first failure and puts texts together on the way. `DecidedBy` forgets the
texts: it says that a computation has the failure of the first bad spot of a list, or else succeeds.
That is kept by doing one thing after another when the lists are put one behind the other, so the
proofs follow the writer clause by clause. -/

/-- The failure of the first spot with one. -/
def firstFailure? (spots : List Spot) : Option Failure :=
  spots.findSome? Spot.failure?

/-- A result that is decided by what may be wrong: a failure if there is one, else a success. -/
def DecidedBy {α : Type} (x : Except Failure α) : Option Failure → Prop
  | none => ∃ a, x = .ok a
  | some f => x = .error f

namespace DecidedBy

variable {α β : Type} {x : Except Failure α} {g : α → Except Failure β} {o o' : Option Failure}

/-- **One thing after another** fails with the first failure of the two. -/
theorem bind (hx : DecidedBy x o) (hg : ∀ a, x = .ok a → DecidedBy (g a) o') :
    DecidedBy (x >>= g) (o.or o') := by
  cases o with
  | none =>
    obtain ⟨a, rfl⟩ := hx
    exact hg a rfl
  | some f =>
    obtain rfl : x = .error f := hx
    exact rfl

theorem pure (a : α) : DecidedBy (Pure.pure a) none :=
  ⟨a, rfl⟩

/-- What is done with a success decides nothing. -/
theorem map (hx : DecidedBy x o) (g : α → β) : DecidedBy (do return g (← x)) o := by
  rw [← o.or_none]
  exact hx.bind fun a _ => .pure (g a)

end DecidedBy

/-- Whether a key can be written is decided by the key alone: it is a text that is not empty. -/
theorem decidedBy_keyName (place : Place) (key : Value) :
    DecidedBy (keyName key) (Spot.key place key).failure? := by
  cases key with
  | str s =>
    by_cases hs : s = ""
    -- The empty text is the only text that is refused.
    · subst hs
      exact rfl
    · have hfine : isNonemptyText (.str s) = true :=
        decide_eq_true fun h => hs (WireText.plain.inj h)
      rw [Spot.failure?, if_pos hfine, keyName, keyName?, if_neg hs]
      exact ⟨_, rfl⟩
  | broken points => exact ⟨_, rfl⟩
  | _ => exact rfl

/-- A key that is a name is written as the text that it is. -/
theorem eq_asText_of_keyName {key : Value} {name : String} (h : keyName key = .ok name) :
    name = key.asText.toString := by
  revert h
  cases key with
  | str s =>
    rw [keyName, keyName?]
    split_ifs with hs
    · rintro ⟨⟩
    · rintro ⟨⟩
      rfl
  | broken points =>
    rintro ⟨⟩
    rfl
  | _ => rintro ⟨⟩

/-- An entry is decided by its key, and behind that by what is done with the name. -/
theorem decidedBy_entry {α : Type} {place : Place} {key : Value} {g : String → Except Failure α}
    {o : Option Failure} (hg : DecidedBy (g key.asText.toString) o) :
    DecidedBy (keyName key >>= g) ((Spot.key place key).failure?.or o) :=
  (decidedBy_keyName place key).bind fun _ hname => eq_asText_of_keyName hname ▸ hg

theorem firstFailure?_cons (spot : Spot) (spots : List Spot) :
    firstFailure? (spot :: spots) = spot.failure?.or (firstFailure? spots) := by
  rw [firstFailure?, List.findSome?_cons]
  cases spot.failure? <;> rfl

theorem firstFailure?_singleton (spot : Spot) : firstFailure? [spot] = spot.failure? := by
  rw [firstFailure?_cons]
  exact Option.or_none

theorem firstFailure?_append (spots more : List Spot) :
    firstFailure? (spots ++ more) = (firstFailure? spots).or (firstFailure? more) :=
  List.findSome?_append

theorem itemPath_ne_empty (path : String) (index : Nat) : itemPath path index ≠ "" :=
  fun h => absurd (String.append_eq_empty_iff.mp h).2 (by decide)

theorem entryPath_ne_empty (path name : String) : entryPath path name ≠ "" :=
  fun h => absurd (String.append_eq_empty_iff.mp (String.append_eq_empty_iff.mp h).1).2 (by decide)

/-- A whole number is written if it has not too many digits. -/
theorem decidedBy_int (place : Place) (n : Int) :
    DecidedBy (toml place.text (.int n)) (valueFailure? place (.int n)) := by
  rw [toml, valueFailure?]
  cases hlong : isOverlong n with
  | true =>
    have hmany : ¬digitCount n.natAbs ≤ maxDigits := by rw [digitCount_le_iff, hlong]; nofun
    rw [if_pos (Nat.lt_of_not_le hmany)]
    exact rfl
  | false =>
    rw [if_neg (Nat.not_lt_of_le (digitCount_le_iff.mpr hlong))]
    exact ⟨_, rfl⟩

/-- A floating-point number is written if it is finite. -/
theorem decidedBy_float (place : Place) (x : Binary64) :
    DecidedBy (toml place.text (.float x)) (valueFailure? place (.float x)) := by
  rw [toml, valueFailure?]
  cases x.isFinite with
  | true => exact ⟨_, rfl⟩
  | false => exact rfl

mutual

/-- **A value is written exactly if there is nothing wrong on its tour**; a table must not stand at
the top, where there is no path yet. -/
theorem decidedBy_toml : ∀ (v : Value) {place : Place},
    (∀ entries, v = .table entries → place.text ≠ "") →
      DecidedBy (toml place.text v) (firstFailure? (tour place v))
  | .list items, _, _ => (decidedBy_tomlItems items).map _
  | .tuple items, _, _ => (decidedBy_tomlItems items).map _
  | .table entries, _, h => (decidedBy_tomlEntries entries (h entries rfl)).map _
  | .int n, place, _ => firstFailure?_singleton _ ▸ decidedBy_int place n
  | .float x, place, _ => firstFailure?_singleton _ ▸ decidedBy_float place x
  | .null, _, _ | .model _, _, _ | .foreign _, _, _ => rfl
  | .bool true, _, _ | .bool false, _, _ | .str _, _, _ | .broken _, _, _ => ⟨_, rfl⟩

/-- Items are written one after another, each under its index. -/
theorem decidedBy_tomlItems : ∀ (items : List Value) {place : Place} {n : Nat},
    DecidedBy (tomlItems place.text n items) (firstFailure? (tourItems place n items))
  | [], _, _ => ⟨_, rfl⟩
  | v :: vs, place, n => by
    have hpath : itemPath place.text n = Place.text (place ++ [.member n]) :=
      (place.text_concat (.member n)).symm
    rw [tourItems, firstFailure?_append, tomlItems, hpath]
    refine (decidedBy_toml v fun _ _ => ?_).bind fun _ _ => (decidedBy_tomlItems vs).map _
    exact hpath ▸ itemPath_ne_empty _ _

/-- Entries are written one after another, the key before what is under it. -/
theorem decidedBy_tomlEntries : ∀ (entries : List (Value × Value)) {place : Place},
    place.text ≠ "" →
      DecidedBy (tomlEntries place.text entries) (firstFailure? (tourEntries place entries))
  | [], _, _ => ⟨_, rfl⟩
  | (key, v) :: rest, place, h => by
    have hpath : entryPath place.text key.asText.toString = Place.text (place ++ [.entry key]) := by
      rw [place.text_concat]
      exact (if_neg h).symm
    rw [tourEntries, firstFailure?_cons, firstFailure?_append, tomlEntries]
    refine decidedBy_entry ?_
    rw [hpath]
    refine (decidedBy_toml v fun _ _ => ?_).bind fun _ _ => (decidedBy_tomlEntries rest h).map _
    exact hpath ▸ entryPath_ne_empty _ _

end

mutual

/-- **So is a value in a nest of tables**, which become overrides of their own. -/
theorem decidedBy_flattenValue : ∀ (v : Value) {place : Place},
    DecidedBy (flattenValue place.text v) (firstFailure? (tour place v))
  | .table [], _ => ⟨_, rfl⟩
  | .table (e :: entries), _ => decidedBy_flattenEntries (e :: entries)
  | .list items, _ => (decidedBy_toml (.list items) nofun).map _
  | .tuple items, _ => (decidedBy_toml (.tuple items) nofun).map _
  | .null, _ | .model _, _ | .foreign _, _ => rfl
  | .bool b, _ => (decidedBy_toml (.bool b) nofun).map _
  | .int n, _ => (decidedBy_toml (.int n) nofun).map _
  | .float x, _ => (decidedBy_toml (.float x) nofun).map _
  | .str _, _ | .broken _, _ => ⟨_, rfl⟩

/-- Entries are flattened one after another; a table goes on below its key, and anything else is
written there. -/
theorem decidedBy_flattenEntries : ∀ (entries : List (Value × Value)) {place : Place},
    DecidedBy (flattenEntries place.text entries) (firstFailure? (tourEntries place entries))
  | [], _ => ⟨_, rfl⟩
  | (key, v) :: rest, place => by
    have hpath : below place.text key.asText.toString = Place.text (place ++ [.entry key]) :=
      (place.text_concat (.entry key)).symm
    rw [tourEntries, firstFailure?_cons, firstFailure?_append, flattenEntries]
    refine decidedBy_entry ?_
    rw [hpath]
    exact (decidedBy_flattenValue v).bind fun _ _ => (decidedBy_flattenEntries rest).map _

end

/-! ## The outcome

With the tour known to be complete, the first failure on it and the fitness of the whole
configuration are two ways to say the same. -/

/-- Nothing is wrong with a value exactly if it can be written. -/
theorem valueFailure?_eq_none_iff {place : Place} {v : Value} :
    valueFailure? place v = none ↔ IsWritable v := by
  -- Only numbers are judged by what they are; null, models and foreign values are never written,
  -- and the rest always is.
  cases v with
  | int n =>
    rw [valueFailure?]
    by_cases h : maxDigits < digitCount n.natAbs
    · rw [if_pos h]
      refine iff_of_false (Option.some_ne_none _) fun hw => ?_
      cases hw with
      | int hn => exact absurd h (Nat.not_lt_of_le hn)
    · rw [if_neg h]
      exact iff_of_true rfl (.int (Nat.le_of_not_lt h))
  | float x =>
    rw [valueFailure?]
    cases h : x.isFinite with
    | true => exact iff_of_true rfl (.float h)
    | false =>
      refine iff_of_false (Option.some_ne_none _) fun hw => ?_
      cases hw with
      | float hx => exact Bool.false_ne_true (h.symm.trans hx)
  | null | model | foreign => exact iff_of_false (Option.some_ne_none _) nofun
  | _ => exact iff_of_true rfl (by constructor)

/-- A key is no obstacle just if it is a text that is not empty. -/
theorem keyFailure?_eq_none_iff {place : Place} {k : Value} :
    (Spot.key place k).failure? = none ↔ isNonemptyText k = true := by
  rw [Spot.failure?]
  cases isNonemptyText k with
  | true => exact iff_of_true rfl rfl
  | false => exact iff_of_false (Option.some_ne_none _) Bool.false_ne_true

/-- Nothing is wrong on the tour of a table exactly if it is a configuration. -/
theorem firstFailure?_eq_none_iff {entries : Table} :
    firstFailure? (tour [] (.table entries)) = none ↔ IsConfiguration (.table entries) := by
  rw [firstFailure?, List.findSome?_eq_none_iff]
  -- The tour goes to every place and no other, so it may be said of the spots or of the places.
  constructor
  · intro h
    refine ⟨⟨entries, rfl⟩, fun {place inner} hplace e he => ?_, fun {place v} hplace => ?_⟩
    · exact keyFailure?_eq_none_iff.mp (h (.key place e.1)
        (mem_tour_iff.mpr ⟨place, inner, e.2, rfl, hplace, he⟩))
    · exact valueFailure?_eq_none_iff.mp
        (h (.value place v) (mem_tour_iff.mpr ⟨place, rfl, hplace⟩))
  · rintro h (⟨place, k⟩ | ⟨place, v⟩) hspot
    · obtain ⟨q, inner, w, rfl, hq, hmem⟩ := mem_tour_iff.mp hspot
      exact keyFailure?_eq_none_iff.mpr (h.keys hq _ hmem)
    · obtain ⟨q, rfl, hq⟩ := mem_tour_iff.mp hspot
      exact valueFailure?_eq_none_iff.mpr (h.values hq)

/-- The overrides of a table are decided by its tour. -/
theorem decidedBy_overrides (entries : Table) :
    DecidedBy (overrides (.table entries)) (firstFailure? (tour [] (.table entries))) :=
  decidedBy_flattenEntries entries

/-- The failure is the one that decides. -/
theorem DecidedBy.eq_error_iff {α : Type} {x : Except Failure α} {o : Option Failure}
    (h : DecidedBy x o) (f : Failure) : x = .error f ↔ o = some f := by
  cases o with
  | none =>
    obtain ⟨a, rfl⟩ := h
    exact iff_of_false nofun nofun
  | some f' =>
    obtain rfl : x = .error f' := h
    exact ⟨fun heq => congrArg some (Except.error.inj heq),
      fun heq => congrArg _ (Option.some.inj heq)⟩

/-- There is no failure just if none decides. -/
theorem DecidedBy.exists_ok_iff {α : Type} {x : Except Failure α} {o : Option Failure}
    (h : DecidedBy x o) : (∃ a, x = .ok a) ↔ o = none := by
  cases o with
  | none => exact iff_of_true h rfl
  | some f =>
    obtain rfl : x = .error f := h
    exact iff_of_false nofun nofun

/-- **Which configurations can be written, and what is reported of the others.**  Overrides are
written of a configuration, and of nothing else.  What is no table is reported as that.  Of a table
the failure is the one of the first spot of its tour with which something is wrong; the tour comes
upon every key and every value inside at its place. -/
theorem overrides_outcome (config : Value) :
    ((∃ items, overrides config = .ok items) ↔ IsConfiguration config) ∧
      ((∀ entries, config ≠ .table entries) →
        overrides config = .error (.client (.config (.notTable config.typeName)))) ∧
      ∀ entries, config = .table entries →
        (∀ f, overrides config = .error f ↔
          ∃ before spot after, tour [] config = before ++ spot :: after ∧
            spot.failure? = some f ∧ ∀ earlier ∈ before, earlier.failure? = none) ∧
        (∀ place v, .value place v ∈ tour [] config ↔ Holds config place v) ∧
        ∀ place k, .key place k ∈ tour [] config ↔
          ∃ inner w, Holds config place (.table inner) ∧ (k, w) ∈ inner := by
  have hnone : (∀ entries, config ≠ .table entries) →
      overrides config = .error (.client (.config (.notTable config.typeName))) := by
    intro h
    cases config with
    | table entries => exact absurd rfl (h entries)
    | _ => rfl
  refine ⟨?_, hnone, ?_⟩
  -- A configuration is a table; of a table the tour decides, and anything else is refused as a
  -- whole.
  · by_cases htable : ∃ entries, config = .table entries
    · obtain ⟨entries, rfl⟩ := htable
      exact (decidedBy_overrides entries).exists_ok_iff.trans firstFailure?_eq_none_iff
    · rw [hnone (not_exists.mp htable)]
      exact iff_of_false nofun fun h => htable h.isTable
  · rintro entries rfl
    refine ⟨fun f => ((decidedBy_overrides entries).eq_error_iff f).trans
      List.findSome?_eq_some_iff, fun place v => ?_, fun place k => ?_⟩
    · rw [mem_tour_iff]
      exact exists_eq_left'
    · rw [mem_tour_iff]
      exact ⟨fun ⟨_, inner, w, hq, h⟩ => ⟨inner, w, hq ▸ h⟩,
        fun ⟨inner, w, h⟩ => ⟨place, inner, w, rfl, h⟩⟩

/-- A configuration with null in a table in a list, and an empty key behind it. -/
def nullInList : Value :=
  .named [("model", .named [("limits", .list [.int 1, .named [("low", .null)]])]), ("", .int 2)]

/-- The null comes first, and is reported with the way to it. -/
theorem overrides_nullInList :
    overrides nullInList = .error (.client (.config (.nullValue "model.limits[1].low"))) := by
  have htour : tour [] nullInList = (tour [] nullInList).take 8
      ++ .value [.entry (.str "model"), .entry (.str "limits"), .member 1,
        .entry (.str "low")] .null
        :: (tour [] nullInList).drop 9 := rfl
  exact (((overrides_outcome nullInList).2.2 _ rfl).1 _).mpr
    ⟨_, _, _, htour, by decide +kernel, by decide +kernel⟩

end AgentClient.Config
