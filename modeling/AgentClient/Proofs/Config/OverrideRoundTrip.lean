import AgentClient.Config.Flatten
import AgentClient.Proofs.Config.Literals

/-!
# Proofs/Config/OverrideRoundTrip — flattened configuration, put together again

Flattening a table and parsing the overrides gives the table back, its entries in their order
(`parseOverrides_overrides`).  In between stand the leaves of the table (`leaves`), each with the
names on the way to it: every override is written from a leaf and puts just that leaf
(`putOverride_of_isWritten`), and putting the leaves one after another grows the table at its end
(`foldlM_put_leaves`). -/

namespace AgentClient

/-! ## Entries at the end of a table

Flattened configuration is put together in the order of its entries, so what is put always concerns
the last entry of a table, or makes one behind it. The general laws of `put` are not needed for
that. -/

namespace Table

variable {t : Table} {name : String}

/-- A name that is no key is not found. -/
theorem get?_eq_none (h : Value.str name ∉ t.keys) : t.get? name = none := by
  induction t with
  | nil => rfl
  | cons e t ih =>
    rw [keys, List.map_cons, List.mem_cons, not_or] at h
    rw [get?, if_neg (Ne.symm h.1)]
    exact ih h.2

/-- A new name adds an entry at the end. -/
theorem put_eq_append (h : Value.str name ∉ t.keys) (v : Value) :
    t.put (.str name) v = t ++ [(.str name, v)] :=
  @put_of_not_mem t (.plain name) h v

/-- An entry is found behind entries of other names. -/
theorem get?_append_cons (h : Value.str name ∉ t.keys) (v : Value) (more : Table) :
    Table.get? (t ++ (.str name, v) :: more) name = some v := by
  induction t with
  | nil => exact if_pos rfl
  | cons e t ih =>
    rw [keys, List.map_cons, List.mem_cons, not_or] at h
    rw [List.cons_append, get?, if_neg (Ne.symm h.1)]
    exact ih h.2

/-- Putting under its key replaces it where it is. -/
theorem put_append_cons (h : Value.str name ∉ t.keys) (w v : Value) (more : Table) :
    Table.put (t ++ (.str name, w) :: more) (.str name) v = t ++ (.str name, v) :: more := by
  induction t with
  | nil => rw [List.nil_append, put, if_pos (Value.isSameKey_str_iff.mpr rfl)]; rfl
  | cons e t ih =>
    rw [keys, List.map_cons, List.mem_cons, not_or] at h
    rw [List.cons_append, put, if_neg (mt Value.isSameKey_str_iff.mp (Ne.symm h.1)), ih h.2]
    rfl

end Table

namespace Config

/-! ## Leaves

A leaf has its names from the outermost to the innermost. An empty table below the top is a leaf as
well, since nothing else would put it. -/

/-- A value in a table, at the end of a path of names. -/
structure Leaf where
  name : String
  rest : List String
  value : Value

namespace Leaf

/-- The names on the way to a leaf. -/
def names (l : Leaf) : List String :=
  l.name :: l.rest

/-- The path of a leaf in a table that stands at a path itself. -/
def path (above : String) (l : Leaf) : String :=
  l.names.foldl below above

/-- A leaf of a table, as a leaf of the table that holds that table under a name. -/
def under (name : String) (l : Leaf) : Leaf :=
  ⟨name, l.names, l.value⟩

/-- Put a leaf into a table. -/
def put (t : Table) (l : Leaf) : Option Table :=
  bind l.name l.rest l.value t

variable {t : Table} {name : String}

/-- A leaf of a new table makes the table. -/
theorem put_under_of_not_mem (h : Value.str name ∉ t.keys) (l : Leaf) :
    (l.under name).put t = (l.put []).map fun s => t ++ [(.str name, .table s)] := by
  have hget : t.getD name (.table []) = .table [] := by rw [Table.getD, Table.get?_eq_none h]; rfl
  show bind name (l.name :: l.rest) l.value t = _
  rw [bind, hget]
  exact congrArg (fun f => (l.put []).map f)
    (funext fun s => Table.put_eq_append h (.table s))

/-- A leaf of a table that is there goes into that. -/
theorem put_under_append (h : Value.str name ∉ t.keys) (s more : Table) (l : Leaf) :
    (l.under name).put (t ++ (.str name, .table s) :: more)
      = (l.put s).map fun s => t ++ (.str name, .table s) :: more := by
  have hget : Table.getD (t ++ (.str name, .table s) :: more) name (.table []) = .table s := by
    rw [Table.getD, Table.get?_append_cons h]
    rfl
  show bind name (l.name :: l.rest) l.value _ = _
  rw [bind, hget]
  exact congrArg (fun f => (l.put s).map f)
    (funext fun s' => Table.put_append_cons h (.table s) (.table s') more)

/-- Leaves of the last table, one after another. -/
theorem foldlM_put_under_append (h : Value.str name ∉ t.keys) {ls : List Leaf} {s s' : Table}
    (hput : ls.foldlM put s = some s') :
    (ls.map (under name)).foldlM put (t ++ [(.str name, .table s)])
      = some (t ++ [(.str name, .table s')]) := by
  -- Along the leaves: all of them go into the table under the name, which is the last entry.
  induction ls generalizing s with
  | nil =>
    obtain rfl := Option.some.inj hput
    rfl
  | cons l ls ih =>
    rw [List.foldlM_cons] at hput
    obtain ⟨s₁, hs₁, hput⟩ := Option.bind_eq_some_iff.mp hput
    rw [List.map_cons, List.foldlM_cons, put_under_append h, hs₁]
    exact ih hput

/-- **Leaves of a new table** make the table and fill it. -/
theorem foldlM_put_under (h : Value.str name ∉ t.keys) {l : Leaf} {ls : List Leaf} {s : Table}
    (hput : (l :: ls).foldlM put [] = some s) :
    ((l :: ls).map (under name)).foldlM put t = some (t ++ [(.str name, .table s)]) := by
  rw [List.foldlM_cons] at hput
  obtain ⟨s₁, hs₁, hput⟩ := Option.bind_eq_some_iff.mp hput
  rw [List.map_cons, List.foldlM_cons, put_under_of_not_mem h, hs₁]
  exact foldlM_put_under_append h hput

end Leaf

mutual

/-- The leaves of a value under a name. An empty table is a leaf. -/
def leavesAt (name : String) : Value → List Leaf
  | .table [] => [⟨name, [], .table []⟩]
  | .table (e :: entries) => (leaves (e :: entries)).map (.under name)
  | v => [⟨name, [], v⟩]

/-- **The leaves of a table**, in the order of its entries. -/
def leaves : List (Value × Value) → List Leaf
  | [] => []
  | (key, v) :: entries => leavesAt ((keyName? key).getD "") v ++ leaves entries

end

/-! ## Nested configuration

What is asked of a configuration is that its overrides can be told apart again: a name with a point
in it would be two names, and one with a sign would end the key. The bound on lists is far below the
depth that the reader takes. -/

/-- A name that a path keeps apart from the names around it and an override from the value. -/
structure IsName (name : String) : Prop where
  ne_empty : name ≠ ""
  point : '.' ∉ name.toList
  sign : '=' ∉ name.toList

/-- A configuration: leaves whose lists are nested at most a hundred deep, and tables of
configurations under names, each name once. -/
inductive IsNested : Value → Prop where
  | leaf {v : Value} (h : IsLeaf 100 v) : IsNested v
  | table {entries : Table} (hkeys : ∀ e ∈ entries, ∃ name, e.1 = .str name ∧ IsName name)
      (hnodup : entries.keys.Nodup) (hvalues : ∀ e ∈ entries, IsNested e.2) :
    IsNested (.table entries)

/-- Whether a text is a name is decided part by part. -/
instance (name : String) : Decidable (IsName name) :=
  decidable_of_iff (name ≠ "" ∧ '.' ∉ name.toList ∧ '=' ∉ name.toList)
    ⟨fun ⟨hne, hpoint, hsign⟩ => ⟨hne, hpoint, hsign⟩,
      fun ⟨hne, hpoint, hsign⟩ => ⟨hne, hpoint, hsign⟩⟩

/-- A table of named entries is a configuration if its values are. -/
theorem IsNested.named {entries : List (String × Value)} (hnames : ∀ e ∈ entries, IsName e.1)
    (hnodup : (entries.map Prod.fst).Nodup) (hvalues : ∀ e ∈ entries, IsNested e.2) :
    IsNested (.named entries) := by
  have hkeys : (Table.named entries).keys = (entries.map Prod.fst).map Value.str := by
    rw [Table.keys, Table.named, List.map_map, List.map_map]
    rfl
  refine .table (List.forall_mem_map.mpr fun e he => ⟨e.1, rfl, hnames e he⟩) ?_
    (List.forall_mem_map.mpr fun e he => hvalues e he)
  rw [hkeys]
  exact List.pairwise_map.mpr (hnodup.imp fun hne heq => hne (Value.str.inj heq))

theorem keyName?_str {name : String} (h : name ≠ "") : keyName? (.str name) = some name :=
  if_neg h

theorem leaves_cons {name : String} (h : name ≠ "") (v : Value) (entries : Table) :
    leaves ((.str name, v) :: entries) = leavesAt name v ++ leaves entries := by
  rw [leaves, keyName?_str h]
  rfl

theorem leavesAt_of_isLeaf {depth : Nat} {v : Value} (h : IsLeaf depth v) (name : String) :
    leavesAt name v = [⟨name, [], v⟩] := by
  cases h <;> rfl

/-- Every value has a leaf: an empty table is one itself. -/
theorem leavesAt_ne_nil {v : Value} (h : IsNested v) (name : String) : leavesAt name v ≠ [] := by
  induction h generalizing name with
  | leaf h => exact leavesAt_of_isLeaf h name ▸ List.cons_ne_nil _ _
  | @table entries hkeys _ _ ih =>
    cases entries with
    | nil => exact List.cons_ne_nil _ _
    | cons e entries =>
      obtain ⟨key, v⟩ := e
      obtain ⟨first, rfl, hfirst⟩ := hkeys _ List.mem_cons_self
      rw [leavesAt, leaves_cons hfirst.ne_empty, List.map_append]
      exact List.append_ne_nil_of_left_ne_nil
        (mt List.map_eq_nil_iff.mp (ih _ List.mem_cons_self first)) _

/-! ## Putting the leaves together

A table of configurations is not empty, so the first of its leaves makes the table and the others go
into it. The induction is on the configuration; behind it stands a table that lacks the name. -/

/-- The leaves of one value after another, if each of them grows a table by its entry. -/
theorem foldlM_put_entries {entries : Table}
    (hkeys : ∀ e ∈ entries, ∃ name, e.1 = .str name ∧ IsName name)
    (hvalues : ∀ e ∈ entries, ∀ (t : Table) (name : String), Value.str name ∉ t.keys →
      (leavesAt name e.2).foldlM Leaf.put t = some (t ++ [(.str name, e.2)]))
    {t : Table} (hnodup : Table.keys (t ++ entries) |>.Nodup) :
    (leaves entries).foldlM Leaf.put t = some (t ++ entries) := by
  -- Along the entries: the leaves of each put it behind those before it, for its name is new.
  induction entries generalizing t with
  | nil => rw [List.append_nil]; rfl
  | cons e entries ih =>
    rw [List.forall_mem_cons] at hkeys hvalues
    obtain ⟨key, v⟩ := e
    obtain ⟨⟨name, rfl, hname⟩, hkeys⟩ := hkeys
    have hmem : Value.str name ∉ t.keys := by
      rw [Table.keys, List.map_append, List.map_cons] at hnodup
      exact fun h => (List.nodup_append.mp hnodup).2.2 _ h _ List.mem_cons_self rfl
    rw [List.append_cons] at hnodup ⊢
    rw [leaves_cons hname.ne_empty, List.foldlM_append, hvalues.1 t name hmem]
    exact ih hkeys hvalues.2 hnodup

/-- **The leaves of a value put the value** at the end of a table that lacks its name. -/
theorem foldlM_put_leavesAt {v : Value} (h : IsNested v) :
    ∀ (t : Table) (name : String), Value.str name ∉ t.keys →
      (leavesAt name v).foldlM Leaf.put t = some (t ++ [(.str name, v)]) := by
  have hone : ∀ (v : Value) (t : Table) (name : String), Value.str name ∉ t.keys →
      [(⟨name, [], v⟩ : Leaf)].foldlM Leaf.put t = some (t ++ [(.str name, v)]) :=
    fun v t name hname => congrArg some (Table.put_eq_append hname v)
  induction h with
  | leaf h =>
    intro t name hname
    rw [leavesAt_of_isLeaf h]
    exact hone _ t name hname
  | @table entries hkeys hnodup hvalues ih =>
    intro t name hname
    -- An empty table is put as a leaf. The first leaf of any other makes the table under the name,
    -- and the others find it there.
    cases entries with
    | nil => exact hone _ t name hname
    | cons e entries =>
      have hinner := foldlM_put_entries (t := []) hkeys ih hnodup
      obtain ⟨l, ls, hls⟩ : ∃ l ls, leaves (e :: entries) = l :: ls := by
        obtain ⟨key, v⟩ := e
        obtain ⟨first, rfl, hfirst⟩ := hkeys _ List.mem_cons_self
        refine List.exists_cons_of_ne_nil ?_
        rw [leaves_cons hfirst.ne_empty]
        exact List.append_ne_nil_of_left_ne_nil
          (leavesAt_ne_nil (hvalues _ List.mem_cons_self) first) _
      rw [hls] at hinner
      rw [leavesAt, hls]
      exact Leaf.foldlM_put_under hname hinner

/-- The leaves of a configuration put it together. -/
theorem foldlM_put_leaves {entries : Table} (h : IsNested (.table entries)) :
    (leaves entries).foldlM Leaf.put [] = some entries := by
  cases h with
  | leaf h => exact absurd h nofun
  | table hkeys hnodup hvalues =>
    exact foldlM_put_entries hkeys (fun e he => foldlM_put_leavesAt (hvalues e he)) hnodup

/-! ## Overrides of leaves

The writer carries the path and adds names behind it, a leaf gains names in front. `IsWritten` is
about a table that stands at a path, which is where the two meet. -/

/-- What an override is that is written from a leaf of a table at a path. -/
structure IsWritten (above item : String) (l : Leaf) : Prop where
  exists_text : ∃ text, item = override (l.path above) text ∧ overrideValue text = .ok l.value
  isName : ∀ name ∈ l.names, IsName name

theorem IsWritten.under {above name item : String} {l : Leaf} (hname : IsName name)
    (h : IsWritten (below above name) item l) : IsWritten above item (l.under name) :=
  ⟨h.exists_text, List.forall_mem_cons.mpr ⟨hname, h.isName⟩⟩

/-- Entries are written as their leaves if the value of each is. -/
theorem exists_flattenEntries {written : String → Leaf → Prop} {above : String} {entries : Table}
    (hvalues : ∀ e ∈ entries, ∃ name, e.1 = .str name ∧ name ≠ "" ∧ ∃ items,
      flattenValue (below above name) e.2 = .ok items ∧
        List.Forall₂ written items (leavesAt name e.2)) :
    ∃ items, flattenEntries above entries = .ok items ∧
      List.Forall₂ written items (leaves entries) := by
  -- Along the entries: what is written for each of them, one after another.
  induction entries with
  | nil => exact ⟨[], rfl, .nil⟩
  | cons e entries ih =>
    rw [List.forall_mem_cons] at hvalues
    obtain ⟨key, v⟩ := e
    obtain ⟨⟨name, rfl, hname, first, hfirst, hwritten⟩, hvalues⟩ := hvalues
    obtain ⟨others, hothers, hall⟩ := ih hvalues
    refine ⟨first ++ others, ?_, ?_⟩
    · rw [flattenEntries, keyName, keyName?_str hname]
      dsimp only [Bind.bind, Except.bind]
      rw [hfirst, hothers]
      rfl
    · rw [leaves_cons hname]
      exact List.rel_append hwritten hall

/-- **A value under a name is written as its leaves.** -/
theorem exists_flattenValue {v : Value} (h : IsNested v) :
    ∀ above name : String, IsName name → ∃ items,
      flattenValue (below above name) v = .ok items ∧
        List.Forall₂ (IsWritten above) items (leavesAt name v) := by
  -- On the value: a leaf is written at its path, and so is an empty table; of any other table the
  -- entries are flattened below its path.
  induction h with
  | @leaf v h =>
    intro above name hname
    obtain ⟨text, htext, hvalue⟩ := overrideValue_of_toml h (by decide) (below above name)
    have hflatten : flattenValue (below above name) v
        = .ok [override (below above name) text] := by
      cases h <;> (rw [flattenValue.eq_def]; dsimp only; rw [htext]; rfl)
    refine ⟨_, hflatten, ?_⟩
    rw [leavesAt_of_isLeaf h]
    exact .cons ⟨⟨text, rfl, hvalue⟩, List.forall_mem_singleton.mpr hname⟩ .nil
  | @table entries hkeys _ _ ih =>
    intro above name hname
    cases entries with
    | nil =>
      have hempty : overrideValue "\x7b\x7d" = .ok (.table []) := by decide +kernel
      exact ⟨_, rfl, .cons ⟨⟨_, rfl, hempty⟩, List.forall_mem_singleton.mpr hname⟩ .nil⟩
    | cons e entries =>
      have hentries : ∀ entry ∈ e :: entries, ∃ n, entry.1 = .str n ∧ n ≠ "" ∧ ∃ items,
          flattenValue (below (below above name) n) entry.2 = .ok items ∧
            List.Forall₂ (IsWritten (below above name)) items (leavesAt n entry.2) := by
        intro entry hentry
        obtain ⟨n, hkey, hn⟩ := hkeys entry hentry
        exact ⟨n, hkey, hn.ne_empty, ih entry hentry _ n hn⟩
      obtain ⟨items, hitems, hall⟩ := exists_flattenEntries hentries
      refine ⟨items, (flattenValue.eq_def _ _).trans hitems, ?_⟩
      rw [leavesAt, List.forall₂_map_right_iff]
      exact hall.imp fun _ _ hwritten => hwritten.under hname

/-! ### Their paths

The key of an override is cut at its points. The names have no points of their own, so this gives
the names back. -/

/-- Names below a path follow it, each behind a point. -/
theorem toList_foldl_below {above : String} (h : above ≠ "") (names : List String) :
    (names.foldl below above).toList
      = above.toList ++ names.flatMap fun name => '.' :: name.toList := by
  -- Along the names: a point and the name behind what is there, which is never empty again.
  induction names generalizing above with
  | nil => exact (List.append_nil _).symm
  | cons name names ih =>
    have hbelow : below above name = above ++ "." ++ name := if_neg h
    have hne : above ++ "." ++ name ≠ "" := by
      intro hempty
      have hlist := congrArg String.toList hempty
      rw [String.toList_append, String.toList_append] at hlist
      exact absurd hlist (by simp)
    rw [List.foldl_cons, hbelow, ih hne, String.toList_append, String.toList_append,
      List.flatMap_cons, List.append_assoc, List.append_assoc]
    rfl

variable {l : Leaf}

/-- The path of a leaf at the top: its names with points between. -/
theorem toList_path (h : ∀ name ∈ l.names, IsName name) :
    (l.path "").toList = l.name.toList ++ l.rest.flatMap fun name => '.' :: name.toList :=
  toList_foldl_below (h l.name List.mem_cons_self).ne_empty l.rest

/-- Names with points between are the pieces. -/
theorem splitAt_names {name : String} {rest : List String}
    (h : ∀ n ∈ name :: rest, '.' ∉ n.toList) :
    Text.splitAt '.' (name.toList ++ rest.flatMap fun n => '.' :: n.toList)
      = (name :: rest).map String.toList := by
  induction rest generalizing name with
  | nil =>
    rw [List.flatMap_nil, List.append_nil]
    exact Text.splitAt_eq_singleton (h name List.mem_cons_self)
  | cons next rest ih =>
    rw [List.forall_mem_cons] at h
    rw [List.flatMap_cons, List.cons_append, Text.splitAt_append_cons _ h.1, ih h.2]
    rfl

theorem split_path (h : ∀ name ∈ l.names, IsName name) : Text.split '.' (l.path "") = l.names := by
  rw [Text.split, toList_path h, splitAt_names fun n hn => (h n hn).point, List.map_map]
  simp [Function.comp_def, Leaf.names]

/-- No name has the sign in it, so the path has none. -/
theorem sign_notMem_path (h : ∀ name ∈ l.names, IsName name) : '=' ∉ (l.path "").toList := by
  rw [toList_path h, List.mem_append, List.mem_flatMap]
  rintro (hmem | ⟨name, hname, hmem⟩)
  · exact (h l.name List.mem_cons_self).sign hmem
  · rcases List.mem_cons.mp hmem with hpoint | hmem
    · exact absurd hpoint (by decide)
    · exact (h name (List.mem_cons_of_mem _ hname)).sign hmem

/-! ### What they put

The text behind the sign is a TOML literal, which for the leaves at hand is JSON of the same value.
-/

/-- **An override puts the leaf that it is written from**, if the leaf can be put. -/
theorem putOverride_of_isWritten {item : String} (h : IsWritten "" item l) {t t' : Table}
    (hput : l.put t = some t') : putOverride t item = .ok t' := by
  obtain ⟨text, rfl, hvalue⟩ := h.exists_text
  -- The path has no sign, so the text is cut where the value begins, whatever signs the value has.
  have hcut : Text.cut? '=' (override (l.path "") text).toList
      = some ((l.path "").toList, text.toList) := by
    rw [override, String.toList_append, String.toList_append, List.append_assoc]
    exact Text.cut?_append_cons text.toList (sign_notMem_path h.isName)
  have hne : (l.path "").toList ≠ [] := by
    rw [toList_path h.isName]
    refine List.append_ne_nil_of_left_ne_nil ?_ _
    exact mt String.toList_eq_nil_iff.mp (h.isName l.name List.mem_cons_self).ne_empty
  obtain ⟨c, cs, hcs⟩ := List.exists_cons_of_ne_nil hne
  have hsplit : Text.split '.' (String.ofList (c :: cs)) = l.name :: l.rest := by
    rw [← hcs, String.ofList_toList]
    exact split_path h.isName
  rw [putOverride, hcut, hcs]
  dsimp only [Bind.bind, Except.bind]
  rw [String.ofList_toList, hvalue]
  dsimp only
  rw [hsplit]
  dsimp only
  rw [show bind l.name l.rest l.value t = some t' from hput]
  rfl

/-- Overrides put their leaves one after another. -/
theorem foldlM_putOverride {items : List String} {ls : List Leaf}
    (h : List.Forall₂ (IsWritten "") items ls) {t t' : Table}
    (hput : ls.foldlM Leaf.put t = some t') : items.foldlM putOverride t = .ok t' := by
  induction h generalizing t with
  | nil =>
    obtain rfl := Option.some.inj hput
    rfl
  | cons hfirst _ ih =>
    rw [List.foldlM_cons] at hput ⊢
    obtain ⟨s, hs, hput⟩ := Option.bind_eq_some_iff.mp hput
    rw [putOverride_of_isWritten hfirst hs]
    exact ih hput

/-! ## The round trip

Both directions are about the same list: the overrides are written from the leaves in their order,
and put them in that order. -/

/-- **Flattening and parsing are inverse** on configurations: the overrides of a table can be
written, and they are parsed as the table, with its entries in their order at every level. -/
theorem parseOverrides_overrides {config : Table} (h : IsNested (.table config)) :
    ∃ items, overrides (.table config) = .ok items ∧ parseOverrides items = .ok config := by
  have hentries : ∃ items, flattenEntries "" config = .ok items ∧
      List.Forall₂ (IsWritten "") items (leaves config) := by
    cases h with
    | leaf h => exact absurd h nofun
    | table hkeys _ hvalues =>
      refine exists_flattenEntries fun e he => ?_
      obtain ⟨name, hkey, hname⟩ := hkeys e he
      exact ⟨name, hkey, hname.ne_empty, exists_flattenValue (hvalues e he) "" name hname⟩
  obtain ⟨items, hitems, hall⟩ := hentries
  exact ⟨items, hitems, foldlM_putOverride hall (foldlM_put_leaves h)⟩

/-- A configuration with a table inside a table, empty tables, a list inside a list, and a text with
the signs of an override, a mark and a delete character. -/
def layeredConfig : Table :=
  Table.named
    [("model", .named
        [("limits", .named [("tokens", .int (-12)), ("none", .named [])]),
         ("note", .str "a.b=\"\x7F")]),
     ("tools", .list [.bool true, .list [.int 0, .str ""]]), ("empty", .named [])]

/-- It is flattened to five overrides and put together from them. -/
theorem parseOverrides_layeredConfig :
    IsNested (.table layeredConfig) ∧
      ∃ items, overrides (.table layeredConfig) = .ok items ∧
        parseOverrides items = .ok layeredConfig := by
  have hlist : IsLeaf 100 (.list [.bool true, .list [.int 0, .str ""]]) := by
    refine .list (List.forall_mem_cons.mpr ⟨.bool true, List.forall_mem_singleton.mpr ?_⟩)
    exact .list (List.forall_mem_cons.mpr ⟨.int (by decide +kernel),
      List.forall_mem_singleton.mpr (.str "")⟩)
  have hempty : IsNested (.named []) := .named nofun .nil nofun
  have hlimits : IsNested (.named [("tokens", .int (-12)), ("none", .named [])]) := by
    refine .named (by decide +kernel) (by decide +kernel) ?_
    exact List.forall_mem_cons.mpr ⟨.leaf (.int (by decide +kernel)),
      List.forall_mem_singleton.mpr hempty⟩
  have hmodel : IsNested (.named
      [("limits", .named [("tokens", .int (-12)), ("none", .named [])]),
       ("note", .str "a.b=\"\x7F")]) := by
    refine .named (by decide +kernel) (by decide +kernel) ?_
    exact List.forall_mem_cons.mpr ⟨hlimits, List.forall_mem_singleton.mpr (.leaf (.str _))⟩
  have hconfig : IsNested (.table layeredConfig) := by
    refine .named (by decide +kernel) (by decide +kernel) ?_
    exact List.forall_mem_cons.mpr ⟨hmodel, List.forall_mem_cons.mpr
      ⟨.leaf hlist, List.forall_mem_singleton.mpr hempty⟩⟩
  exact ⟨hconfig, parseOverrides_overrides hconfig⟩

end Config

end AgentClient
