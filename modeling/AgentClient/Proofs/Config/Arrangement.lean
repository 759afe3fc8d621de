import AgentClient.Proofs.Config.Bindings
import AgentClient.Proofs.Config.OverrideRoundTrip

/-!
# Proofs/Config/Arrangement — overrides put together, flattened again

A list of overrides whose paths are apart grows a table leaf by leaf: putting one adds its leaf
behind all that share the way to it, and changes no other (`exists_sprouts`).  By induction from the
end of the list, the leaves of the table are the overrides of the list, rearranged
(`exists_collects`).  Flattening goes through the leaves in their order
(`exists_flattenEntries_of_isGrown`), so every override is written once (`exists_overrides`). -/

namespace AgentClient

/-- The place of a name in a table that has it. -/
theorem Table.exists_split {t : Table} {name : String} (hnodup : t.keys.Nodup)
    (h : Value.str name ∈ t.keys) :
    ∃ front w back, t = front ++ (.str name, w) :: back ∧ Value.str name ∉ Table.keys front ∧
      Value.str name ∉ Table.keys back := by
  obtain ⟨⟨key, w⟩, he, rfl : key = .str name⟩ := List.mem_map.mp h
  obtain ⟨front, back, rfl⟩ := List.append_of_mem he
  rw [keys, List.map_append, List.map_cons] at hnodup
  obtain ⟨-, hback, hdisjoint⟩ := List.nodup_append.mp hnodup
  exact ⟨front, w, back, rfl, fun hmem => hdisjoint _ hmem _ List.mem_cons_self rfl,
    (List.nodup_cons.mp hback).1⟩

namespace Config

/-! ## Tables that overrides grow

Overrides make tables only to put something into them, so no table in a grown one is empty, and no
leaf is a table. It is this that makes the leaves stand for the table: without it an empty table
below the top would be a leaf that no override has put. -/

/-- **A table as overrides grow it**: its keys are names, each once and none empty, and under each
of them is a value that is no table or such a table again, which is not empty. -/
inductive IsGrown : Table → Prop where
  | intro {t : Table} (hnodup : t.keys.Nodup) (hkeys : ∀ e ∈ t, ∃ name, e.1 = .str name ∧ name ≠ "")
      (hfull : ∀ e ∈ t, e.2 ≠ .table []) (hinner : ∀ key s, (key, .table s) ∈ t → IsGrown s) :
    IsGrown t

/-- A value that may stand in such a table. -/
structure MayStand (v : Value) : Prop where
  ne_empty : v ≠ .table []
  isGrown : ∀ s, v = .table s → IsGrown s

theorem mayStand_of_isTable {v : Value} (h : v.isTable = false) : MayStand v := by
  have hne := Value.isTable_eq_false_iff.mp h
  exact ⟨hne [], fun s hs => absurd hs (hne s)⟩

/-- What may stand in a grown table is no table, or a table with entries that has grown itself. -/
theorem MayStand.cases {v : Value} (h : MayStand v) :
    v.isTable = false ∨ ∃ s, v = .table s ∧ s ≠ [] ∧ IsGrown s := by
  cases v with
  | table s => exact .inr ⟨s, rfl, fun hs => h.ne_empty (congrArg _ hs), h.isGrown s rfl⟩
  | _ => exact .inl rfl

namespace IsGrown

variable {t front back : Table} {name : String} {v w : Value}

/-- A table has grown if each of its entries may stand in one. -/
theorem of_entries (hnodup : t.keys.Nodup)
    (h : ∀ e ∈ t, ∃ name, e.1 = .str name ∧ name ≠ "" ∧ MayStand e.2) : IsGrown t := by
  refine .intro hnodup (fun e he => ?_) (fun e he => ?_) fun key s hs => ?_
  · obtain ⟨name, hkey, hname, -⟩ := h e he
    exact ⟨name, hkey, hname⟩
  · obtain ⟨-, -, -, hv⟩ := h e he
    exact hv.ne_empty
  · obtain ⟨-, -, -, hv⟩ := h _ hs
    exact hv.isGrown s rfl

theorem nodup_keys (h : IsGrown t) : t.keys.Nodup := by
  cases h with
  | intro hnodup _ _ _ => exact hnodup

/-- What an entry of such a table is. -/
theorem entry (h : IsGrown t) :
    ∀ e ∈ t, ∃ name, e.1 = .str name ∧ name ≠ "" ∧ MayStand e.2 := by
  cases h with
  | intro _ hkeys hfull hinner =>
    intro e he
    obtain ⟨name, hkey, hname⟩ := hkeys e he
    exact ⟨name, hkey, hname, hfull e he, fun s hs => hinner e.1 s (hs ▸ he)⟩

theorem nil : IsGrown [] :=
  of_entries .nil nofun

theorem sublist {s : Table} (h : IsGrown t) (hs : s.Sublist t) : IsGrown s :=
  of_entries ((hs.map Prod.fst).nodup h.nodup_keys) fun e he => h.entry e (hs.mem he)

/-- A new entry at the end. -/
theorem append (h : IsGrown t) (hname : name ≠ "") (hmem : Value.str name ∉ t.keys)
    (hv : MayStand v) : IsGrown (t ++ [(.str name, v)]) := by
  refine of_entries ?_ (List.forall_mem_append.mpr ⟨h.entry, List.forall_mem_singleton.mpr ?_⟩)
  · rw [← Table.put_eq_append hmem]
    exact Table.nodup_keys_put h.nodup_keys (.plain name) v
  · exact ⟨name, rfl, hname, hv⟩

/-- Another value in the place of one. -/
theorem replace (h : IsGrown (front ++ (.str name, w) :: back)) (hv : MayStand v) :
    IsGrown (front ++ (.str name, v) :: back) := by
  have hentry := h.entry
  rw [List.forall_mem_append, List.forall_mem_cons] at hentry
  obtain ⟨hfront, ⟨n, hkey, hn, -⟩, hback⟩ := hentry
  refine of_entries ?_ (List.forall_mem_append.mpr ⟨hfront, List.forall_mem_cons.mpr ⟨?_, hback⟩⟩)
  · have hnodup := h.nodup_keys
    rw [Table.keys, List.map_append, List.map_cons] at hnodup ⊢
    exact hnodup
  · exact ⟨n, hkey, hn, hv⟩

end IsGrown

/-! ### Their leaves

The leaves of a table are those of its entries in their order, each with the name of the entry in
front. -/

/-- The leaves are those of the entries, one entry after another. -/
theorem leaves_eq_flatMap (t : Table) :
    leaves t = t.flatMap fun e => leavesAt ((keyName? e.1).getD "") e.2 := by
  induction t with
  | nil => rfl
  | cons e t ih => rw [leaves, ih, List.flatMap_cons]

/-- The leaves on both sides of an entry, with those of the entry between them. -/
theorem leaves_split {name : String} (hname : name ≠ "") (front : Table) (v : Value)
    (back : Table) :
    leaves (front ++ (.str name, v) :: back)
      = leaves front ++ (leavesAt name v ++ leaves back) := by
  rw [leaves_eq_flatMap, List.flatMap_append, ← leaves_eq_flatMap, ← leaves_eq_flatMap,
    leaves_cons hname]

/-- A value that is no table is a leaf. -/
theorem leavesAt_of_isTable {v : Value} (h : v.isTable = false) (name : String) :
    leavesAt name v = [⟨name, [], v⟩] := by
  cases v with
  | table t => exact absurd h nofun
  | _ => rfl

/-- The leaves of a table inside are its own, one name further down. -/
theorem leavesAt_table {s : Table} (h : s ≠ []) (name : String) :
    leavesAt name (.table s) = (leaves s).map (.under name) := by
  cases s with
  | nil => exact absurd rfl h
  | cons e s => rw [leavesAt]

namespace IsGrown

variable {t : Table} {name : String} {v : Value} {l : Leaf}

/-- The leaves under a name begin with it. -/
theorem name_of_mem_leavesAt (hv : MayStand v) (h : l ∈ leavesAt name v) : l.name = name := by
  rcases hv.cases with hleaf | ⟨s, rfl, hne, -⟩
  · rw [leavesAt_of_isTable hleaf] at h
    rw [List.mem_singleton.mp h]
  · rw [leavesAt_table hne] at h
    obtain ⟨l, -, rfl⟩ := List.mem_map.mp h
    rfl

/-- So a leaf of a table begins with a name that the table has. -/
theorem str_name_mem_keys (h : IsGrown t) (hl : l ∈ leaves t) : Value.str l.name ∈ t.keys := by
  rw [leaves_eq_flatMap] at hl
  obtain ⟨e, he, hl⟩ := List.mem_flatMap.mp hl
  obtain ⟨name, hkey, hname, hv⟩ := h.entry e he
  rw [hkey, keyName?_str hname] at hl
  rw [name_of_mem_leavesAt hv hl, Option.getD_some, ← hkey]
  exact List.mem_map_of_mem he

/-- No table that grows is without leaves. -/
theorem leaves_ne_nil (h : IsGrown t) (hne : t ≠ []) : leaves t ≠ [] := by
  induction h with
  | @intro t hnodup hkeys hfull hinner ih =>
    obtain ⟨⟨key, v⟩, t, rfl⟩ := List.exists_cons_of_ne_nil hne
    obtain ⟨-, -, -, hv⟩ := (IsGrown.intro hnodup hkeys hfull hinner).entry _ List.mem_cons_self
    rw [leaves]
    refine List.append_ne_nil_of_left_ne_nil ?_ _
    rcases hv.cases with hleaf | ⟨s, rfl : v = .table s, hs, -⟩
    · rw [leavesAt_of_isTable hleaf]
      exact List.cons_ne_nil _ _
    · rw [leavesAt_table hs]
      exact mt List.map_eq_nil_iff.mp (ih key s List.mem_cons_self hs)

end IsGrown

/-! ### One leaf more

The induction is on the path of the new leaf. At every name there is either no entry yet, and a new
one goes to the end of the table, or a table is there already, and the leaf goes into that. In both
cases it comes to stand behind the leaves that share the names before its last. -/

/-- A leaf with another first name has another way to it than one further down. -/
theorem Leaf.dropLast_names_ne {other : Leaf} {name : String} (h : other.name ≠ name) (l : Leaf) :
    other.names.dropLast ≠ (l.under name).names.dropLast := by
  obtain ⟨first, rest, v⟩ := other
  cases rest with
  | nil => exact nofun
  | cons next rest => exact fun heq => h (List.cons.inj heq).1

/-- **A table that grows by a leaf**: the leaf is new and stands behind all that share the way to
it. -/
structure Sprouts (t t' : Table) (l : Leaf) : Prop where
  isGrown : IsGrown t'
  exists_split : ∃ before after, leaves t = before ++ after ∧ leaves t' = before ++ l :: after ∧
    ∀ other ∈ after, other.names.dropLast ≠ l.names.dropLast

namespace Sprouts

variable {t s s' : Table} {l : Leaf} {name : String}

theorem ne_nil (h : Sprouts t s l) : s ≠ [] := by
  rintro rfl
  obtain ⟨before, after, -, heq, -⟩ := h.exists_split
  exact absurd heq.symm (List.append_ne_nil_of_right_ne_nil _ (List.cons_ne_nil _ _))

theorem mayStand (h : Sprouts t s l) : MayStand (.table s) :=
  ⟨fun heq => h.ne_nil (Value.table.inj heq), fun _ heq => Value.table.inj heq ▸ h.isGrown⟩

/-- A leaf of a new table. -/
theorem under_of_not_mem (ht : IsGrown t) (hname : name ≠ "") (hmem : Value.str name ∉ t.keys)
    (h : Sprouts [] s l) : Sprouts t (t ++ [(.str name, .table s)]) (l.under name) := by
  refine ⟨ht.append hname hmem h.mayStand, leaves t, [], (List.append_nil _).symm, ?_, nofun⟩
  obtain ⟨before, after, hnil, heq, -⟩ := h.exists_split
  obtain ⟨rfl, rfl⟩ := List.append_eq_nil_iff.mp hnil.symm
  rw [leaves_split hname, leavesAt_table h.ne_nil, heq]
  rfl

/-- A leaf of a table that is there. -/
theorem under_of_split {front back : Table} (ht : IsGrown (front ++ (.str name, .table s) :: back))
    (hname : name ≠ "") (hback : Value.str name ∉ Table.keys back) (hs : s ≠ [])
    (h : Sprouts s s' l) :
    Sprouts (front ++ (.str name, .table s) :: back) (front ++ (.str name, .table s') :: back)
      (l.under name) := by
  -- The new leaf comes up in the leaves of the inner table, and those stand between the leaves of
  -- the entries around it.
  obtain ⟨before, after, hbefore, hafter, hway⟩ := h.exists_split
  refine ⟨ht.replace h.mayStand, leaves front ++ before.map (.under name),
    after.map (.under name) ++ leaves back, ?_, ?_, fun other hother => ?_⟩
  · rw [leaves_split hname, leavesAt_table hs, hbefore, List.map_append]
    simp only [List.append_assoc]
  · rw [leaves_split hname, leavesAt_table h.ne_nil, hafter, List.map_append, List.map_cons]
    simp only [List.append_assoc, List.cons_append]
  · rcases List.mem_append.mp hother with hother | hother
    · obtain ⟨other, hmem, rfl⟩ := List.mem_map.mp hother
      exact fun heq => hway other hmem (List.cons.inj heq).2
    · -- behind them are only leaves with other first names
      have hgrown := ht.sublist
        ((List.sublist_cons_self _ back).trans (List.sublist_append_right front _))
      refine Leaf.dropLast_names_ne (fun heq => ?_) l
      exact hback (heq ▸ hgrown.str_name_mem_keys hother)

end Sprouts

theorem Apart.of_cons {name : String} {p q : List String} (h : Apart (name :: p) (name :: q)) :
    Apart p q :=
  ⟨mt (List.prefix_cons_inj name).mpr h.1, mt (List.prefix_cons_inj name).mpr h.2⟩

variable {name : String} {rest : List String} {v : Value}

/-- What a name leads to that a path begins with, if no leaf lies on the path nor behind it. -/
theorem exists_table_of_free {front back : Table} {w : Value}
    (ht : IsGrown (front ++ (.str name, w) :: back)) (hname : name ≠ "")
    (hfree : ∀ l ∈ leaves (front ++ (.str name, w) :: back), Apart l.names (name :: rest)) :
    ∃ s, w = .table s ∧ s ≠ [] ∧ IsGrown s ∧ rest ≠ [] ∧ ∀ l ∈ leaves s, Apart l.names rest := by
  rw [leaves_split hname] at hfree
  have hfree : ∀ l ∈ leavesAt name w, Apart l.names (name :: rest) := fun l hl =>
    hfree l (List.mem_append_right _ (List.mem_append_left _ hl))
  have hone : ∀ more : List String, [name] <+: name :: more := fun more =>
    (List.prefix_cons_inj name).mpr List.nil_prefix
  obtain ⟨-, -, -, hw⟩ := ht.entry _ (List.mem_append_right front List.mem_cons_self)
  -- A leaf there would lie above the new path; a table has leaves, and they are apart from what is
  -- left of it.
  rcases hw.cases with hleaf | ⟨s, rfl : w = .table s, hs, hgrown⟩
  · rw [leavesAt_of_isTable hleaf] at hfree
    exact absurd (hone rest) (hfree _ List.mem_cons_self).1
  · rw [leavesAt_table hs, List.forall_mem_map] at hfree
    obtain ⟨l, hl⟩ := List.exists_mem_of_ne_nil _ (hgrown.leaves_ne_nil hs)
    refine ⟨s, rfl, hs, hgrown, ?_, fun l hl => (hfree l hl).of_cons⟩
    rintro rfl
    exact (hfree l hl).2 (hone l.names)

/-- **A value that no leaf stands in the way of** is put, and becomes the one new leaf. -/
theorem exists_sprouts {t : Table} (ht : IsGrown t) (hnames : ∀ n ∈ name :: rest, n ≠ "")
    (hv : v.isTable = false) (hfree : ∀ l ∈ leaves t, Apart l.names (name :: rest)) :
    ∃ t', bind name rest v t = some t' ∧ Sprouts t t' ⟨name, rest, v⟩ := by
  -- Along the path. A name that is there leads into a table that has grown, for the leaves in it
  -- are apart from the path; one that is not there is put behind all others.
  induction rest generalizing name t with
  | nil =>
    have hname := hnames name List.mem_cons_self
    by_cases hmem : Value.str name ∈ t.keys
    · obtain ⟨front, w, back, rfl, -, -⟩ := Table.exists_split ht.nodup_keys hmem
      obtain ⟨-, -, -, -, hne, -⟩ := exists_table_of_free ht hname hfree
      exact absurd rfl hne
    · refine ⟨_, congrArg some (Table.put_eq_append hmem v),
        ht.append hname hmem (mayStand_of_isTable hv), leaves t, [], (List.append_nil _).symm,
          ?_, nofun⟩
      rw [leaves_split hname, leavesAt_of_isTable hv]
      rfl
  | cons next rest ih =>
    rw [List.forall_mem_cons] at hnames
    obtain ⟨hname, hnames⟩ := hnames
    by_cases hmem : Value.str name ∈ t.keys
    · obtain ⟨front, w, back, rfl, hfront, hback⟩ := Table.exists_split ht.nodup_keys hmem
      obtain ⟨s, rfl, hs, hgrown, -, hinner⟩ := exists_table_of_free ht hname hfree
      obtain ⟨s', hbind, hsprouts⟩ := ih hgrown hnames hinner
      refine ⟨_, ?_, hsprouts.under_of_split ht hname hback hs⟩
      exact (Leaf.put_under_append hfront s back ⟨next, rest, v⟩).trans (congrArg _ hbind)
    · obtain ⟨s, hbind, hsprouts⟩ := ih .nil hnames nofun
      refine ⟨_, ?_, hsprouts.under_of_not_mem ht hname hmem⟩
      exact (Leaf.put_under_of_not_mem hmem ⟨next, rest, v⟩).trans (congrArg _ hbind)

/-! ## Overrides and their leaves

An override whose key has no empty name is one leaf: the names of its path, and what the text behind
its sign means. -/

/-- **An override that the flattened configuration can carry**: no name of its path is empty, and
its value is no table and has a TOML form. -/
structure IsSetting (pair : String) : Prop where
  isPair : IsPair pair
  ne_empty : ∀ name ∈ pathOf pair, name ≠ ""
  exists_value : ∃ v text, Means (rawOf pair) v ∧ v.isTable = false ∧ toml (keyOf pair) v = .ok text

/-- **An item of the flattened configuration** that is written from an override. -/
def IsItemOf (pair item : String) : Prop :=
  ∃ v text, Means (rawOf pair) v ∧ toml (keyOf pair) v = .ok text ∧
    item = override (keyOf pair) text

/-- The leaf that an override puts. -/
def leafOf (pair : String) : Leaf :=
  ⟨(pathOf pair).headD "", (pathOf pair).tail, (overrideValue (rawOf pair)).toOption.getD .null⟩

variable {pair : String}

theorem leafOf_eq {name : String} {rest : List String} (hpath : pathOf pair = name :: rest)
    {v : Value}
    (hv : Means (rawOf pair) v) : leafOf pair = ⟨name, rest, v⟩ := by
  rw [leafOf, hpath, overrideValue_eq_ok_iff.mpr hv]
  rfl

theorem names_leafOf (pair : String) : (leafOf pair).names = pathOf pair := by
  obtain ⟨name, rest, hpath⟩ := exists_pathOf_eq_cons pair
  rw [Leaf.names, leafOf, hpath]
  rfl

/-- The names of the path with points between are the key. -/
theorem toList_keyOf {name : String} {rest : List String} (hpath : pathOf pair = name :: rest) :
    (keyOf pair).toList = name.toList ++ rest.flatMap fun n => '.' :: n.toList := by
  have hpieces : Text.splitAt '.' (keyOf pair).toList = (name :: rest).map String.toList := by
    rw [← hpath, pathOf, Text.split, List.map_map]
    simp [Function.comp_def]
  have hpoint : ∀ n ∈ name :: rest, '.' ∉ n.toList := by
    intro n hn
    have hmem : n.toList ∈ Text.splitAt '.' (keyOf pair).toList :=
      hpieces ▸ List.mem_map_of_mem hn
    exact Text.not_mem_of_mem_splitAt hmem
  rw [← Text.intercalate_splitAt '.' (keyOf pair).toList, hpieces, ← splitAt_names hpoint,
    Text.intercalate_splitAt]

/-- So the leaf has the key for its path. -/
theorem path_leafOf (h : IsSetting pair) : (leafOf pair).path "" = keyOf pair := by
  obtain ⟨name, rest, hpath⟩ := exists_pathOf_eq_cons pair
  have hname : name ≠ "" := h.ne_empty name (hpath ▸ List.mem_cons_self)
  rw [Leaf.path, names_leafOf, hpath, ← String.toList_inj, toList_keyOf hpath]
  exact toList_foldl_below hname rest

/-! ## Arrangements

The order in which leaves come to stand is not that of the overrides. What can be said of it is said
in two parts, and both are needed: which overrides stand side by side, and which keep their order.
-/

/-- **A rearrangement of overrides**: those with the same names before the last stay in their order,
and those with the same first name stand side by side. -/
structure IsArrangement (order pairs : List String) : Prop where
  perm : order.Perm pairs
  filter_eq : ∀ way, order.filter (fun pair => (pathOf pair).dropLast = way)
    = pairs.filter (fun pair => (pathOf pair).dropLast = way)
  together : ∀ name, order.filter (fun pair => (pathOf pair).head? = some name) <:+: order

/-- **A table that holds the overrides of a list**, each as a leaf. -/
structure Collects (t : Table) (pairs order : List String) : Prop where
  isGrown : IsGrown t
  leaves_eq : leaves t = order.map leafOf
  perm : order.Perm pairs
  filter_eq : ∀ way, order.filter (fun pair => (pathOf pair).dropLast = way)
    = pairs.filter (fun pair => (pathOf pair).dropLast = way)

/-- **One override more** is put behind all those that share the way to it. -/
theorem Collects.exists_concat {t : Table} {pairs order : List String} (h : Collects t pairs order)
    (hpair : IsSetting pair) (hapart : ∀ p ∈ pairs, Apart (pathOf p) (pathOf pair)) :
    ∃ t' order', putOverride t pair = .ok t' ∧ Collects t' (pairs ++ [pair]) order' := by
  obtain ⟨name, rest, hpath⟩ := exists_pathOf_eq_cons pair
  obtain ⟨v, text, hv, htable, -⟩ := hpair.exists_value
  have hleaf : leafOf pair = ⟨name, rest, v⟩ := leafOf_eq hpath hv
  -- The leaves are those of the pairs so far, so the path is apart from them.
  have hfree : ∀ l ∈ leaves t, Apart l.names (name :: rest) := by
    rw [h.leaves_eq, List.forall_mem_map, ← hpath]
    exact fun p hp => names_leafOf p ▸ hapart p (h.perm.mem_iff.mp hp)
  obtain ⟨t', hbind, hgrown, before, after, hbefore, hafter, hway⟩ :=
    exists_sprouts h.isGrown (hpath ▸ hpair.ne_empty) htable hfree
  rw [h.leaves_eq] at hbefore
  obtain ⟨front, back, rfl, rfl, rfl⟩ := List.map_eq_append_iff.mp hbefore
  have hput : putOverride t pair = .ok t' := by
    rw [putOverride_of_means hpair.isPair hpath hv, hbind]
  -- The new leaf is the last of those that share all names but the last with it, as its pair is the
  -- last of all.
  refine ⟨t', front ++ pair :: back, hput, hgrown, ?_, ?_, fun way => ?_⟩
  · rw [hafter, List.map_append, List.map_cons, hleaf]
  · refine List.perm_middle.trans (.trans (.cons pair h.perm) ?_)
    exact (List.perm_append_singleton pair pairs).symm
  · rw [List.filter_append pairs, ← h.filter_eq, List.filter_append, List.filter_append,
      List.filter_cons, List.append_assoc]
    by_cases heq : (pathOf pair).dropLast = way
    · -- those behind it have another way
      have hnone : back.filter (fun p => (pathOf p).dropLast = way) = [] := by
        refine List.filter_eq_nil_iff.mpr fun p hp hp' => ?_
        refine hway _ (List.mem_map_of_mem hp) ?_
        rw [← hleaf, names_leafOf, names_leafOf, of_decide_eq_true hp', heq]
      rw [hnone, if_pos (decide_eq_true heq), List.filter_singleton]
      simp [heq]
    · simp [heq]

/-- **A list of overrides whose paths are apart** is put into a table that holds them all. -/
theorem exists_collects {pairs : List String} (hpairs : ∀ pair ∈ pairs, IsSetting pair)
    (hapart : pairs.Pairwise fun p q => Apart (pathOf p) (pathOf q)) :
    ∃ t order, parseOverrides pairs = .ok t ∧ Collects t pairs order := by
  -- From the end, for overrides are put one behind another.
  induction pairs using List.reverseRecOn with
  | nil => exact ⟨[], [], rfl, .nil, rfl, .nil, fun _ => rfl⟩
  | append_singleton pairs pair ih =>
    rw [List.forall_mem_append, List.forall_mem_singleton] at hpairs
    obtain ⟨hbefore, -, hlast⟩ := List.pairwise_append.mp hapart
    obtain ⟨t, order, ht, hcollects⟩ := ih hpairs.1 hbefore
    obtain ⟨t', order', hput, hcollects'⟩ := hcollects.exists_concat hpairs.2
      fun p hp => hlast p hp pair (List.mem_singleton_self pair)
    refine ⟨t', order', ?_, hcollects'⟩
    rw [parseOverrides, List.foldlM_append, show pairs.foldlM putOverride [] = .ok t from ht]
    show [pair].foldlM putOverride t = _
    rw [List.foldlM_cons, hput]
    rfl

/-! ## Flattening

Writing a grown table meets its leaves in their order and writes one item for each. A leaf that has
no TOML form is the one thing that can stop it, and overrides with such a value are excluded. -/

/-- An item that is written from a leaf of a table at a path. -/
def IsLine (above item : String) (l : Leaf) : Prop :=
  ∃ text, toml (l.path above) l.value = .ok text ∧ item = override (l.path above) text

/-- A value that is no table is written at its path. -/
theorem flattenValue_of_isTable {v : Value} (h : v.isTable = false) {path text : String}
    (htext : toml path v = .ok text) : flattenValue path v = .ok [override path text] := by
  have hflatten : flattenValue path v = (do return [override path (← toml path v)]) := by
    cases v with
    | table t => exact absurd h nofun
    | _ => rw [flattenValue.eq_def]
  rw [hflatten, htext]
  rfl

theorem flattenValue_table {s : Table} (h : s ≠ []) (path : String) :
    flattenValue path (.table s) = flattenEntries path s := by
  obtain ⟨e, s, rfl⟩ := List.exists_cons_of_ne_nil h
  rw [flattenValue.eq_def]

/-- **A grown table is written leaf by leaf**, if each of its leaves has a TOML form. -/
theorem exists_flattenEntries_of_isGrown {t : Table} (ht : IsGrown t) (above : String)
    (htoml : ∀ l ∈ leaves t, ∃ text, toml (l.path above) l.value = .ok text) :
    ∃ items, flattenEntries above t = .ok items ∧ List.Forall₂ (IsLine above) items (leaves t) := by
  -- On the table and those inside of it: a leaf is written at its path, a table goes on below its
  -- key.
  induction ht generalizing above with
  | @intro t hnodup hkeys hfull hinner ih =>
    refine exists_flattenEntries fun e he => ?_
    obtain ⟨key, v⟩ := e
    obtain ⟨name, rfl : key = .str name, hname, hv⟩ :=
      (IsGrown.intro hnodup hkeys hfull hinner).entry _ he
    have hat : ∀ l ∈ leavesAt name v, ∃ text, toml (l.path above) l.value = .ok text := by
      obtain ⟨front, back, rfl⟩ := List.append_of_mem he
      rw [leaves_split hname] at htoml
      exact fun l hl => htoml l (List.mem_append_right _ (List.mem_append_left _ hl))
    refine ⟨name, rfl, hname, ?_⟩
    rcases hv.cases with hleaf | ⟨s, rfl : v = .table s, hs, -⟩
    · rw [leavesAt_of_isTable hleaf] at hat ⊢
      obtain ⟨text, htext⟩ := hat _ List.mem_cons_self
      exact ⟨_, flattenValue_of_isTable hleaf htext, .cons ⟨text, htext, rfl⟩ .nil⟩
    · rw [leavesAt_table hs, List.forall_mem_map] at hat
      obtain ⟨items, hitems, hall⟩ := ih _ s he (below above name) hat
      refine ⟨items, (flattenValue_table hs _).trans hitems, ?_⟩
      rw [leavesAt_table hs, List.forall₂_map_right_iff]
      exact hall

/-! ## The whole way

The list is put together, which gives a grown table, and that is flattened. -/

/-- Leaves with the same first name stand side by side. -/
theorem IsGrown.exists_beside {t : Table} (ht : IsGrown t) (name : String) :
    ∃ front beside back, leaves t = front ++ beside ++ back ∧ (∀ l ∈ front, l.name ≠ name) ∧
      (∀ l ∈ beside, l.name = name) ∧ ∀ l ∈ back, l.name ≠ name := by
  -- The leaves under a name are those of its one entry, if there is one, and so they stand side by
  -- side.
  by_cases hmem : Value.str name ∈ t.keys
  · obtain ⟨front, v, back, rfl, hfront, hback⟩ := Table.exists_split ht.nodup_keys hmem
    have he : (Value.str name, v) ∈ front ++ (.str name, v) :: back :=
      List.mem_append_right _ List.mem_cons_self
    obtain ⟨_, heq, hname, hv⟩ := ht.entry _ he
    obtain rfl := Value.str.inj heq
    have hapart : ∀ {s : Table}, s.Sublist (front ++ (.str name, v) :: back) →
        Value.str name ∉ s.keys → ∀ l ∈ leaves s, l.name ≠ name := fun hs hnot l hl heq =>
      hnot (heq ▸ (ht.sublist hs).str_name_mem_keys hl)
    refine ⟨leaves front, leavesAt name v, leaves back, ?_, ?_, fun l hl => ?_, ?_⟩
    · rw [leaves_split hname, List.append_assoc]
    · exact hapart (List.sublist_append_left _ _) hfront
    · exact IsGrown.name_of_mem_leavesAt hv hl
    · exact hapart ((List.sublist_cons_self _ back).trans (List.sublist_append_right front _)) hback
  · refine ⟨leaves t, [], [], by simp, fun l hl heq => ?_, nofun, nofun⟩
    exact hmem (heq ▸ ht.str_name_mem_keys hl)

/-- The order in which the leaves stand is an arrangement of the pairs. -/
theorem Collects.isArrangement {t : Table} {pairs order : List String}
    (h : Collects t pairs order) :
    IsArrangement order pairs := by
  refine ⟨h.perm, h.filter_eq, fun name => ?_⟩
  obtain ⟨front, beside, back, hleaves, hfront, hbeside, hback⟩ := h.isGrown.exists_beside name
  rw [h.leaves_eq] at hleaves
  obtain ⟨order', back, rfl, horder, rfl⟩ := List.map_eq_append_iff.mp hleaves
  obtain ⟨front, beside, rfl, rfl, rfl⟩ := List.map_eq_append_iff.mp horder
  rw [List.forall_mem_map] at hfront hbeside hback
  have hhead : ∀ pair, (pathOf pair).head? = some (leafOf pair).name := fun pair => by
    rw [← names_leafOf]
    rfl
  -- The pairs of a first name are those whose leaves are under it, so they stand side by side as
  -- the leaves do.
  have hnone : ∀ {ps : List String}, (∀ p ∈ ps, (leafOf p).name ≠ name) →
      ps.filter (fun pair => (pathOf pair).head? = some name) = [] := by
    refine fun hps => List.filter_eq_nil_iff.mpr fun p hp hp' => hps p hp ?_
    exact Option.some.inj ((hhead p).symm.trans (of_decide_eq_true hp'))
  have hall : beside.filter (fun pair => (pathOf pair).head? = some name) = beside := by
    refine List.filter_eq_self.mpr fun p hp => decide_eq_true ?_
    rw [hhead, hbeside p hp]
  rw [List.filter_append, List.filter_append, hnone hfront, hnone hback, hall]
  exact ⟨front, back, by simp⟩

/-- The leaf of an override has a TOML form, and the item that is written from it is one of that. -/
theorem IsSetting.exists_toml (h : IsSetting pair) :
    ∃ text, toml ((leafOf pair).path "") (leafOf pair).value = .ok text ∧
      IsItemOf pair (override ((leafOf pair).path "") text) := by
  obtain ⟨name, rest, hpath⟩ := exists_pathOf_eq_cons pair
  obtain ⟨v, text, hv, -, htext⟩ := h.exists_value
  rw [path_leafOf h, leafOf_eq hpath hv]
  exact ⟨text, htext, v, text, hv, htext, rfl⟩

/-- **Every override of a list is written once**: a list whose paths are apart is put together, and
what is flattened from that are the overrides of the list, rearranged. -/
theorem exists_overrides {pairs : List String} (hpairs : ∀ pair ∈ pairs, IsSetting pair)
    (hapart : pairs.Pairwise fun p q => Apart (pathOf p) (pathOf q)) :
    ∃ t order items, parseOverrides pairs = .ok t ∧ overrides (.table t) = .ok items ∧
      IsArrangement order pairs ∧ List.Forall₂ IsItemOf order items := by
  obtain ⟨t, order, ht, hcollects⟩ := exists_collects hpairs hapart
  have hsetting : ∀ pair ∈ order, IsSetting pair := fun pair hp =>
    hpairs pair (hcollects.perm.mem_iff.mp hp)
  have htoml : ∀ l ∈ leaves t, ∃ text, toml (l.path "") l.value = .ok text := by
    rw [hcollects.leaves_eq, List.forall_mem_map]
    intro pair hp
    obtain ⟨text, htext, -⟩ := (hsetting pair hp).exists_toml
    exact ⟨text, htext⟩
  obtain ⟨items, hitems, hall⟩ := exists_flattenEntries_of_isGrown hcollects.isGrown "" htoml
  refine ⟨t, order, items, ht, hitems, hcollects.isArrangement, ?_⟩
  rw [hcollects.leaves_eq, List.forall₂_map_right_iff] at hall
  -- What is written for a leaf is what its pair is written as, for there is only one text for a
  -- value.
  refine ((List.forall₂_and_left order items).mpr ⟨hsetting, hall.flip⟩).imp ?_
  rintro pair item ⟨hpair, text, htext, rfl⟩
  obtain ⟨text', htext', hitem⟩ := hpair.exists_toml
  rw [htext] at htext'
  exact Except.ok.inj htext' ▸ hitem

end Config

end AgentClient
