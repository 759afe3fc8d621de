import AgentClient.Config.Overrides
import AgentClient.Proofs.Json.Documents

/-!
# Proofs/Config/Bindings — what is bound where in a configuration put together from overrides

Putting a value at a path makes tables on the way to it, puts the value, and leaves every path alone
that neither leads to that path nor on from it (`at?_bind_append`, `exists_table_at?_bind`,
`at?_bind_of_apart`); it fails exactly where a value stands in the way (`bind_eq_none_iff`).  Of a
whole list of overrides these three laws give where each value is found, which overrides the leaves
come from, and which lists are refused (`parseOverrides_frame`). -/

namespace AgentClient

/-! ## Paths into tables

A path is a list of keys, and following it is looking up one after another. Putting a value descends
in the same way, and makes tables where it finds none; that a table was found or made is one case
for what comes behind it. -/

/-- Whether a value is a table. -/
def Value.isTable : Value → Bool
  | .table _ => true
  | _ => false

theorem Value.isTable_eq_false_iff {v : Value} : v.isTable = false ↔ ∀ t, v ≠ .table t := by
  cases v <;> simp [isTable]

/-- **What a path of keys leads to**, from table to table. -/
def Value.at? (v : Value) : List Value → Option Value
  | [] => some v
  | key :: path =>
    match v with
    | .table t => (List.lookup key t).bind fun w => w.at? path
    | _ => none

namespace Table

/-- A path of names into a table. -/
def at? (t : Table) (names : List String) : Option Value :=
  (Value.table t).at? (names.map .str)

/-- What the specification looks up under a name is what the table finds. -/
theorem lookup_str (t : Table) (name : String) : List.lookup (.str name) t = t.get? name := by
  induction t with
  | nil => rfl
  | cons e t ih =>
    obtain ⟨k, v⟩ := e
    by_cases h : k = .str name
    · rw [get?, if_pos h, h, List.lookup_cons_self]
    · rw [get?, if_neg h, List.lookup_cons, beq_eq_false_iff_ne.mpr (Ne.symm h), ih]

theorem at?_singleton (t : Table) (name : String) : t.at? [name] = t.get? name := by
  rw [at?, List.map_singleton, Value.at?, lookup_str]
  cases t.get? name <;> rfl

/-- Putting under a name changes nothing under the other keys. -/
theorem lookup_put_of_ne (t : Table) {name : String} {key : Value} (v : Value)
    (h : key ≠ .str name) : List.lookup key (t.put (.str name) v) = List.lookup key t := by
  induction t with
  | nil => rw [put, List.lookup_cons, beq_eq_false_iff_ne.mpr h]
  | cons e t ih =>
    obtain ⟨k, w⟩ := e
    rw [put]
    split
    · next hk =>
      obtain rfl := Value.isSameKey_str_iff.mp hk
      rw [List.lookup_cons, List.lookup_cons, beq_eq_false_iff_ne.mpr h]
    · rw [List.lookup_cons, List.lookup_cons, ih]

/-- A table that is found, or made where there is none. -/
theorem lookup_of_getD_eq_table {t inner : Table} {name : String}
    (h : t.getD name (.table []) = .table inner) :
    List.lookup (.str name) t = some (.table inner) ∨
      List.lookup (.str name) t = none ∧ inner = [] := by
  rw [lookup_str]
  rw [getD] at h
  -- Nothing there stands for the empty table; anything there is the table itself.
  cases hget : t.get? name with
  | none =>
    rw [hget] at h
    exact .inr ⟨rfl, (Value.table.inj h).symm⟩
  | some v =>
    rw [hget] at h
    exact .inl (congrArg some h)

/-- A path on from a table that is found or made there. -/
theorem at?_cons_of_getD {t inner : Table} {name : String}
    (h : t.getD name (.table []) = .table inner) {path : List Value} (hpath : path ≠ []) :
    (Value.table t).at? (.str name :: path) = (Value.table inner).at? path := by
  rw [Value.at?]
  rcases lookup_of_getD_eq_table h with hget | ⟨hnone, rfl⟩
  · rw [hget]
    rfl
  · rw [hnone]
    obtain ⟨key, path, rfl⟩ := List.exists_cons_of_ne_nil hpath
    rfl

end Table

namespace Config

/-! ## Putting one value

Three laws say what is found afterwards: under the path that was put, on the way to it, and at paths
apart from it. Every path is in one of these three places. The fourth law says when there is no
afterwards. All of them are inductions on the names of the path. -/

/-- Two paths of which none leads to the other. -/
def Apart {α : Type} (p q : List α) : Prop :=
  ¬p <+: q ∧ ¬q <+: p

/-- Whether paths are apart is decided by comparing them. -/
instance {α : Type} [DecidableEq α] (p q : List α) : Decidable (Apart p q) :=
  inferInstanceAs (Decidable (_ ∧ _))

/-- A way of several names leads through a table, or through one that is made for it. -/
theorem bind_cons_eq_some {name next : String} {rest : List String} {v : Value} {t t' : Table}
    (h : bind name (next :: rest) v t = some t') :
    ∃ inner inner', t.getD name (.table []) = .table inner ∧
      bind next rest v inner = some inner' ∧ t' = t.put (.str name) (.table inner') := by
  rw [bind] at h
  split at h
  · next inner hget =>
    obtain ⟨inner', hinner, rfl⟩ := Option.map_eq_some_iff.mp h
    exact ⟨inner, inner', hget, hinner, rfl⟩
  · exact absurd h nofun

variable {name : String} {rest : List String} {v : Value} {t t' : Table}

theorem at?_put_self (path : List Value) :
    (Value.table (t.put (.str name) v)).at? (.str name :: path) = v.at? path := by
  rw [Value.at?, Table.lookup_str, Table.get?_put_self]
  rfl

theorem at?_put_of_ne {key : Value} (h : key ≠ .str name) (path : List Value) :
    (Value.table (t.put (.str name) v)).at? (key :: path) = (Value.table t).at? (key :: path) := by
  rw [Value.at?, Value.at?, Table.lookup_put_of_ne t v h]

/-- **What is put is found**, with all that is in it. -/
theorem at?_bind_append (h : bind name rest v t = some t') (path : List Value) :
    (Value.table t').at? ((name :: rest).map .str ++ path) = v.at? path := by
  induction rest generalizing name t t' with
  | nil =>
    obtain rfl := Option.some.inj h
    exact at?_put_self path
  | cons next rest ih =>
    obtain ⟨inner, inner', -, hinner, rfl⟩ := bind_cons_eq_some h
    rw [List.map_cons, List.cons_append, at?_put_self]
    exact ih hinner

/-- **On the way to it there are tables.** -/
theorem exists_table_at?_bind (h : bind name rest v t = some t') {path : List Value}
    (hpath : path <+: (name :: rest).map .str) (hne : path ≠ (name :: rest).map .str) :
    ∃ s, (Value.table t').at? path = some (.table s) := by
  -- Along the way: above its last name there is a table at every place, old or new.
  induction rest generalizing name t t' path with
  | nil =>
    rcases List.prefix_cons_iff.mp hpath with rfl | ⟨path, rfl, hnil⟩
    · exact ⟨t', rfl⟩
    · exact absurd (congrArg _ (List.prefix_nil.mp hnil)) hne
  | cons next rest ih =>
    obtain ⟨inner, inner', -, hinner, rfl⟩ := bind_cons_eq_some h
    rcases List.prefix_cons_iff.mp hpath with rfl | ⟨more, rfl, hmore⟩
    · exact ⟨_, rfl⟩
    · rw [at?_put_self]
      exact ih hinner hmore fun heq => hne (congrArg _ heq)

/-- **Everything else stays as it was.** -/
theorem at?_bind_of_apart (h : bind name rest v t = some t') {path : List Value}
    (hpath : Apart ((name :: rest).map .str) path) :
    (Value.table t').at? path = (Value.table t).at? path := by
  -- Along the way: where the two part, the other path goes through an entry that is not touched;
  -- before that both go into the same table.
  induction rest generalizing name t t' path with
  | nil =>
    obtain rfl := Option.some.inj h
    cases path with
    | nil => exact absurd List.nil_prefix hpath.2
    | cons key path =>
      refine at?_put_of_ne (fun hkey => hpath.1 ?_) path
      exact hkey ▸ (List.prefix_cons_inj key).mpr List.nil_prefix
  | cons next rest ih =>
    obtain ⟨inner, inner', hget, hinner, rfl⟩ := bind_cons_eq_some h
    cases path with
    | nil => exact absurd List.nil_prefix hpath.2
    | cons key path =>
      by_cases hkey : key = .str name
      · subst hkey
        have hinside : Apart ((next :: rest).map .str) path :=
          ⟨fun hprefix => hpath.1 ((List.prefix_cons_inj _).mpr hprefix),
            fun hprefix => hpath.2 ((List.prefix_cons_inj _).mpr hprefix)⟩
        have hne : path ≠ [] := fun hnil => hinside.2 (hnil ▸ List.nil_prefix)
        rw [at?_put_self, ih hinner hinside, Table.at?_cons_of_getD hget hne]
      · exact at?_put_of_ne hkey path

/-- A value that is no table stands on the way to the end of a path. -/
def IsBlocked (t : Table) (names : List String) : Prop :=
  ∃ front back w, names = front ++ back ∧ front ≠ [] ∧ back ≠ [] ∧
    t.at? front = some w ∧ w.isTable = false

/-- Nothing can stand in the way of a single name. -/
theorem not_isBlocked_singleton (t : Table) (name : String) : ¬IsBlocked t [name] := by
  rintro ⟨front, back, w, heq, hfront, hback, -⟩
  rcases List.append_eq_singleton_iff.mp heq.symm with ⟨h, -⟩ | ⟨-, h⟩
  · exact hfront h
  · exact hback h

/-- Past a table that is found or made, what stands in the way stands in that. -/
theorem isBlocked_cons_iff {next : String} {inner : Table}
    (h : t.getD name (.table []) = .table inner) :
    IsBlocked t (name :: next :: rest) ↔ IsBlocked inner (next :: rest) := by
  -- What is in the way stands below the first name, so it is found in the table there.
  constructor
  · rintro ⟨_ | ⟨first, front⟩, back, w, heq, hfront, hback, hat, hw⟩
    · exact absurd rfl hfront
    · obtain ⟨rfl, hrest⟩ := List.cons.inj heq
      by_cases hnil : front = []
      · subst hnil
        rw [Table.at?_singleton] at hat
        rw [Table.getD, hat] at h
        obtain rfl : w = .table inner := h
        exact absurd hw nofun
      · rw [Table.at?, List.map_cons,
          Table.at?_cons_of_getD h (mt List.map_eq_nil_iff.mp hnil)] at hat
        exact ⟨front, back, w, hrest, hnil, hback, hat, hw⟩
  · rintro ⟨front, back, w, heq, hfront, hback, hat, hw⟩
    refine ⟨name :: front, back, w, congrArg _ heq, List.cons_ne_nil _ _, hback, ?_, hw⟩
    rw [Table.at?, List.map_cons, Table.at?_cons_of_getD h (mt List.map_eq_nil_iff.mp hfront)]
    exact hat

/-- A value that is no table is in the way of whatever leads on from it. -/
theorem isBlocked_of_getD {next : String}
    (h : (t.getD name (.table [])).isTable = false) : IsBlocked t (name :: next :: rest) := by
  rw [Table.getD] at h
  cases hget : t.get? name with
  | none => rw [hget] at h; exact absurd h nofun
  | some w =>
    rw [hget] at h
    exact ⟨[name], next :: rest, w, rfl, List.cons_ne_nil _ _, List.cons_ne_nil _ _,
      (t.at?_singleton name).trans hget, h⟩

/-- **A value cannot be put** exactly where one that is no table stands in the way. -/
theorem bind_eq_none_iff : bind name rest v t = none ↔ IsBlocked t (name :: rest) := by
  induction rest generalizing name t with
  | nil => exact iff_of_false (Option.some_ne_none _) (not_isBlocked_singleton t name)
  | cons next rest ih =>
    rw [bind]
    split
    · next inner hget => rw [Option.map_eq_none_iff, ih, isBlocked_cons_iff hget]
    · next hget => exact iff_of_true rfl (isBlocked_of_getD (Value.isTable_eq_false_iff.mpr hget))

/-! ## Overrides

An override is a text. It is cut at the first sign into key and value, and the key at its points
into names. What remains to be said is what the text behind the sign means, which is JSON or the
text. -/

/-- The key of an override: the text before the first sign. -/
def keyOf (pair : String) : String :=
  String.ofList (pair.toList.takeWhile (· ≠ '='))

/-- The text behind the first sign of an override. -/
def rawOf (pair : String) : String :=
  String.ofList (pair.toList.dropWhile (· ≠ '=')).tail

/-- **The path of an override**: the names between the points of its key. -/
def pathOf (pair : String) : List String :=
  Text.split '.' (keyOf pair)

/-- An override that has a sign behind a key that is not empty. -/
structure IsPair (pair : String) : Prop where
  sign : '=' ∈ pair.toList
  key : keyOf pair ≠ ""

/-- **What the text behind the sign means**: the document that it is, or itself if it is none. -/
inductive Means (raw : String) : Value → Prop where
  | document {v : Value} (h : Json.read .wire raw = .ok v) : Means raw v
  | text {what : Json.Complaint} {place : Json.Place}
      (h : Json.read .wire raw = .error (.malformed what place)) : Means raw (.str raw)

/-- **What an override is read as**: the document that it is, or its text where it is none. -/
theorem overrideValue_eq_ok_iff {raw : String} {v : Value} :
    overrideValue raw = .ok v ↔ Means raw v := by
  rw [overrideValue]
  constructor
  · intro h
    split at h
    · next w hread => exact Except.ok.inj h ▸ .document hread
    · next what place hread => exact Except.ok.inj h ▸ .text hread
    · exact absurd h nofun
  · rintro (h | h) <;> rw [h]

/-- A text with the sign is cut at its first one. -/
theorem cut?_eq_some {sep : Char} {cs : List Char} (h : sep ∈ cs) :
    Text.cut? sep cs = some (cs.takeWhile (· ≠ sep), (cs.dropWhile (· ≠ sep)).tail) := by
  induction cs with
  | nil => exact absurd h List.not_mem_nil
  | cons c cs ih =>
    rw [Text.cut?]
    by_cases hc : c = sep
    · simp [hc]
    · rw [if_neg hc, ih ((List.mem_cons.mp h).resolve_left (Ne.symm hc))]
      simp [hc]

/-- A text without the sign is not cut. -/
theorem cut?_eq_none {sep : Char} {cs : List Char} (h : sep ∉ cs) : Text.cut? sep cs = none := by
  induction cs with
  | nil => rfl
  | cons c cs ih =>
    rw [List.mem_cons, not_or] at h
    rw [Text.cut?, if_neg (Ne.symm h.1), ih h.2]
    rfl

theorem exists_pathOf_eq_cons (pair : String) : ∃ name rest, pathOf pair = name :: rest := by
  refine List.exists_cons_of_ne_nil ?_
  rw [pathOf, Text.split]
  exact mt List.map_eq_nil_iff.mp (Text.splitAt_ne_nil _ _)

/-- What putting an override comes to. -/
theorem putOverride_eq {pair : String} (h : IsPair pair) {name : String} {rest : List String}
    (hpath : pathOf pair = name :: rest) (t : Table) :
    putOverride t pair = (do
      let v ← overrideValue (rawOf pair)
      match bind name rest v t with
      | some t => return t
      | none => throw (.client (.config (.conflict (keyOf pair))))) := by
  -- There is a sign, with a key before it that is not empty, so neither of the two first complaints
  -- is made.
  have hcut := cut?_eq_some h.sign
  have hkey : pair.toList.takeWhile (· ≠ '=') ≠ [] := fun hnil =>
    h.key (congrArg String.ofList hnil)
  obtain ⟨c, cs, hcs⟩ := List.exists_cons_of_ne_nil hkey
  rw [pathOf, keyOf, hcs] at hpath
  rw [hcs] at hcut
  rw [putOverride, hcut]
  dsimp only
  rw [hpath, keyOf, hcs]
  rfl

/-- What is put has a sign and a key. -/
theorem isPair_of_putOverride {pair : String} (h : putOverride t pair = .ok t') : IsPair pair := by
  by_cases hsign : '=' ∈ pair.toList
  · refine ⟨hsign, fun hkey => ?_⟩
    have hnil : pair.toList.takeWhile (· ≠ '=') = [] := String.ofList_eq_empty_iff.mp hkey
    rw [putOverride, cut?_eq_some hsign, hnil] at h
    exact absurd h nofun
  · rw [putOverride, cut?_eq_none hsign] at h
    exact absurd h nofun

/-- An override that can be read is put, or refused where something is in its way. -/
theorem putOverride_of_means {pair : String} (h : IsPair pair) {name : String} {rest : List String}
    (hpath : pathOf pair = name :: rest) {v : Value} (hv : Means (rawOf pair) v) (t : Table) :
    putOverride t pair = match bind name rest v t with
      | some t => .ok t
      | none => .error (.client (.config (.conflict (keyOf pair)))) := by
  rw [putOverride_eq h hpath, overrideValue_eq_ok_iff.mpr hv]
  rfl

/-- **What an override has put**, once it is put. -/
theorem exists_of_putOverride {pair : String} (h : putOverride t pair = .ok t') :
    IsPair pair ∧ ∃ name rest v, pathOf pair = name :: rest ∧ Means (rawOf pair) v ∧
      bind name rest v t = some t' := by
  have hpair := isPair_of_putOverride h
  obtain ⟨name, rest, hpath⟩ := exists_pathOf_eq_cons pair
  refine ⟨hpair, name, rest, ?_⟩
  -- The value is read first, so it is there when the way is taken.
  obtain ⟨v, hv, -⟩ := Json.exists_of_bind_eq_ok (putOverride_eq hpair hpath t ▸ h)
  have hmeans := overrideValue_eq_ok_iff.mp hv
  rw [putOverride_of_means hpair hpath hmeans] at h
  refine ⟨v, hpath, hmeans, ?_⟩
  split at h
  · next s hbind => rw [hbind, Except.ok.inj h]
  · exact absurd h nofun

/-! ## Lists of overrides

Overrides are put from left to right, so a later one may replace what an earlier one has put. A path
therefore leads to the value of the last override for it, unless one behind that has put something
on the way or further on. -/

theorem Apart.map_str {p q : List String} (h : Apart p q) : Apart (p.map Value.str) (q.map .str) :=
  have hinj : Function.Injective Value.str := fun _ _ => Value.str.inj
  ⟨mt (List.prefix_map_iff_of_injective hinj).mp h.1,
    mt (List.prefix_map_iff_of_injective hinj).mp h.2⟩

/-- The first override is put, and the others into what comes of it. -/
theorem exists_of_foldlM_cons {pair : String} {pairs : List String}
    (h : (pair :: pairs).foldlM putOverride t = .ok t') :
    ∃ s, putOverride t pair = .ok s ∧ pairs.foldlM putOverride s = .ok t' := by
  rw [List.foldlM_cons] at h
  exact Json.exists_of_bind_eq_ok h

/-- Overrides leave a path alone that they are all apart from. -/
theorem at?_foldlM_of_apart {pairs : List String} {path : List String}
    (h : pairs.foldlM putOverride t = .ok t') (hpairs : ∀ pair ∈ pairs, Apart (pathOf pair) path) :
    t'.at? path = t.at? path := by
  induction pairs generalizing t with
  | nil => rw [Except.ok.inj h]
  | cons pair pairs ih =>
    rw [List.forall_mem_cons] at hpairs
    obtain ⟨s, hs, hrest⟩ := exists_of_foldlM_cons h
    obtain ⟨-, name, rest, v, hpath, -, hbind⟩ := exists_of_putOverride hs
    rw [ih hrest hpairs.2]
    exact at?_bind_of_apart hbind (hpath ▸ hpairs.1.map_str)

/-- **Where a leaf comes from**: from an override that leads to it, or it was there. -/
theorem exists_source {pairs : List String} (h : pairs.foldlM putOverride t = .ok t')
    {path : List Value} {w : Value} (hat : (Value.table t').at? path = some w)
    (hw : w.isTable = false) :
    (∃ pair ∈ pairs, ∃ v rest, Means (rawOf pair) v ∧
        path = (pathOf pair).map .str ++ rest ∧ v.at? rest = some w) ∨
      (Value.table t).at? path = some w := by
  induction pairs generalizing t with
  | nil => exact .inr (Except.ok.inj h ▸ hat)
  | cons pair pairs ih =>
    obtain ⟨s, hs, hrest⟩ := exists_of_foldlM_cons h
    rcases ih hrest with ⟨later, hlater, hsource⟩ | hat
    · exact .inl ⟨later, List.mem_cons_of_mem _ hlater, hsource⟩
    obtain ⟨-, name, rest, v, hpath, hv, hbind⟩ := exists_of_putOverride hs
    -- The override may lie at the place or above it, and then the value is in what it means; or
    -- below it, or apart from it.
    by_cases hunder : (pathOf pair).map .str <+: path
    · obtain ⟨more, rfl⟩ := hunder
      rw [hpath, at?_bind_append hbind] at hat
      exact .inl ⟨pair, List.mem_cons_self, v, more, hv, rfl, hat⟩
    · by_cases habove : path <+: (pathOf pair).map .str
      · -- a table stands there now
        have hne : path ≠ (pathOf pair).map .str := fun heq => hunder (heq ▸ List.prefix_refl _)
        rw [hpath] at habove hne
        obtain ⟨inner, hinner⟩ := exists_table_at?_bind hbind habove hne
        rw [hat] at hinner
        obtain rfl := Option.some.inj hinner
        exact absurd hw nofun
      · rw [at?_bind_of_apart hbind ⟨hpath ▸ hunder, hpath ▸ habove⟩] at hat
        exact .inr hat

/-- An override that can be read is refused just if something is in its way, and its key is named.
-/
theorem putOverride_eq_error_iff {pair : String} (h : IsPair pair) {v : Value}
    (hv : Means (rawOf pair) v) {t : Table} {f : Failure} :
    putOverride t pair = .error f ↔
      IsBlocked t (pathOf pair) ∧ f = .client (.config (.conflict (keyOf pair))) := by
  obtain ⟨name, rest, hpath⟩ := exists_pathOf_eq_cons pair
  rw [putOverride_of_means h hpath hv, hpath, ← bind_eq_none_iff]
  cases bind name rest v t with
  | none => exact ⟨fun hf => ⟨rfl, (Except.error.inj hf).symm⟩, fun hf => congrArg _ hf.2.symm⟩
  | some s => exact ⟨nofun, fun hf => absurd hf.1 (Option.some_ne_none s)⟩

/-- A list is gone through with an error just if there is a first step that fails with it. -/
theorem foldlM_eq_error_iff {σ α ε : Type} {step : σ → α → Except ε σ} {xs : List α} {s : σ}
    {e : ε} : xs.foldlM step s = .error e ↔ ∃ before x after s', xs = before ++ x :: after ∧
      before.foldlM step s = .ok s' ∧ step s' x = .error e := by
  induction xs generalizing s with
  | nil =>
    refine iff_of_false nofun ?_
    rintro ⟨before, x, after, s', heq, -⟩
    exact absurd heq.symm (List.append_ne_nil_of_right_ne_nil _ (List.cons_ne_nil _ _))
  | cons first xs ih =>
    have hfold : ∀ more : List α,
        (first :: more).foldlM step s = (step s first >>= more.foldlM step) :=
      fun more => List.foldlM_cons
    -- Either the first step is the one that fails, and no other can be, or it is left to those
    -- behind it.
    cases hstep : step s first with
    | error e' =>
      simp only [hstep] at hfold
      rw [hfold]
      constructor
      · rintro ⟨⟩
        exact ⟨[], first, xs, s, rfl, rfl, hstep⟩
      · rintro ⟨_ | ⟨_, before⟩, x, after, s', heq, hbefore, hx⟩ <;>
          obtain ⟨rfl, rfl⟩ := List.cons.inj heq
        · obtain rfl := Except.ok.inj hbefore
          exact hstep.symm.trans hx
        · exact absurd ((hfold before).symm.trans hbefore) nofun
    | ok s₁ =>
      simp only [hstep] at hfold
      rw [hfold]
      refine ih.trans ⟨?_, ?_⟩
      · rintro ⟨before, x, after, s', rfl, hbefore, hx⟩
        exact ⟨first :: before, x, after, s', rfl, (hfold before).trans hbefore, hx⟩
      · rintro ⟨_ | ⟨_, before⟩, x, after, s', heq, hbefore, hx⟩ <;>
          obtain ⟨rfl, rfl⟩ := List.cons.inj heq
        · obtain rfl := Except.ok.inj hbefore
          exact absurd (hstep.symm.trans hx) nofun
        · exact ⟨before, x, after, s', rfl, (hfold before).symm.trans hbefore, hx⟩

/-- **What a list of overrides is refused for**: the first that has something in its way. -/
theorem foldlM_putOverride_eq_error_iff {pairs : List String}
    (hpairs : ∀ pair ∈ pairs, IsPair pair ∧ ∃ v, Means (rawOf pair) v) {f : Failure} :
    pairs.foldlM putOverride t = .error f ↔
      ∃ before pair later s, pairs = before ++ pair :: later ∧
        before.foldlM putOverride t = .ok s ∧ IsBlocked s (pathOf pair) ∧
        f = .client (.config (.conflict (keyOf pair))) := by
  have hput : ∀ pair ∈ pairs, ∀ s : Table, putOverride s pair = .error f ↔
      IsBlocked s (pathOf pair) ∧ f = .client (.config (.conflict (keyOf pair))) := by
    intro pair hpair s
    obtain ⟨h, v, hv⟩ := hpairs pair hpair
    exact putOverride_eq_error_iff h hv
  rw [foldlM_eq_error_iff]
  constructor
  · rintro ⟨before, pair, later, s, rfl, hbefore, hf⟩
    exact ⟨before, pair, later, s, rfl, hbefore, (hput pair (by simp) s).mp hf⟩
  · rintro ⟨before, pair, later, s, rfl, hbefore, hf⟩
    exact ⟨before, pair, later, s, rfl, hbefore, (hput pair (by simp) s).mpr hf⟩

/-- **The frame law of overrides.**  In a configuration that was put together, a path leads to the
value of an override for it if no override behind that has a path leading to it or on from it; and
every path that ends in no table is that of an override, or leads on from it into the value.  A list
whose overrides have keys and values is refused exactly if a value of those before an override
stands in the way of that, and the key of that is named. -/
theorem parseOverrides_frame (pairs : List String) :
    (∀ t, parseOverrides pairs = .ok t →
      (∀ before pair later, pairs = before ++ pair :: later →
        ∃ v, Means (rawOf pair) v ∧
          ((∀ other ∈ later, Apart (pathOf other) (pathOf pair)) →
            t.at? (pathOf pair) = some v)) ∧
      ∀ path w, (Value.table t).at? path = some w → w.isTable = false →
        ∃ pair ∈ pairs, ∃ v rest, Means (rawOf pair) v ∧
          path = (pathOf pair).map .str ++ rest ∧ v.at? rest = some w) ∧
    ((∀ pair ∈ pairs, IsPair pair ∧ ∃ v, Means (rawOf pair) v) →
      ∀ f, parseOverrides pairs = .error f ↔
        ∃ before pair later s, pairs = before ++ pair :: later ∧
          parseOverrides before = .ok s ∧ IsBlocked s (pathOf pair) ∧
          f = .client (.config (.conflict (keyOf pair)))) := by
  refine ⟨fun t ht => ⟨fun before pair later hpairs => ?_, fun path w hat hw => ?_⟩,
    fun hpairs f => foldlM_putOverride_eq_error_iff hpairs⟩
  · rw [hpairs, parseOverrides, List.foldlM_append] at ht
    obtain ⟨s, -, hlater⟩ := Json.exists_of_bind_eq_ok ht
    obtain ⟨s', hs', hrest⟩ := exists_of_foldlM_cons hlater
    obtain ⟨-, name, rest, v, hpath, hv, hbind⟩ := exists_of_putOverride hs'
    -- It stands at its path when it has been put, and what is put apart from it leaves it there.
    refine ⟨v, hv, fun hapart => ?_⟩
    have hself := at?_bind_append hbind []
    rw [List.append_nil] at hself
    rw [at?_foldlM_of_apart hrest hapart, hpath]
    exact hself
  · rcases exists_source ht hat hw with hsource | hempty
    · exact hsource
    · -- the table that it all began with holds nothing but itself
      cases path with
      | nil =>
        obtain rfl := Option.some.inj hempty
        exact absurd hw nofun
      | cons key path => exact absurd hempty nofun

/-- Overrides of which one goes into the object that another has put. -/
def nestedPairs : List String :=
  ["a.b=1", "a.c=\x7b\"d\":2\x7d", "a.c.e=plain"]

/-- Their configuration. -/
def nestedTable : Table :=
  Table.named [("a", .named
    [("b", .int 1), ("c", .named [("d", .int 2), ("e", .str "plain")])])]

/-- The first value is found, and the text in the object comes from the last override.  An override
whose way leads through a number is refused. -/
theorem frame_nestedPairs :
    (parseOverrides nestedPairs = .ok nestedTable ∧
      (∃ v, Means "1" v ∧ nestedTable.at? ["a", "b"] = some v) ∧
      ∃ pair ∈ nestedPairs, ∃ v rest, Means (rawOf pair) v ∧
        ["a", "c", "e"].map Value.str = (pathOf pair).map .str ++ rest ∧
          v.at? rest = some (.str "plain")) ∧
    parseOverrides ["a=1", "a.b=2"] = .error (.client (.config (.conflict "a.b"))) := by
  have hnested : parseOverrides nestedPairs = .ok nestedTable := by decide +kernel
  obtain ⟨hvalue, hsource⟩ := (parseOverrides_frame nestedPairs).1 _ hnested
  obtain ⟨v, hv, hfound⟩ := hvalue [] _ _ rfl
  refine ⟨⟨hnested, ⟨v, hv, hfound (by decide +kernel)⟩, ?_⟩, ?_⟩
  · exact hsource _ _ (by decide +kernel) rfl
  · have hpairs : ∀ pair ∈ ["a=1", "a.b=2"], IsPair pair ∧ ∃ v, Means (rawOf pair) v := by
      refine List.forall_mem_cons.mpr ⟨⟨⟨by decide, by decide⟩, .int 1, ?_⟩,
        List.forall_mem_singleton.mpr ⟨⟨by decide, by decide⟩, .int 2, ?_⟩⟩ <;>
      exact overrideValue_eq_ok_iff.mp (by decide +kernel)
    exact ((parseOverrides_frame _).2 hpairs _).mpr
      ⟨["a=1"], "a.b=2", [], [(.str "a", .int 1)], rfl, by decide +kernel,
        ⟨["a"], ["b"], .int 1, by decide +kernel, nofun, nofun, by decide +kernel, rfl⟩, rfl⟩

end Config

end AgentClient
