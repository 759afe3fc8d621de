import AgentClient.Proofs.Json.EverySpelling
import AgentClient.Proofs.Wire.Readings

/-!
# Proofs/Wire/Unread — only the members that are read matter

A text is widened (`Reading.Widens`) by setting the members of an object in another order and adding
others that are not read, wherever members are read.  Names have to be distinct there, since the
last of several members of one name wins.  Widened texts are alike where they are read
(`Reading.agree_of_widens`), hence **widened lines are one event, or none of them is one**
(`Event.parse_widened`).  This is about every line, since every document is a text of this kind
(`Json.ValueText.exists_line`) and every object and array in it is one of members or elements
(`Json.ValueText.hasForm_of_outcome`). -/

namespace AgentClient

open Wire

/-! ## Tables of pairs

The last pair of a name wins, and under a name that no pair has nothing is found. -/

@[simp]
theorem WireText.toValue_eq_str_iff {key : WireText} {name : String} :
    key.toValue = .str name ↔ key = .plain name := by
  cases key <;> simp [toValue]

namespace Table

/-- What is found after a value has been put under a key. -/
theorem get?_put_toValue (t : Table) (key : WireText) (v : Value) (name : String) :
    (t.put key.toValue v).get? name = if key = .plain name then some v else t.get? name := by
  split
  · next hkey =>
    rw [hkey]
    exact t.get?_put_self name v
  · next hkey =>
    -- Along the entries: an entry of the key is replaced, and one behind all others has a name of
    -- its own.
    induction t with
    | nil => simp [put, get?, hkey]
    | cons e t ih =>
      rw [put]
      split
      · next hsame => simp [get?, (WireText.isSameKey_toValue_iff key).mp hsame, hkey]
      · simp only [get?, ih]

/-- **Under a name stands the value of a pair of that name**, if there is one. -/
theorem get?_ofPairs {pairs : Table} (hkeys : ∀ e ∈ pairs, ∃ key : WireText, e.1 = key.toValue)
    (name : String) :
    ((ofPairs pairs).get? name = none ∧ ∀ e ∈ pairs, e.1 ≠ .str name)
      ∨ ∃ e ∈ pairs, e.1 = .str name ∧ (ofPairs pairs).get? name = some e.2 := by
  -- From the end, for the last entry of a name is the one that is found.
  induction pairs using List.reverseRecOn with
  | nil => exact .inl ⟨rfl, nofun⟩
  | append_singleton pairs e ih =>
    rw [List.forall_mem_append, List.forall_mem_singleton] at hkeys
    obtain ⟨hkeys, key, hkey⟩ := hkeys
    have hget : (ofPairs (pairs ++ [e])).get? name
        = if key = .plain name then some e.2 else (ofPairs pairs).get? name := by
      rw [ofPairs, List.foldl_append, List.foldl_cons, List.foldl_nil, hkey]
      exact get?_put_toValue _ key e.2 name
    rw [hget]
    by_cases hname : key = .plain name
    · rw [if_pos hname]
      exact .inr ⟨e, List.mem_append_right _ List.mem_cons_self, by simp [hkey, hname], rfl⟩
    · have hne : e.1 ≠ .str name := by simp [hkey, hname]
      rw [if_neg hname]
      refine (ih hkeys).imp (fun h => ⟨h.1, ?_⟩) fun ⟨e', he', h⟩ => ?_
      · exact List.forall_mem_append.mpr ⟨h.2, List.forall_mem_singleton.mpr hne⟩
      · exact ⟨e', List.mem_append_left _ he', h⟩

end Table

/-! ## Texts with other members

Widening is a relation between texts, defined along the reading: what is looked at as a whole may be
spelled in another way, of an object the members are reordered and others added, and of an array the
elements are widened one by one. Members that are added have to be such that they can be read, since
a line with a member that cannot is refused for it. -/

namespace Reading

open Json

variable {d : Dialect}

/-- Two outcomes that are both faults, or both values of which the second goes with the first. -/
def Agree {α β : Type} (R : α → β → Prop) : Except Stop α → Except Stop β → Prop
  | .ok a, .ok b => R a b
  | .error _, .error _ => True
  | _, _ => False

namespace Agree

variable {α β γ δ : Type} {R : α → β → Prop} {S : γ → δ → Prop} {x : Except Stop α}
  {y : Except Stop β}

theorem bind (h : Agree R x y) {f : α → Except Stop γ} {g : β → Except Stop δ}
    (hfg : ∀ a b, R a b → Agree S (f a) (g b)) : Agree S (x >>= f) (y >>= g) := by
  cases x <;> cases y <;> first | exact trivial | exact hfg _ _ h | exact False.elim h

theorem map (h : Agree R x y) {f : α → γ} {g : β → δ} (hfg : ∀ a b, R a b → S (f a) (g b)) :
    Agree S (x.map f) (y.map g) := by
  cases x <;> cases y <;> first | exact h | exact hfg _ _ h

theorem imp (h : Agree R x y) {R' : α → β → Prop} (hR : ∀ a b, R a b → R' a b) : Agree R' x y := by
  cases x <;> cases y <;> first | exact h | exact hR _ _ h

/-- Two outcomes are both faults, or none of them is. -/
theorem iff_exists_ok : Agree (fun _ _ => True) x y ↔ ((∃ a, x = .ok a) ↔ ∃ b, y = .ok b) := by
  cases x <;> cases y <;> simp [Agree]

/-- Values that go with each other are the outcomes. -/
theorem with_eq (h : Agree R x y) : Agree (fun a b => x = .ok a ∧ y = .ok b) x y := by
  cases x <;> cases y <;> first | exact h | exact ⟨rfl, rfl⟩

end Agree

/-- Members of which all are kept, in any order, with others added. -/
def Rearranges (keeps : MemberText d → MemberText d → Prop) (adds : MemberText d → Prop)
    (ms ms' : List (Placed (MemberText d))) : Prop :=
  ∃ kept added, ms'.Perm (kept ++ added)
    ∧ List.Forall₂ (fun m m' => m'.part.name = m.part.name ∧ keeps m.part m'.part) ms kept
    ∧ ∀ m ∈ added, adds m.part

/-- A name under which nothing is looked at. -/
def IsUnread (fields : List (String × Reading)) (name : WireText) : Prop :=
  ∀ f ∈ fields, name ≠ .plain f.1

mutual

/-- **A text with unread members added and members reordered**, wherever something is read of it,
and with every value spelled in any way. -/
def Widens : Reading → Nat → ValueText d → ValueText d → Prop
  | .whole, depth, x, y => Agree Eq (x.outcome depth) (y.outcome depth)
  | .members fields, depth, x, y => Agree Eq (x.outcome depth) (y.outcome depth)
      ∨ ∃ k gap gap' ms ms', depth = k + 1 ∧ x = .object gap ms ∧ y = .object gap' ms'
        ∧ (ms.map fun m => m.part.name).Nodup
        ∧ Rearranges
            (fun m m' => WidensMember fields k m m'
              ∧ (IsUnread fields m.name → Agree Eq (m.value.outcome k) (m'.value.outcome k)))
            (fun m => IsUnread fields m.name ∧ ∃ v, m.value.outcome k = .ok v) ms ms'
  | .elements r, depth, x, y => Agree Eq (x.outcome depth) (y.outcome depth)
      ∨ ∃ k gap gap' es es', depth = k + 1 ∧ x = .array gap es ∧ y = .array gap' es'
        ∧ List.Forall₂ (fun e e' => r.Widens k e.part e'.part) es es'

/-- A member whose value is widened in the way in which its name is read. -/
def WidensMember : List (String × Reading) → Nat → MemberText d → MemberText d → Prop
  | [], _, _, _ => True
  | (name, r) :: rest, k, m, m' =>
    (m.name = .plain name → r.Widens k m.value m'.value) ∧ WidensMember rest k m m'

end

/-- Parts can be read if and only if each of them can. -/
theorem exists_mapM_eq_ok_iff {α β ε : Type} {f : α → Except ε β} {xs : List α} :
    (∃ ys, xs.mapM f = .ok ys) ↔ ∀ x ∈ xs, ∃ y, f x = .ok y := by
  constructor
  · rintro ⟨ys, hys⟩ x hx
    obtain ⟨y, -, hy⟩ := forall_of_mapM_eq_ok hys x hx
    exact ⟨y, hy⟩
  · intro h
    -- If it failed, it would fail at a member, and no member fails.
    cases hxs : xs.mapM f with
    | ok ys => exact ⟨ys, rfl⟩
    | error e =>
      obtain ⟨before, x, after, rfl, -, hfault⟩ := mapM_eq_error_iff.mp hxs
      obtain ⟨y, hy⟩ := h x (List.mem_append_right _ List.mem_cons_self)
      exact absurd (hy.symm.trans hfault) (by simp)

/-- Every member of the one list has its partner in the other. -/
theorem exists_of_forall₂ {α β : Type} {R : α → β → Prop} {xs : List α} {ys : List β}
    (h : List.Forall₂ R xs ys) : ∀ x ∈ xs, ∃ y ∈ ys, R x y := by
  induction h with
  | nil => exact nofun
  | cons hxy _ ih =>
    refine List.forall_mem_cons.mpr ⟨⟨_, List.mem_cons_self, hxy⟩, fun x hx => ?_⟩
    obtain ⟨y, hy, h⟩ := ih x hx
    exact ⟨y, List.mem_cons_of_mem _ hy, h⟩

section

variable {keeps : MemberText d → MemberText d → Prop} {adds : MemberText d → Prop}
  {ms ms' : List (Placed (MemberText d))}

/-- Every member is kept. -/
theorem Rearranges.exists_kept (h : Rearranges keeps adds ms ms') :
    ∀ m ∈ ms, ∃ m' ∈ ms', m'.part.name = m.part.name ∧ keeps m.part m'.part := by
  obtain ⟨kept, added, hperm, hkept, -⟩ := h
  intro m hm
  obtain ⟨m', hm', h⟩ := exists_of_forall₂ hkept m hm
  exact ⟨m', hperm.mem_iff.mpr (List.mem_append_left _ hm'), h⟩

/-- Every member is kept or added. -/
theorem Rearranges.kept_or_added (h : Rearranges keeps adds ms ms') :
    ∀ m' ∈ ms', (∃ m ∈ ms, m'.part.name = m.part.name ∧ keeps m.part m'.part) ∨ adds m'.part := by
  obtain ⟨kept, added, hperm, hkept, hadded⟩ := h
  intro m' hm'
  rcases List.mem_append.mp (hperm.mem_iff.mp hm') with hm' | hm'
  · exact .inl (exists_of_forall₂ hkept.flip m' hm')
  · exact .inr (hadded m' hm')

variable {k : Nat}

theorem outcome_eq_ok_iff {m : MemberText d} {e : Value × Value} :
    m.outcome k = .ok e ↔ ∃ v, m.value.outcome k = .ok v ∧ (m.name.toValue, v) = e := by
  rw [MemberText.outcome]
  cases m.value.outcome k <;> simp [Except.map]

theorem exists_outcome_iff {m : MemberText d} :
    (∃ e, m.outcome k = .ok e) ↔ ∃ v, m.value.outcome k = .ok v := by
  simp [outcome_eq_ok_iff]

/-- **Members can be read if and only if** those kept can, when those added can. -/
theorem Rearranges.agree_mapM (h : Rearranges keeps adds ms ms')
    (hkeeps : ∀ {m m'}, keeps m m' →
      Agree (fun _ _ => True) (m.value.outcome k) (m'.value.outcome k))
    (hadds : ∀ {m}, adds m → ∃ v, m.value.outcome k = .ok v) :
    Agree (fun _ _ => True) (ms.mapM fun m => m.part.outcome k)
      (ms'.mapM fun m => m.part.outcome k) := by
  -- Whether all members can be read is a question about each of them, and does not depend on their
  -- order.
  simp only [Agree.iff_exists_ok, exists_mapM_eq_ok_iff, exists_outcome_iff]
  constructor
  · intro hall m' hm'
    rcases h.kept_or_added m' hm' with ⟨m, hm, -, hkept⟩ | hadded
    · exact (Agree.iff_exists_ok.mp (hkeeps hkept)).mp (hall m hm)
    · exact hadds hadded
  · intro hall m hm
    obtain ⟨m', hm', -, hkept⟩ := h.exists_kept m hm
    exact (Agree.iff_exists_ok.mp (hkeeps hkept)).mpr (hall m' hm')

/-- Under a name stands the value of a member of that name, if there is one. -/
theorem get?_ofPairs_of_mapM {pairs : Table} (h : (ms.mapM fun m => m.part.outcome k) = .ok pairs)
    (name : String) :
    ((Table.ofPairs pairs).get? name = none ∧ ∀ m ∈ ms, m.part.name ≠ .plain name)
      ∨ ∃ m ∈ ms, m.part.name = .plain name
        ∧ ∃ v, m.part.value.outcome k = .ok v ∧ (Table.ofPairs pairs).get? name = some v := by
  have hkeys :
      ∀ e ∈ pairs, ∃ m ∈ ms, e.1 = m.part.name.toValue ∧ m.part.value.outcome k = .ok e.2 := by
    intro e he
    obtain ⟨m, hm, hread⟩ := exists_of_mapM_eq_ok h e he
    obtain ⟨v, hv, rfl⟩ := outcome_eq_ok_iff.mp hread
    exact ⟨m, hm, rfl, hv⟩
  have htexts : ∀ e ∈ pairs, ∃ key : WireText, e.1 = key.toValue := fun e he =>
    let ⟨m, _, hkey, _⟩ := hkeys e he
    ⟨m.part.name, hkey⟩
  -- What is found comes from an entry, and an entry comes from a member.
  rcases Table.get?_ofPairs htexts name with ⟨hget, hnone⟩ | ⟨e, he, hname, hget⟩
  · refine .inl ⟨hget, fun m hm hname => ?_⟩
    obtain ⟨e, he, hread⟩ := forall_of_mapM_eq_ok h m hm
    obtain ⟨v, -, rfl⟩ := outcome_eq_ok_iff.mp hread
    exact hnone _ he (by simp [hname])
  · obtain ⟨m, hm, hkey, hv⟩ := hkeys e he
    exact .inr ⟨m, hm, by simpa using hkey.symm.trans hname, e.2, hv, hget⟩

/-- **What is found under a name is kept**, if nothing is added under it. -/
theorem Rearranges.rel_get? {R : Value → Value → Prop} {name : String} {pairs pairs' : Table}
    (h : Rearranges keeps adds ms ms') (hnodup : (ms.map fun m => m.part.name).Nodup)
    (hkeeps : ∀ {m m'}, keeps m m' → m.name = .plain name →
      Agree R (m.value.outcome k) (m'.value.outcome k))
    (hadds : ∀ {m}, adds m → m.name ≠ .plain name)
    (hpairs : (ms.mapM fun m => m.part.outcome k) = .ok pairs)
    (hpairs' : (ms'.mapM fun m => m.part.outcome k) = .ok pairs') :
    Option.Rel R ((Table.ofPairs pairs).get? name) ((Table.ofPairs pairs').get? name) := by
  rcases get?_ofPairs_of_mapM hpairs name with ⟨hget, hnone⟩ | ⟨m, hm, hname, v, hv, hget⟩ <;>
    rcases get?_ofPairs_of_mapM hpairs' name with
      ⟨hget', hnone'⟩ | ⟨m', hm', hname', v', hv', hget'⟩ <;>
    rw [hget, hget']
  -- A name that is in one of the texts only would be a name of a member that has been added.
  · exact .none
  · rcases h.kept_or_added m' hm' with ⟨m, hm, hsame, -⟩ | hadded
    · exact absurd (hsame.symm.trans hname') (hnone m hm)
    · exact absurd hname' (hadds hadded)
  · obtain ⟨m', hm', hsame, -⟩ := h.exists_kept m hm
    exact absurd (hsame.trans hname) (hnone' m' hm')
  -- In both, so it is kept: names come once in the first text, so what has been kept is the member
  -- that was found there.
  · rcases h.kept_or_added m' hm' with ⟨m₀, hm₀, hsame, hkept⟩ | hadded
    · have hname₀ : m₀.part.name = .plain name := hsame.symm.trans hname'
      obtain rfl : m₀ = m := List.inj_on_of_nodup_map hnodup hm₀ hm (hname₀.trans hname.symm)
      have hagree := hkeeps hkept hname
      rw [hv, hv'] at hagree
      exact .some hagree
    · exact absurd hname' (hadds hadded)

end

/-- An object is alike wherever it is looked at, if the members that are kept are. -/
theorem agree_object {fields : List (String × Reading)} {k : Nat}
    {ms ms' : List (Placed (MemberText d))}
    (hread : ∀ m m' : MemberText d, WidensMember fields k m m' → ∀ f ∈ fields,
      m.name = .plain f.1 → Agree f.2.Alike (m.value.outcome k) (m'.value.outcome k))
    (hnodup : (ms.map fun m => m.part.name).Nodup)
    (h : Rearranges
      (fun m m' => WidensMember fields k m m'
        ∧ (IsUnread fields m.name → Agree Eq (m.value.outcome k) (m'.value.outcome k)))
      (fun m => IsUnread fields m.name ∧ ∃ v, m.value.outcome k = .ok v) ms ms')
    (gap gap' : Gap) :
    Agree (members fields).Alike ((ValueText.object gap ms).outcome (k + 1))
      ((ValueText.object gap' ms').outcome (k + 1)) := by
  have hagree := h.agree_mapM (k := k) (fun {m m'} hkept => ?_) fun hadded => hadded.2
  · refine hagree.with_eq.map fun pairs pairs' hread' => ?_
    refine Or.inr ⟨_, _, rfl, rfl, alikeMembers_iff.mpr fun f hf => ?_⟩
    exact h.rel_get? hnodup (fun hkept => hread _ _ hkept.1 f hf) (fun hadded => hadded.1 f hf)
      hread'.1 hread'.2
  -- A member that is kept is spelled in another way if it is not read, and widened if it is.
  · by_cases hunread : IsUnread fields m.name
    · exact (hkept.2 hunread).imp fun _ _ _ => trivial
    · simp only [IsUnread, not_forall, not_not] at hunread
      obtain ⟨f, hf, hname⟩ := hunread
      exact (hread _ _ hkept.1 f hf hname).imp fun _ _ _ => trivial

/-- An array is alike wherever it is looked at, if its elements are. -/
theorem agree_array {r : Reading} {k : Nat} {es es' : List (Placed (ValueText d))}
    (h : List.Forall₂ (fun e e' => Agree r.Alike (e.part.outcome k) (e'.part.outcome k)) es es')
    (gap gap' : Gap) :
    Agree (elements r).Alike ((ValueText.array gap es).outcome (k + 1))
      ((ValueText.array gap' es').outcome (k + 1)) := by
  have hagree : Agree (List.Forall₂ r.Alike)
      (es.mapM fun e : Placed (ValueText d) => e.part.outcome k)
      (es'.mapM fun e : Placed (ValueText d) => e.part.outcome k) := by
    -- The elements are read one after another, and the first that fails decides on both sides.
    induction h with
    | nil => exact List.Forall₂.nil
    | cons he _ ih =>
      rw [List.mapM_cons, List.mapM_cons]
      exact he.bind fun v v' hv => ih.bind fun vs vs' hvs => List.Forall₂.cons hv hvs
  exact hagree.map fun vs vs' hvs => Or.inr ⟨_, _, rfl, rfl, hvs⟩

mutual

/-- **What is made of a widened text** is alike wherever it is looked at. -/
theorem agree_of_widens : ∀ (r : Reading) (depth : Nat) (x y : ValueText d), r.Widens depth x y →
    Agree r.Alike (x.outcome depth) (y.outcome depth)
  | .whole, depth, x, y, h => by
    rw [Widens] at h
    exact h.imp fun _ _ heq => by rwa [Alike]
  | .members fields, depth, x, y, h => by
    rw [Widens] at h
    obtain h | ⟨k, gap, gap', ms, ms', rfl, rfl, rfl, hnodup, h⟩ := h
    · exact h.imp fun _ _ heq => by rw [Alike]; exact .inl heq
    · exact agree_object (fun m m' => agree_of_widensMember fields k m m') hnodup h gap gap'
  | .elements r, depth, x, y, h => by
    rw [Widens] at h
    obtain h | ⟨k, gap, gap', es, es', rfl, rfl, rfl, h⟩ := h
    · exact h.imp fun _ _ heq => by rw [Alike]; exact .inl heq
    · exact agree_array (h.imp fun e e' he => agree_of_widens r k e.part e'.part he) gap gap'

/-- **What is read of a member** agrees, for each of the fields that is read under its name. -/
theorem agree_of_widensMember :
    ∀ (fields : List (String × Reading)) (k : Nat) (m m' : MemberText d),
    WidensMember fields k m m' → ∀ f ∈ fields, m.name = .plain f.1 →
      Agree f.2.Alike (m.value.outcome k) (m'.value.outcome k)
  | [], _, _, _, _ => nofun
  | (name, r) :: rest, k, m, m', h => by
    rw [WidensMember] at h
    rw [List.forall_mem_cons]
    exact ⟨fun hname => agree_of_widens r k m.value m'.value (h.1 hname),
      agree_of_widensMember rest k m m' h.2⟩

end

theorem agree_self {α : Type} (x : Except Stop α) : Agree Eq x x := by
  cases x <;> trivial

/-- A text that is read alike is widened, however it is looked at. -/
theorem widens_of_agree (r : Reading) {k : Nat} {x y : ValueText d}
    (h : Agree Eq (x.outcome k) (y.outcome k)) : r.Widens k x y := by
  cases r with
  | whole => rwa [Widens]
  | members fields =>
    rw [Widens]
    exact .inl h
  | elements r =>
    rw [Widens]
    exact .inl h

/-- What a member may be widened to, said of each of the fields in place of along their list. -/
theorem widensMember_iff {fields : List (String × Reading)} {k : Nat} {m m' : MemberText d} :
    WidensMember fields k m m'
      ↔ ∀ f ∈ fields, m.name = .plain f.1 → f.2.Widens k m.value m'.value := by
  induction fields with
  | nil => simp [WidensMember]
  | cons f fields ih =>
    obtain ⟨name, r⟩ := f
    rw [WidensMember, ih, List.forall_mem_cons]

/-- What is alike to a table is a table, and the other way round. -/
theorem Alike.exists_table_iff {r : Reading} {v v' : Value} (h : r.Alike v v') :
    (∃ t, v = .table t) ↔ ∃ t', v' = .table t' := by
  -- A reading looks for members only in a table and for elements only in a list, and leaves any
  -- other value as it is.
  cases r with
  | whole =>
    rw [Alike] at h
    rw [h]
  | members fields =>
    rw [Alike] at h
    obtain rfl | ⟨t, t', rfl, rfl, -⟩ := h
    · exact Iff.rfl
    · exact iff_of_true ⟨t, rfl⟩ ⟨t', rfl⟩
  | elements r =>
    rw [Alike] at h
    obtain rfl | ⟨vs, vs', rfl, rfl, -⟩ := h
    · exact Iff.rfl
    · exact iff_of_false (by simp) (by simp)

end Reading

namespace Event

open Json

/-- An event whose item, if it has one, is of a type with a meaning. -/
def HasMeaning (e : Event) : Prop :=
  ∀ stage i, e = .item stage i → i.isKnown = true

/-- A line that is no event. -/
def Rejects (line : String) : Prop :=
  ∃ f, parse line = .error f

variable {line line' : String} {t t' : Table}

theorem rejects_of_read_eq_error {f : Json.Fault} (h : Json.read .wire line = .error f) :
    Rejects line := by
  rw [Rejects, parse.eq_def, h]
  cases f <;> exact ⟨_, rfl⟩

/-- A line that is no object is no event. -/
theorem rejects_of_ne_table {v : Value} (h : Json.read .wire line = .ok v)
    (hv : ¬ ∃ t, v = .table t) : Rejects line := by
  rw [Rejects, parse.eq_def, h]
  cases v with
  | table t => exact absurd ⟨t, rfl⟩ hv
  | _ => exact ⟨_, rfl⟩

/-- A line whose object is no event is rejected, whatever the fault. -/
theorem rejects_of_ofTable_eq_error {f : Fault} (h : Json.read .wire line = .ok (.table t))
    (hf : ofTable t = .error f) : Rejects line := by
  rw [Rejects, parse, h]
  dsimp only
  rw [hf]
  dsimp only
  split <;> exact ⟨_, rfl⟩

theorem Rejects.parse_ne {e : Event} (h : Rejects line) : parse line ≠ .ok e := by
  obtain ⟨f, hf⟩ := h
  rw [hf]
  exact nofun

/-- **Lines of which the same is read** are the same event, or none of them is one. -/
theorem parse_of_alike (hread : Json.read .wire line = .ok (.table t))
    (hread' : Json.read .wire line' = .ok (.table t'))
    (h : (reading t).Alike (.table t) (.table t')) :
    (∀ e, parse line = .ok e → e.HasMeaning → parse line' = .ok e)
      ∧ (Rejects line → Rejects line') := by
  -- The two tables are the same event or fail with the same fault, but for one case: an item of a
  -- type that is not known, where the whole item is kept.
  rcases ofTable_alike h with heq | ⟨stage, i, hi, hunknown⟩
  · cases hof : ofTable t with
    | ok e =>
      have hparse := parse_of_ofTable_eq_ok hread hof
      have hparse' := parse_of_ofTable_eq_ok hread' (heq.trans hof)
      exact ⟨fun e' he' _ => hparse'.trans (hparse.symm.trans he'),
        fun hrejects => absurd hparse hrejects.parse_ne⟩
    | error f =>
      exact ⟨fun e he _ => absurd he (rejects_of_ofTable_eq_error hread hof).parse_ne,
        fun _ => rejects_of_ofTable_eq_error hread' (heq.trans hof)⟩
  · have hparse := parse_of_ofTable_eq_ok hread hi
    refine ⟨fun e he hmeaning => ?_, fun hrejects => absurd hparse hrejects.parse_ne⟩
    have hknown := hmeaning stage i (Except.ok.inj (he.symm.trans hparse))
    exact absurd (hunknown.symm.trans hknown) Bool.false_ne_true

/-- A widened text is the same event, or neither is one. -/
theorem parse_of_widens {x y : Placed (ValueText .wire)} {r : Reading}
    (hr : ∀ t, x.part.outcome Dialect.wire.maxDepth = .ok (.table t) → r = reading t)
    (h : r.Widens Dialect.wire.maxDepth x.part y.part) :
    (∀ e, parse (ValueText.line x) = .ok e → e.HasMeaning → parse (ValueText.line y) = .ok e)
      ∧ (Rejects (ValueText.line x) → Rejects (ValueText.line y)) := by
  have hagree := Reading.agree_of_widens r Dialect.wire.maxDepth x.part y.part h
  have hreadx := ValueText.read_line x
  have hready := ValueText.read_line y
  revert hagree hreadx hready hr
  -- The two texts are values or faults together. Only tables are looked into; any other value is
  -- rejected.
  cases x.part.outcome Dialect.wire.maxDepth <;> cases y.part.outcome Dialect.wire.maxDepth <;>
    intro hr hagree hreadx hready
  · exact ⟨fun e he _ => absurd he (rejects_of_read_eq_error hreadx).parse_ne,
      fun _ => rejects_of_read_eq_error hready⟩
  · exact False.elim hagree
  · exact False.elim hagree
  · next v v' =>
    have halike : r.Alike v v' := hagree
    by_cases htable : ∃ t, v = .table t
    · obtain ⟨t', rfl⟩ := halike.exists_table_iff.mp htable
      obtain ⟨t, rfl⟩ := htable
      obtain rfl := hr t rfl
      exact parse_of_alike hreadx hready halike
    · exact ⟨fun e he _ => absurd he (rejects_of_ne_table hreadx htable).parse_ne,
        fun _ => rejects_of_ne_table hready (mt halike.exists_table_iff.mpr htable)⟩

/-- **Only the members that are read matter.**  Every line that can be read is a text whose objects
are made of members and whose arrays are made of elements.  If in such a text members are reordered
and unread ones added, at every level at which the line is read, an event whose item has a meaning
stays the same event, and a line that is no event stays none.  A line that is no object at all may
be looked at in any way. -/
theorem parse_widened :
    (∀ (line : String) (v : Value), Json.read .wire line = .ok v →
      ∃ x : Placed (ValueText .wire), line = ValueText.line x ∧ x.part.HasForm v) ∧
    (∀ (x : ValueText .wire) (depth : Nat) (v : Value), x.outcome depth = .ok v → x.HasForm v) ∧
    ∀ (x y : Placed (ValueText .wire)) (r : Reading),
      (∀ t, x.part.outcome Dialect.wire.maxDepth = .ok (.table t) → r = reading t) →
      r.Widens Dialect.wire.maxDepth x.part y.part →
        (∀ e, parse (ValueText.line x) = .ok e → e.HasMeaning → parse (ValueText.line y) = .ok e)
          ∧ (Rejects (ValueText.line x) → Rejects (ValueText.line y)) :=
  ⟨fun _ _ => ValueText.exists_line, fun _ _ _ => ValueText.hasForm_of_outcome,
    fun _ _ _ => parse_of_widens⟩

/-! ### A widened line

An event with an item and a change of a file in it, widened at all three levels: members are added
there and the others set the other way round. -/

/-- A member of a plain name. -/
def plainMember (name : String) (value : ValueText .wire) : Placed (MemberText .wire) :=
  { part := { label := .ofString name, value := value } }

/-- A text as a value. -/
def plainText (s : String) : ValueText .wire :=
  .quoted (.ofString s)

/-- The change of a file, and one with an unread member, the other way round. -/
def shortChange : ValueText .wire :=
  .object .none [plainMember "path" (plainText "a.py"), plainMember "kind" (plainText "add")]

def longChange : ValueText .wire :=
  .object .none [plainMember "why" (.array .none []), plainMember "kind" (plainText "add"),
    plainMember "path" (plainText "a.py")]

/-- An item of that change under some name for its id, and one with an unread member, the other way
round. -/
def shortItem (idName : String) : ValueText .wire :=
  .object .none [plainMember "type" (plainText "file_change"), plainMember idName (plainText "i1"),
    plainMember "changes" (.array .none [{ part := shortChange }])]

def longItem (idName : String) : ValueText .wire :=
  .object .none [plainMember "text" (plainText "unread"),
    plainMember "changes" (.array .none [{ part := longChange }]),
    plainMember idName (plainText "i1"), plainMember "type" (plainText "file_change")]

/-- An event of that item, and one with an unread member, the other way round. -/
def shortEvent (idName : String) : Placed (ValueText .wire) :=
  { part := .object .none [plainMember "type" (plainText "item.completed"),
      plainMember "item" (shortItem idName)] }

def longEvent (idName : String) : Placed (ValueText .wire) :=
  { part := .object .none [plainMember "usage" (plainText "unread"),
      plainMember "item" (longItem idName), plainMember "type" (plainText "item.completed")] }

/-- What is read of that item. -/
def itemReading : Reading :=
  .members [("type", .whole), ("id", .whole), ("changes", .elements Item.changeReading),
    ("status", .whole)]

/-- What is read of that event. -/
def eventReading : Reading :=
  .members [("type", .whole), ("item", itemReading)]

section

variable {fields : List (String × Reading)} {k : Nat} {name : String}

theorem isUnread_plainMember (h : ∀ f ∈ fields, name ≠ f.1) (x : ValueText .wire) :
    Reading.IsUnread fields (plainMember name x).part.name :=
  fun f hf hname => h f hf (WireText.plain.inj hname)

/-- A member that is left as it is is kept, whatever is read of it. -/
theorem keeps_self (fields : List (String × Reading)) (k : Nat) (m : MemberText .wire) :
    m.name = m.name ∧ Reading.WidensMember fields k m m
      ∧ (Reading.IsUnread fields m.name →
        Reading.Agree Eq (m.value.outcome k) (m.value.outcome k)) :=
  ⟨rfl,
    Reading.widensMember_iff.mpr fun f _ _ => Reading.widens_of_agree f.2 (Reading.agree_self _),
    fun _ => Reading.agree_self _⟩

/-- A member that is read is kept if its value is widened. -/
theorem keeps_read {x y : ValueText .wire} {r : Reading} (hread : (name, r) ∈ fields)
    (honly : ∀ f ∈ fields, name = f.1 → f.2 = r) (h : r.Widens k x y) :
    (plainMember name y).part.name = (plainMember name x).part.name
      ∧ Reading.WidensMember fields k (plainMember name x).part (plainMember name y).part
      ∧ (Reading.IsUnread fields (.plain name) → Reading.Agree Eq (x.outcome k) (y.outcome k)) := by
  refine ⟨rfl, Reading.widensMember_iff.mpr fun f hf hname => ?_, fun hunread => ?_⟩
  · rw [honly f hf (WireText.plain.inj hname)]
    exact h
  · exact absurd rfl (hunread _ hread)

end

theorem widens_longChange : Item.changeReading.Widens 997 shortChange longChange := by
  rw [Item.changeReading, Reading.Widens]
  refine .inr ⟨996, .none, .none, _, _, rfl, rfl, rfl, by decide, [_, _], [_],
    List.reverse_perm [_, _, _], .cons (keeps_self _ _ _) (.cons (keeps_self _ _ _) .nil), ?_⟩
  rw [List.forall_mem_singleton]
  exact ⟨isUnread_plainMember (by decide) _, _, rfl⟩

/-- The longer item has a member more, in another order, and a longer change in its list of changes.
-/
theorem widens_longItem {idName : String} (h : idName = "id" ∨ idName = "ident") :
    itemReading.Widens 999 (shortItem idName) (longItem idName) := by
  have hchanges : (Reading.elements Item.changeReading).Widens 998
      (.array .none [{ part := shortChange }]) (.array .none [{ part := longChange }]) := by
    rw [Reading.Widens]
    exact .inr ⟨997, .none, .none, _, _, rfl, rfl, rfl, .cons widens_longChange .nil⟩
  rw [itemReading, Reading.Widens]
  refine .inr ⟨998, .none, .none, _, _, rfl, rfl, rfl, ?_, [_, _, _], [_],
    List.reverse_perm [_, _, _, _], .cons (keeps_self _ _ _) (.cons (keeps_self _ _ _)
      (.cons (keeps_read (by simp) (by simp) hchanges) .nil)), ?_⟩
  · rcases h with rfl | rfl <;> decide
  · rw [List.forall_mem_singleton]
    exact ⟨isUnread_plainMember (by decide) _, _, rfl⟩

/-- The longer event has a member more, in another order, and the longer item. -/
theorem widens_longEvent {idName : String} (h : idName = "id" ∨ idName = "ident") :
    eventReading.Widens Dialect.wire.maxDepth (shortEvent idName).part (longEvent idName).part := by
  rw [eventReading, Reading.Widens]
  refine .inr ⟨999, .none, .none, _, _, rfl, rfl, rfl, ?_, [_, _], [_],
    List.reverse_perm [_, _, _], .cons (keeps_self _ _ _)
      (.cons (keeps_read (by simp) (by simp) (widens_longItem h)) .nil), ?_⟩
  · rcases h with rfl | rfl <;> decide
  · rw [List.forall_mem_singleton]
    exact ⟨isUnread_plainMember (by decide) _, _, rfl⟩

/-- A line with other members is taken or rejected as the line without them: here of an item with
and of one without an id. -/
theorem parse_longEvent :
    parse (ValueText.line (longEvent "id"))
        = .ok (.item .completed
          (.fileChange (.plain "i1") [⟨.str "a.py", .str "add"⟩] (.str "completed")))
      ∧ Rejects (ValueText.line (longEvent "ident")) := by
  have hread : ∀ {idName}, idName = "id" ∨ idName = "ident" → ∀ t,
      (shortEvent idName).part.outcome Dialect.wire.maxDepth = .ok (.table t) →
        eventReading = reading t := by
    intro _ h t ht
    obtain rfl := Value.table.inj (Except.ok.inj ht)
    rcases h with rfl | rfl <;> rfl
  obtain ⟨-, -, hwidened⟩ := parse_widened
  have hid := hwidened _ _ _ (hread (.inl rfl)) (widens_longEvent (.inl rfl))
  have hident := hwidened _ _ _ (hread (.inr rfl)) (widens_longEvent (.inr rfl))
  have hparse : parse (ValueText.line (shortEvent "id"))
      = .ok (.item .completed (.fileChange (.plain "i1") [⟨.str "a.py", .str "add"⟩]
        (.str "completed"))) := by
    decide +kernel
  have hmissing : parse (ValueText.line (shortEvent "ident"))
      = .error (.client (.protocol (.malformed (.missing "id"))
        (some (ValueText.line (shortEvent "ident"))))) := by
    decide +kernel
  refine ⟨hid.1 _ hparse fun stage i h => ?_, hident.2 ⟨_, hmissing⟩⟩
  obtain ⟨-, rfl⟩ := Event.item.inj h
  rfl

end Event

end AgentClient
