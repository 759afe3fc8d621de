import AgentClient.Proofs.Json.Scalars

/-!
# Proofs/Json/Documents — the values that documents hold

What is read from a document is made of scalars, lists and tables: no text of it has the halves of a
surrogate pair side by side, its tables have texts for keys, each of them once, its whole numbers
are not overlong, and nothing is nested deeper than the reader goes. `Value.IsDocument` says so of a
value, and `isDocument_readValue` of all that is read. -/

namespace AgentClient

open Number

/-! ## Tables whose keys are texts

A table that is read has texts for keys, and then two keys are the same only if they are equal. So
putting a pair under a key either replaces one value or adds one entry at the end, and the table
that pairs make has each key once. -/

/-- The key of a text is the same as no other value. -/
theorem WireText.isSameKey_toValue_iff {v : Value} (t : WireText) :
    v.isSameKey t.toValue = true ↔ v = t.toValue := by
  cases t with
  | plain s => exact Value.isSameKey_str_iff
  | broken points =>
    have hform : v.keyForm = .broken points ↔ v = .broken points := by
      cases v <;> simp [Value.keyForm]
      split <;> simp
    have hsame : (Value.broken points).keyForm = .broken points := rfl
    simp only [toValue, Value.isSameKey, Value.isUnequal, hsame, hform, Bool.not_false,
      Bool.true_and, decide_eq_true_eq]

namespace Table

/-- The keys of a table. -/
def keys (t : Table) : List Value :=
  t.map (·.1)

/-- Under a new key an entry is added at the end. -/
theorem put_of_not_mem {t : Table} {key : WireText} (h : key.toValue ∉ t.keys) (v : Value) :
    t.put key.toValue v = t ++ [(key.toValue, v)] := by
  induction t with
  | nil => rfl
  | cons e t ih =>
    rw [keys, List.map_cons, List.mem_cons, not_or] at h
    rw [put, if_neg, ih h.2, List.cons_append]
    rw [WireText.isSameKey_toValue_iff]
    exact Ne.symm h.1

/-- Under a key that is there already nothing else is changed. -/
theorem keys_put_of_mem {t : Table} {key : WireText} (h : key.toValue ∈ t.keys) (v : Value) :
    (t.put key.toValue v).keys = t.keys := by
  induction t with
  | nil => exact absurd h List.not_mem_nil
  | cons e t ih =>
    rw [put]
    split
    · rfl
    · next hne =>
      rw [WireText.isSameKey_toValue_iff] at hne
      rw [keys, List.map_cons, List.mem_cons] at h
      exact congrArg (e.1 :: ·) (ih (h.resolve_left (Ne.symm hne)))

/-- Putting a value under a text keeps the keys apart. -/
theorem nodup_keys_put {t : Table} (h : t.keys.Nodup) (key : WireText) (v : Value) :
    (t.put key.toValue v).keys.Nodup := by
  by_cases hmem : key.toValue ∈ t.keys
  · rwa [keys_put_of_mem hmem]
  · rw [put_of_not_mem hmem, keys, List.map_append]
    refine List.nodup_append.mpr ⟨h, List.pairwise_singleton _ _, ?_⟩
    rintro a ha b hb rfl
    rw [List.mem_singleton.mp hb] at ha
    exact hmem ha

/-- An entry that is put has the key it is put under or one that was there, and a value likewise. -/
theorem forall_put {P Q : Value → Prop} {t : Table} (h : ∀ e ∈ t, P e.1 ∧ Q e.2) {key v : Value}
    (hkey : P key) (hv : Q v) : ∀ e ∈ t.put key v, P e.1 ∧ Q e.2 := by
  induction t with
  | nil =>
    intro e he
    rw [List.mem_singleton.mp he]
    exact ⟨hkey, hv⟩
  | cons e t ih =>
    rw [List.forall_mem_cons] at h
    rw [put]
    split
    · exact List.forall_mem_cons.mpr ⟨⟨h.1.1, hv⟩, h.2⟩
    · exact List.forall_mem_cons.mpr ⟨h.1, ih h.2⟩

/-- Entries whose keys are texts that can be read. -/
def HasTextKeys (t : Table) : Prop :=
  ∀ e ∈ t, ∃ key : WireText, key.IsJoined ∧ e.1 = key.toValue

/-- **Pairs that are put one after another** make a table with every key once. -/
theorem nodup_keys_ofPairs {pairs : Table} (h : pairs.HasTextKeys) :
    (ofPairs pairs).keys.Nodup := by
  -- The pairs are put into a table that is there already, so this is what the induction needs.
  have hfold : ∀ (pairs t : Table), pairs.HasTextKeys → t.keys.Nodup →
      (pairs.foldl (fun t e => put t e.1 e.2) t).keys.Nodup := by
    intro pairs
    induction pairs with
    | nil => exact fun t _ ht => ht
    | cons e pairs ih =>
      intro t hpairs ht
      rw [HasTextKeys, List.forall_mem_cons] at hpairs
      obtain ⟨⟨key, -, hkey⟩, hpairs⟩ := hpairs
      rw [List.foldl_cons, hkey]
      exact ih _ hpairs (nodup_keys_put ht key e.2)
  exact hfold pairs [] h List.nodup_nil

/-- What holds of all pairs holds of all entries of their table. -/
theorem forall_ofPairs {P Q : Value → Prop} {pairs : Table} (h : ∀ e ∈ pairs, P e.1 ∧ Q e.2) :
    ∀ e ∈ ofPairs pairs, P e.1 ∧ Q e.2 := by
  have hfold : ∀ (pairs t : Table), (∀ e ∈ pairs, P e.1 ∧ Q e.2) → (∀ e ∈ t, P e.1 ∧ Q e.2) →
      ∀ e ∈ pairs.foldl (fun t e => put t e.1 e.2) t, P e.1 ∧ Q e.2 := by
    intro pairs
    induction pairs with
    | nil => exact fun t _ ht => ht
    | cons e pairs ih =>
      intro t hpairs ht
      rw [List.forall_mem_cons] at hpairs
      exact ih _ hpairs.2 (forall_put ht hpairs.1.1 hpairs.1.2)
  exact hfold pairs [] h (fun e he => absurd he List.not_mem_nil)

/-- Pairs that have every key once are the table that they make. -/
theorem ofPairs_eq_self {pairs : Table} (h : pairs.HasTextKeys) (hnodup : pairs.keys.Nodup) :
    ofPairs pairs = pairs := by
  -- Each pair is put behind the entries so far, for its key is not among theirs.
  have hfold : ∀ (pairs t : Table), pairs.HasTextKeys → (t ++ pairs).keys.Nodup →
      pairs.foldl (fun t e => put t e.1 e.2) t = t ++ pairs := by
    intro pairs
    induction pairs with
    | nil => exact fun t _ _ => (List.append_nil t).symm
    | cons e pairs ih =>
      intro t hpairs ht
      rw [HasTextKeys, List.forall_mem_cons] at hpairs
      obtain ⟨⟨key, -, hkey⟩, hpairs⟩ := hpairs
      have hmem : key.toValue ∉ t.keys := by
        rw [keys, List.map_append, List.map_cons, hkey] at ht
        exact fun hmem => (List.nodup_append.mp ht).2.2 _ hmem _ List.mem_cons_self rfl
      have he : (key.toValue, e.2) = e := Prod.ext hkey.symm rfl
      rw [List.foldl_cons, hkey, put_of_not_mem hmem, he,
        ih _ hpairs (by rwa [List.append_assoc]), List.append_assoc]
      rfl
  exact hfold pairs [] h hnodup

end Table

/-! ## Documents

`IsDocument` bounds the nesting from above, so a value that is nested less deep is one at every
greater depth. A value is taken apart by its form with `parts`, where the induction principle of the
predicate is not needed. -/

/-- **A value that a document may hold**, with at most `depth` lists and tables around any part. -/
inductive Value.IsDocument : Nat → Value → Prop where
  | null {depth : Nat} : IsDocument depth .null
  | bool {depth : Nat} (b : Bool) : IsDocument depth (.bool b)
  | int {depth : Nat} {n : Int} (hn : isOverlong n = false) : IsDocument depth (.int n)
  | float {depth : Nat} {x : Binary64} (hx : x.IsBounded) : IsDocument depth (.float x)
  | text {depth : Nat} {t : WireText} (ht : t.IsJoined) : IsDocument depth t.toValue
  | list {depth : Nat} {items : List Value} (hitems : ∀ v ∈ items, IsDocument depth v) :
    IsDocument (depth + 1) (.list items)
  | table {depth : Nat} {entries : Table} (hkeys : entries.HasTextKeys)
      (hnodup : entries.keys.Nodup) (hvalues : ∀ e ∈ entries, IsDocument depth e.2) :
    IsDocument (depth + 1) (.table entries)

namespace Value.IsDocument

variable {depth depth' : Nat} {v : Value}

/-- What is nested no deeper than a bound is nested no deeper than a greater one. -/
theorem mono (h : v.IsDocument depth) (hle : depth ≤ depth') : v.IsDocument depth' := by
  -- On the document: a level more all the way down.
  induction h generalizing depth' with
  | null => exact .null
  | bool b => exact .bool b
  | int hn => exact .int hn
  | float hx => exact .float hx
  | text ht => exact .text ht
  | list _ ih =>
    obtain ⟨d, rfl⟩ := Nat.exists_eq_add_of_lt hle
    exact .list fun v hv => ih v hv (by omega)
  | table hkeys hnodup _ ih =>
    obtain ⟨d, rfl⟩ := Nat.exists_eq_add_of_lt hle
    exact .table hkeys hnodup fun e he => ih e he (by omega)

theorem str (s : String) : (Value.str s).IsDocument depth :=
  .text (WireText.isJoined_plain s)

theorem nil : (Value.list []).IsDocument (depth + 1) :=
  .list fun _ h => absurd h List.not_mem_nil

/-- A table with names for keys, each once. -/
theorem named {entries : List (String × Value)} (hnodup : (entries.map Prod.fst).Nodup)
    (h : ∀ e ∈ entries, e.2.IsDocument depth) : (Value.named entries).IsDocument (depth + 1) := by
  have hkeys : (Table.named entries).keys = (entries.map Prod.fst).map Value.str := by
    rw [Table.keys, Table.named, List.map_map, List.map_map]
    rfl
  refine .table ?_ ?_ ?_
  · intro e he
    obtain ⟨⟨name, v⟩, -, rfl⟩ := List.mem_map.mp he
    exact ⟨.plain name, WireText.isJoined_plain name, rfl⟩
  · rw [hkeys]
    exact List.pairwise_map.mpr (hnodup.imp fun hne heq => hne (Value.str.inj heq))
  · intro e he
    obtain ⟨⟨name, v⟩, hmem, rfl⟩ := List.mem_map.mp he
    exact h _ hmem

end Value.IsDocument

/-- The values of a table are those of documents. -/
def Table.HoldsDocuments (depth : Nat) (t : Table) : Prop :=
  ∀ e ∈ t, e.2.IsDocument depth

/-- What the parts of a value of a document are, by the form of the value. -/
def Value.HasDocumentParts (depth : Nat) : Value → Prop
  | .null | .bool _ | .str _ => True
  | .broken points => (WireText.broken points).IsJoined
  | .int n => isOverlong n = false
  | .float x => x.IsBounded
  | .list items => ∃ k, depth = k + 1 ∧ ∀ v ∈ items, v.IsDocument k
  | .table entries =>
    ∃ k, depth = k + 1 ∧ Table.HasTextKeys entries ∧ (Table.keys entries).Nodup ∧
      Table.HoldsDocuments k entries
  | .tuple _ | .model _ | .foreign _ => False

/-- A value of a document is known by its form. -/
theorem Value.IsDocument.parts {depth : Nat} {v : Value} (h : v.IsDocument depth) :
    v.HasDocumentParts depth := by
  cases h with
  | null | bool => trivial
  | int hn => exact hn
  | float hx => exact hx
  | @text _ t ht =>
    cases t with
    | plain s => trivial
    | broken points => exact ht
  | list hitems => exact ⟨_, rfl, hitems⟩
  | table hkeys hnodup hvalues => exact ⟨_, rfl, hkeys, hnodup, hvalues⟩

/-- A text of a document can be read. -/
theorem Value.IsDocument.isJoined {depth : Nat} {t : WireText} (h : t.toValue.IsDocument depth) :
    t.IsJoined := by
  cases t with
  | plain s => exact WireText.isJoined_plain s
  | broken points => exact h.parts

/-- The values of a table with a document are those of documents. -/
theorem Value.IsDocument.of_named {depth : Nat} {entries : List (String × Value)}
    (h : (Value.named entries).IsDocument (depth + 1)) : ∀ e ∈ entries, e.2.IsDocument depth := by
  obtain ⟨k, hk, -, -, hvalues⟩ := h.parts
  obtain rfl := Nat.succ.inj hk
  exact fun e he => hvalues _ (List.mem_map_of_mem he)

namespace Json

/-! ## What is read is a document

The readers are followed from the texts and numbers up to a whole document. Each lemma says what
kind of thing comes out, whatever the input was; the depth at which the reader stands is the depth
that the predicate speaks of. -/

/-- What comes of a computation that goes on with a result comes of that result. -/
theorem exists_of_bind_eq_ok {ε α β : Type} {x : Except ε α} {f : α → Except ε β} {b : β}
    (h : (x >>= f) = .ok b) : ∃ a, x = .ok a ∧ f a = .ok b := by
  cases x with
  | error e => exact absurd h nofun
  | ok a => exact ⟨a, rfl, h⟩

/-- **A text that is read** can be. -/
theorem isJoined_readText {d : Dialect} {start cs rest : List Char} {t : WireText}
    (h : readText d start cs = .ok (t, rest)) : t.IsJoined := by
  rw [readText] at h
  obtain ⟨⟨units, rest'⟩, hunits, h⟩ := exists_of_bind_eq_ok h
  revert h
  dsimp only
  split
  · rintro ⟨⟩
  · intro h
    obtain ⟨rfl, -⟩ := Prod.mk.inj (Except.ok.inj h)
    exact WireText.isJoined_ofPoints (Text.areJoined_joinPairs (lt_of_mem_readUnits hunits))

/-- The name of a member is a text that has been read. -/
theorem isJoined_readName {d : Dialect} {cs rest : List Char} {t : WireText}
    (h : readName d cs = .ok (t, rest)) : t.IsJoined := by
  revert h
  rw [readName.eq_def]
  split
  · intro h
    obtain ⟨⟨name, rest'⟩, hname, h⟩ := exists_of_bind_eq_ok h
    have hjoined := isJoined_readText hname
    revert h
    dsimp only
    split
    · intro h
      obtain ⟨rfl, -⟩ := Prod.mk.inj (Except.ok.inj h)
      exact hjoined
    · exact nofun
  · exact nofun

/-- The digits of a span are less than ten. -/
theorem lt_of_mem_digitSpan (cs : List Char) : ∀ d ∈ (digitSpan cs).1, d < 10 := by
  induction cs with
  | nil => exact fun _ h => absurd h List.not_mem_nil
  | cons c cs ih =>
    rw [digitSpan]
    cases hc : Text.asciiDigit? c with
    | some d => exact List.forall_mem_cons.mpr ⟨asciiDigit?_lt hc, ih⟩
    | none => exact fun _ h => absurd h List.not_mem_nil

theorem lt_of_mem_wholeSpan (cs : List Char) : ∀ d ∈ (wholeSpan cs).1, d < 10 := by
  rw [wholeSpan.eq_def]
  split
  · exact List.forall_mem_singleton.mpr (by decide)
  · exact lt_of_mem_digitSpan _

variable {depth : Nat} {cs rest : List Char} {v : Value}

/-- A number is whole, of few enough digits, or one that was rounded. -/
theorem isDocument_readNumber (h : readNumber cs = .ok (v, rest)) : v.IsDocument depth := by
  revert h
  -- A whole number has no more digits than its text, and those were counted; any other number is
  -- rounded into bounds.
  rw [readNumber.eq_def]
  split
  next negative body _ =>
    have hwhole := lt_of_mem_wholeSpan body
    split
    · rintro ⟨⟩
    · next whole _ _ hspan =>
      rw [hspan] at hwhole
      split
      split
      · split
        · split
          · rintro ⟨⟩
          · next hlen =>
            rintro ⟨⟩
            exact .int (isOverlong_ofDigits hwhole (Nat.le_of_not_lt hlen) _)
        · rintro ⟨⟩
          exact .float (Binary64.isBounded_ofDecimal _ _ _)
      · rintro ⟨⟩
        exact .float (Binary64.isBounded_ofDecimal _ _ _)

/-- A word stands for a value without parts. -/
theorem isDocument_readWord (h : readWord cs = .ok (v, rest)) : v.IsDocument depth := by
  have hwords : ∀ p ∈ wordValues, p.2.IsDocument depth := by
    simp only [wordValues, List.forall_mem_cons]
    exact ⟨.null, .bool true, .bool false, .float trivial, .float trivial, .float trivial, nofun⟩
  revert h
  rw [readWord]
  split
  · next hfind =>
    rintro ⟨⟩
    exact hwords _ (List.mem_of_find?_eq_some hfind)
  · exact isDocument_readNumber

/-- What a reader reads has a property. -/
def Yields (inner : ValueReader) (P : Value → Prop) : Prop :=
  ∀ cs v rest, inner cs = .ok (v, rest) → P v

section

variable {inner : ValueReader} {P : Value → Prop} (hinner : Yields inner P)

include hinner

/-- The elements of an array are what the reader inside yields. -/
theorem forall_of_readElements {n : Nat} {vs : List Value}
    (h : readElements inner n cs = .ok (vs, rest)) : ∀ v ∈ vs, P v := by
  induction n generalizing cs vs rest with
  | zero => exact absurd h nofun
  | succ n ih =>
    rw [readElements] at h
    obtain ⟨⟨v, rest'⟩, hv, h⟩ := exists_of_bind_eq_ok h
    have hhead := hinner _ _ _ hv
    revert h
    dsimp only
    split
    · rintro ⟨⟩
      exact List.forall_mem_singleton.mpr hhead
    · intro h
      obtain ⟨⟨more, rest''⟩, hmore, h⟩ := exists_of_bind_eq_ok h
      obtain ⟨rfl, -⟩ := Prod.mk.inj (Except.ok.inj h)
      exact List.forall_mem_cons.mpr ⟨hhead, ih hmore⟩
    · rintro ⟨⟩

/-- So are those of an array that may be empty. -/
theorem forall_of_readArray {vs : List Value} (h : readArray inner cs = .ok (vs, rest)) :
    ∀ v ∈ vs, P v := by
  revert h
  rw [readArray.eq_def]
  split
  · rintro ⟨⟩
    exact fun v hv => absurd hv List.not_mem_nil
  · exact forall_of_readElements hinner

variable {d : Dialect}

/-- The members of an object have texts for names and values that the reader inside yields. -/
theorem forall_of_readMembers {n : Nat} {entries : Table}
    (h : readMembers d inner n cs = .ok (entries, rest)) :
    ∀ e ∈ entries, (∃ key : WireText, key.IsJoined ∧ e.1 = key.toValue) ∧ P e.2 := by
  induction n generalizing cs entries rest with
  | zero => exact absurd h nofun
  | succ n ih =>
    rw [readMembers] at h
    obtain ⟨⟨name, rest₁⟩, hname, h⟩ := exists_of_bind_eq_ok h
    obtain ⟨⟨v, rest₂⟩, hv, h⟩ := exists_of_bind_eq_ok h
    have hhead : (∃ key : WireText, key.IsJoined ∧ name.toValue = key.toValue) ∧ P v :=
      ⟨⟨name, isJoined_readName hname, rfl⟩, hinner _ _ _ hv⟩
    revert h
    dsimp only
    split
    · rintro ⟨⟩
      exact List.forall_mem_singleton.mpr hhead
    · intro h
      obtain ⟨⟨more, rest₃⟩, hmore, h⟩ := exists_of_bind_eq_ok h
      obtain ⟨rfl, -⟩ := Prod.mk.inj (Except.ok.inj h)
      exact List.forall_mem_cons.mpr ⟨hhead, ih hmore⟩
    · rintro ⟨⟩

/-- An object has texts for names, and each once, however often it was written. -/
theorem forall_of_readObject {entries : Table} (h : readObject d inner cs = .ok (entries, rest)) :
    entries.HasTextKeys ∧ entries.keys.Nodup ∧ ∀ e ∈ entries, P e.2 := by
  revert h
  rw [readObject.eq_def]
  split
  · rintro ⟨⟩
    exact ⟨nofun, List.nodup_nil, nofun⟩
  · intro h
    obtain ⟨⟨members, rest'⟩, hmembers, h⟩ := exists_of_bind_eq_ok h
    obtain ⟨rfl, -⟩ := Prod.mk.inj (Except.ok.inj h)
    -- Members of one name make one entry, so the keys of the table are apart whatever the members
    -- are.
    have hall := forall_of_readMembers hinner hmembers
    have hput :=
      Table.forall_ofPairs (P := fun k => ∃ key : WireText, key.IsJoined ∧ k = key.toValue) hall
    exact ⟨fun e he => (hput e he).1, Table.nodup_keys_ofPairs fun e he => (hall e he).1,
      fun e he => (hput e he).2⟩

end

/-- A value is a document if those inside it are. -/
theorem isDocument_readValueWith {d : Dialect} {inner? : Option ValueReader}
    (hinner : ∀ inner, inner? = some inner →
      ∃ k, depth = k + 1 ∧ Yields inner (Value.IsDocument k))
    (h : readValueWith d inner? cs = .ok (v, rest)) : v.IsDocument depth := by
  revert h
  -- By the first character; what is inside of an array or an object is one level less deep.
  rw [readValueWith.eq_def]
  split
  · intro h
    obtain ⟨⟨t, rest'⟩, ht, h⟩ := exists_of_bind_eq_ok h
    obtain ⟨rfl, -⟩ := Prod.mk.inj (Except.ok.inj h)
    exact .text (isJoined_readText ht)
  · split
    · rintro ⟨⟩
    · next inner =>
      obtain ⟨k, rfl, hk⟩ := hinner inner rfl
      intro h
      obtain ⟨⟨items, rest'⟩, hitems, h⟩ := exists_of_bind_eq_ok h
      obtain ⟨rfl, -⟩ := Prod.mk.inj (Except.ok.inj h)
      exact .list (forall_of_readArray hk hitems)
  · split
    · rintro ⟨⟩
    · next inner =>
      obtain ⟨k, rfl, hk⟩ := hinner inner rfl
      intro h
      obtain ⟨⟨entries, rest'⟩, hentries, h⟩ := exists_of_bind_eq_ok h
      obtain ⟨rfl, -⟩ := Prod.mk.inj (Except.ok.inj h)
      obtain ⟨hkeys, hnodup, hvalues⟩ := forall_of_readObject hk hentries
      exact .table hkeys hnodup hvalues
  · exact isDocument_readWord

/-- **What is read is a document**, nested no deeper than the reader goes. -/
theorem isDocument_readValue (d : Dialect) (depth : Nat) :
    Yields (readValue d depth) (Value.IsDocument depth) := by
  -- A reader with nothing left refuses brackets; one with a level more hands it to the reader
  -- below.
  induction depth with
  | zero => exact fun cs v rest => isDocument_readValueWith fun inner hinner => absurd hinner nofun
  | succ depth ih =>
    intro cs v rest h
    refine isDocument_readValueWith (fun inner hinner => ⟨depth, rfl, ?_⟩) h
    rw [← Option.some.inj hinner]
    exact ih

/-- **What is read is a document** as deep as the dialect allows. -/
theorem isDocument_readDocument {d : Dialect} (h : readDocument d cs = .ok v) :
    v.IsDocument d.maxDepth := by
  revert h
  rw [readDocument]
  split
  · rintro ⟨⟩
  · intro h
    obtain ⟨⟨w, rest⟩, hw, h⟩ := exists_of_bind_eq_ok h
    revert h
    dsimp only
    split
    · rintro ⟨⟩
      exact isDocument_readValue d _ _ _ _ hw
    · rintro ⟨⟩

/-- **The value that a text holds** is a document. -/
theorem isDocument_read {d : Dialect} {s : String} (h : read d s = .ok v) :
    v.IsDocument d.maxDepth := by
  rw [read] at h
  cases hdoc : readDocument d s.toList with
  | error stop =>
    rw [hdoc] at h
    exact absurd h nofun
  | ok w =>
    rw [hdoc] at h
    obtain rfl := Except.ok.inj h
    exact isDocument_readDocument hdoc

end Json

end AgentClient
