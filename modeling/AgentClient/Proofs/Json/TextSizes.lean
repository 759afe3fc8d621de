import AgentClient.Proofs.Json.TrailingReturn
import AgentClient.Proofs.Json.Documents
import AgentClient.Proofs.Number.Widths
import AgentClient.Proofs.Text.Widths

/-!
# Proofs/Json/TextSizes — what is read is no longer than what it is read of

The texts of a value have some code points together, those of names included (`Value.textSize`).
Each of them is read of a character at least, and no character is read twice, so **a value has no
more of them than its document has characters** (`textSize_le_of_read`).  What is no text is short
for a reason of its own: a floating-point number is one that was rounded (`isRounded_of_read`). -/

namespace AgentClient

open Number

/-! ## Sizes

The size counts the code points of all texts in a value, keys included. Making a table of pairs may
only lose some: a pair under a key that is there already replaces the one before. -/

namespace Value

mutual

/-- How many code points the texts of a value have together. -/
def textSize : Value → Nat
  | .str s => s.length
  | .broken points => points.length
  | .list items | .tuple items => itemsTextSize items
  | .table entries => entriesTextSize entries
  | _ => 0

/-- How many code points the texts of some values have together. -/
def itemsTextSize : List Value → Nat
  | [] => 0
  | v :: vs => textSize v + itemsTextSize vs

/-- How many code points the texts of the entries of a table have together, keys included. -/
def entriesTextSize : List (Value × Value) → Nat
  | [] => 0
  | (k, v) :: rest => textSize k + textSize v + entriesTextSize rest

end

/-- The code points of an entry. -/
def entryTextSize (e : Value × Value) : Nat :=
  e.1.textSize + e.2.textSize

@[simp] theorem textSize_toValue (t : WireText) : t.toValue.textSize = t.points.length := by
  cases t with
  | plain s => exact (WireText.length_points_plain s).symm
  | broken points => rfl

theorem itemsTextSize_eq_sum (vs : List Value) : itemsTextSize vs = (vs.map textSize).sum := by
  induction vs with
  | nil => rfl
  | cons v vs ih => rw [itemsTextSize, ih, List.map_cons, List.sum_cons]

theorem entriesTextSize_eq_sum (t : Table) : entriesTextSize t = (t.map entryTextSize).sum := by
  induction t with
  | nil => rfl
  | cons e t ih => rw [entriesTextSize, ih, List.map_cons, List.sum_cons, entryTextSize]

/-- A value in a table is no larger than the table. -/
theorem textSize_le_of_mem {t : Table} {e : Value × Value} (h : e ∈ t) :
    e.2.textSize ≤ (Value.table t).textSize := by
  rw [textSize, entriesTextSize_eq_sum]
  exact (Nat.le_add_left _ _).trans
    (List.single_le_sum (fun _ _ => Nat.zero_le _) _ (List.mem_map_of_mem h))

end Value

open Value

namespace Table

/-- Putting a value adds its entry, at the most. -/
theorem textSize_put_le (t : Table) (key v : Value) :
    entriesTextSize (t.put key v) ≤ entriesTextSize t + entryTextSize (key, v) := by
  induction t with
  | nil => simp [put, entriesTextSize, entryTextSize]
  | cons e t ih =>
    rw [put]
    split <;> simp only [entriesTextSize, entryTextSize] at ih ⊢ <;> omega

/-- The table of some pairs is no larger than the pairs: a name that comes twice stands once. -/
theorem textSize_ofPairs_le (pairs : Table) :
    entriesTextSize (ofPairs pairs) ≤ entriesTextSize pairs := by
  have hfold : ∀ (pairs t : Table), entriesTextSize (pairs.foldl (fun t e => put t e.1 e.2) t)
      ≤ entriesTextSize t + entriesTextSize pairs := by
    intro pairs
    induction pairs with
    | nil => exact fun t => Nat.le_refl _
    | cons e pairs ih =>
      intro t
      have hput := textSize_put_le t e.1 e.2
      have hmore := ih (put t e.1 e.2)
      simp only [entriesTextSize, entryTextSize, List.foldl_cons] at hput ⊢
      omega
  have hall := hfold pairs []
  rwa [entriesTextSize, Nat.zero_add] at hall

end Table

namespace Text

/-- Joining pairs makes a text no longer. -/
theorem length_joinPairs_le (us : List Nat) : (joinPairs us).length ≤ us.length := by
  fun_induction joinPairs us with
  | case1 => exact Nat.le_refl 0
  | case2 => exact Nat.le_refl 1
  | case3 u v rest _ ih => exact Nat.succ_le_succ (Nat.le_succ_of_le ih)
  | case4 u v rest _ ih => exact Nat.succ_le_succ ih

end Text

namespace Json

/-! ## Readings that fit

A reading fits if what it gives and what it leaves are no more than it was given. Readings that fit
can be put one behind another, which is how the lemmas below follow the readers. -/

/-- A reading in which what is read and the text that is left fit in `n` characters together. -/
def Fits {α : Type} (size : α → Nat) (n : Nat) (x : Except Stop (α × List Char)) : Prop :=
  ∀ a rest, x = .ok (a, rest) → size a + rest.length ≤ n

namespace Fits

variable {α β : Type} {size : α → Nat} {size' : β → Nat} {m n : Nat}
  {x : Except Stop (α × List Char)}

theorem ok {a : α} {rest : List Char} (h : size a + rest.length ≤ n) :
    Fits size n (.ok (a, rest)) := by
  rintro _ _ ⟨⟩
  exact h

theorem error (f : Stop) : Fits size n (.error f : Except Stop (α × List Char)) :=
  fun _ _ h => absurd h nofun

theorem mono (h : Fits size m x) (hn : m ≤ n) : Fits size n x :=
  fun a rest hx => (h a rest hx).trans hn

/-- What comes of a reading fits if it fits behind any reading that does. -/
theorem bind (h : Fits size m x) {g : α × List Char → Except Stop (β × List Char)}
    (hg : ∀ a rest, size a + rest.length ≤ m → Fits size' n (g (a, rest))) :
    Fits size' n (x >>= g) := by
  cases x with
  | error f => exact error f
  | ok p => exact hg p.1 p.2 (h p.1 p.2 rfl)

/-- What is made of a reading may be larger by as much as there are characters more. -/
theorem map (h : Fits size m x) {g : α → β} (k : Nat) (hg : ∀ a, size' (g a) ≤ size a + k)
    (hn : m + k ≤ n) : Fits size' n (x.map fun (a, rest) => (g a, rest)) := by
  cases x with
  | error f => exact error f
  | ok p =>
    have hp := h p.1 p.2 rfl
    have hle := hg p.1
    exact ok (by omega)

end Fits

/-! ## Texts

A code unit takes one character or more, and joining pairs makes fewer numbers of them. The marks of
a text and the colon behind a name are to spare. -/

/-- The units of a text are no more than its characters. -/
theorem fits_readUnits (start cs : List Char) :
    Fits List.length cs.length (readUnits start cs) := by
  -- a unit is read of four digits, of one letter, or of a character
  fun_induction readUnits start cs with
  | case2 rest => exact .ok (by simp)
  | case6 i j k l rest unit _ _ _ ih => exact ih.map 1 (fun _ => Nat.le_refl _) (by simp)
  | case9 e rest _ c _ _ ih => exact ih.map 1 (fun _ => Nat.le_refl _) (by simp)
  | case11 c rest _ _ _ ih => exact ih.map 1 (fun _ => Nat.le_refl _) (by simp)
  | _ => exact .error _

/-- **A text** has no more code points than it is read of. -/
theorem fits_readText (d : Dialect) (start cs : List Char) :
    Fits (fun t : WireText => t.points.length) cs.length (readText d start cs) := by
  intro t rest h
  rw [readText] at h
  obtain ⟨⟨units, rest'⟩, hunits, h⟩ := exists_of_bind_eq_ok h
  have hfits := fits_readUnits start cs units rest' hunits
  have hjoined := Text.areJoined_joinPairs (lt_of_mem_readUnits hunits)
  have hlength := Text.length_joinPairs_le units
  revert h
  dsimp only
  split
  · rintro ⟨⟩
  · intro h
    obtain ⟨rfl, rfl⟩ := Prod.mk.inj (Except.ok.inj h)
    -- The points are what the units are joined to, and joining makes them no more.
    rw [WireText.points_ofPoints hjoined.forall_lt]
    omega

/-- The name of a member is no larger than what has been taken for it. -/
theorem fits_readName (d : Dialect) (cs : List Char) :
    Fits (fun t : WireText => t.points.length) cs.length (readName d cs) := by
  rw [readName.eq_def]
  split
  · next cs =>
    refine (fits_readText d ('"' :: cs) cs).bind fun t rest hrest => ?_
    have hgap := length_skipGap_le rest
    dsimp only
    split
    · next more hmore =>
      have hlast := length_skipGap_le more
      rw [hmore, List.length_cons] at hgap
      refine .ok ?_
      rw [List.length_cons]
      omega
    · exact .error _
  · exact .error _

/-! ## Words and numbers

These have no texts in them at all, so it is enough that they take what they are read of. -/

/-- What is read without any text, array or object: null, a truth value, a whole number, or a
floating-point number that was rounded. -/
def IsScalar : Value → Prop
  | .null | .bool _ | .int _ => True
  | .float x => x.IsAboveLeast
  | _ => False

theorem IsScalar.textSize_eq {v : Value} (h : IsScalar v) : v.textSize = 0 := by
  cases v with
  | null | bool | int | float => rfl
  | _ => exact h.elim

/-- A number is a scalar, whose size is that of nothing. -/
theorem isScalar_readNumber {cs rest : List Char} {v : Value} (h : readNumber cs = .ok (v, rest)) :
    IsScalar v := by
  revert h
  rw [readNumber.eq_def]
  split
  split
  · rintro ⟨⟩
  · split
    split
    · split
      · split <;> rintro ⟨⟩
        trivial
      · rintro ⟨⟩
        exact Binary64.isAboveLeast_ofDecimal _ _ _
    · rintro ⟨⟩
      exact Binary64.isAboveLeast_ofDecimal _ _ _

/-- So is every word. -/
theorem isScalar_readWord {cs rest : List Char} {v : Value} (h : readWord cs = .ok (v, rest)) :
    IsScalar v := by
  have hwords : ∀ p ∈ wordValues, IsScalar p.2 := by
    simp only [wordValues, List.forall_mem_cons]
    exact ⟨trivial, trivial, trivial, trivial, trivial, trivial, List.forall_mem_nil _⟩
  revert h
  rw [readWord]
  split
  · next hfind =>
    rintro ⟨⟩
    exact hwords _ (List.mem_of_find?_eq_some hfind)
  · exact isScalar_readNumber

/-- What is read as a word or a number is no larger than its text. -/
theorem fits_readWord (cs : List Char) : Fits textSize cs.length (readWord cs) := by
  intro v rest h
  have hsteady : IsSteady readWord := fun h => alike_readWord h
  rw [(isScalar_readWord h).textSize_eq, Nat.zero_add]
  exact hsteady.length_le h

/-! ## Arrays and objects

The sizes of the parts add up, and each of them is taken out of the text that the one before it has
left. -/

section

variable {α : Type} {size : α → Nat} {part : PartReader α}

/-- **Parts fit** if each of them does. -/
theorem fits_readParts (h : ∀ cs, Fits size cs.length (part cs)) (close : Char) (what : Complaint)
    (n : Nat) (cs : List Char) :
    Fits (fun as => (as.map size).sum) cs.length (readParts part close what n cs) := by
  -- Along the parts: a comma or the closing mark stands between what two of them have taken.
  induction n generalizing cs with
  | zero => exact .error _
  | succ n ih =>
    rw [readParts]
    refine (h cs).bind fun a rest hrest => ?_
    have hgap := length_skipGap_le rest
    dsimp only
    split
    · exact .error _
    · next c more hmore =>
      rw [hmore, List.length_cons] at hgap
      split
      · refine .ok ?_
        simp only [List.map_cons, List.map_nil, List.sum_cons, List.sum_nil]
        omega
      · split
        · refine (ih (skipGap more)).bind fun as last hlast => .ok ?_
          have hskip := length_skipGap_le more
          simp only [List.map_cons, List.sum_cons]
          omega
        · exact .error _

end

variable {inner : ValueReader}

/-- **An array** is no larger than its text, if its elements are not. -/
theorem fits_readArray (h : ∀ cs, Fits textSize cs.length (inner cs)) (cs : List Char) :
    Fits itemsTextSize cs.length (readArray inner cs) := by
  have hgap := length_skipGap_le cs
  rw [readArray.eq_def]
  split
  · next rest hrest =>
    rw [hrest, List.length_cons] at hgap
    exact .ok (by rw [itemsTextSize]; omega)
  · rw [readElements_eq, funext itemsTextSize_eq_sum]
    exact (fits_readParts h _ _ _ _).mono hgap

/-- A member is no larger than its name and its value together. -/
theorem fits_readMember (d : Dialect) (h : ∀ cs, Fits textSize cs.length (inner cs))
    (cs : List Char) : Fits entryTextSize cs.length (readMember d inner cs) := by
  refine (fits_readName d cs).bind fun name rest hrest => ?_
  refine (h rest).bind fun v last hlast => .ok ?_
  simp only [entryTextSize, textSize_toValue]
  omega

/-- A member that is named again only replaces the one before. -/
theorem fits_readObject (d : Dialect) (h : ∀ cs, Fits textSize cs.length (inner cs))
    (cs : List Char) : Fits entriesTextSize cs.length (readObject d inner cs) := by
  have hgap := length_skipGap_le cs
  rw [readObject.eq_def]
  split
  · next rest hrest =>
    rw [hrest, List.length_cons] at hgap
    exact .ok (by rw [entriesTextSize]; omega)
  · rw [readMembers_eq]
    refine (fits_readParts (fits_readMember d h) _ _ _ _).bind fun members rest hrest => .ok ?_
    -- Making a table of the members makes them no larger.
    have hpairs := Table.textSize_ofPairs_le members
    rw [entriesTextSize_eq_sum members] at hpairs
    omega

/-! ## Values and documents

By induction on the levels left to the reader, as everything about the readers is. -/

/-- **A value is no larger than its text**, if what is inside of it is not. -/
theorem fits_readValueWith (d : Dialect) {inner? : Option ValueReader}
    (hinner : ∀ inner ∈ inner?, ∀ cs, Fits textSize cs.length (inner cs)) (cs : List Char) :
    Fits textSize cs.length (readValueWith d inner? cs) := by
  rw [readValueWith.eq_def]
  split
  · next rest =>
    exact (fits_readText d _ rest).map 0 (fun t => (textSize_toValue t).le) (Nat.le_succ _)
  · split
    · exact .error _
    · next rest _ inner =>
      exact (fits_readArray (hinner inner rfl) rest).map 0 (fun _ => Nat.le_refl _) (Nat.le_succ _)
  · split
    · exact .error _
    · next rest _ inner =>
      exact (fits_readObject d (hinner inner rfl) rest).map 0 (fun _ => Nat.le_refl _)
        (Nat.le_succ _)
  · exact fits_readWord cs

/-- So it is at every depth. -/
theorem fits_readValue (d : Dialect) (depth : Nat) (cs : List Char) :
    Fits textSize cs.length (readValue d depth cs) := by
  induction depth generalizing cs with
  | zero =>
    exact fits_readValueWith d (fun inner hinner => absurd hinner (Option.not_mem_none inner)) cs
  | succ depth ih =>
    refine fits_readValueWith d (fun inner hinner => ?_) cs
    rw [← Option.some.inj hinner]
    exact ih

/-- A document is one value with gaps around it. -/
theorem exists_readValue_of_read {d : Dialect} {s : String} {v : Value} (h : read d s = .ok v) :
    ∃ rest, readValue d d.maxDepth (skipGap s.toList) = .ok (v, rest) := by
  rw [read, readDocument] at h
  split at h
  · cases h
  -- A document that is read has a value at its front, and nothing but gaps behind it.
  · cases hvalue : readValue d d.maxDepth (skipGap s.toList) with
    | error f =>
      rw [hvalue] at h
      cases h
    | ok p =>
      rw [hvalue] at h
      revert h
      dsimp only [bind, Except.bind]
      split
      · rintro ⟨⟩
        exact ⟨p.2, rfl⟩
      · rintro ⟨⟩

/-- **The texts of a value** are not longer than its document. -/
theorem textSize_le_of_read {d : Dialect} {s : String} {v : Value} (h : read d s = .ok v) :
    v.textSize ≤ s.length := by
  obtain ⟨rest, hvalue⟩ := exists_readValue_of_read h
  have hfits := fits_readValue d d.maxDepth _ v rest hvalue
  have hgap := length_skipGap_le s.toList
  rw [String.length_toList] at hgap
  omega

/-! ## Rounded numbers

A floating-point number that is read was rounded from decimal digits, so it is none of the very
small ones that have long decimals. This is asked of the members of an object only, so one level of
the reader is looked at. -/

/-- **The kinds of values that are read**: texts, arrays, objects and scalars. -/
theorem readValueWith_cases {d : Dialect} {inner? : Option ValueReader} {cs rest : List Char}
    {v : Value} (h : readValueWith d inner? cs = .ok (v, rest)) :
    (∃ t : WireText, v = t.toValue) ∨ (∃ items, v = .list items)
      ∨ (∃ inner ∈ inner?, ∃ cs' rest' t, readObject d inner cs' = .ok (t, rest') ∧ v = .table t)
      ∨ IsScalar v := by
  revert h
  rw [readValueWith.eq_def]
  split
  · intro h
    obtain ⟨⟨t, _⟩, -, h⟩ := exists_of_bind_eq_ok h
    exact .inl ⟨t, (Prod.mk.inj (Except.ok.inj h)).1.symm⟩
  · split
    · rintro ⟨⟩
    · intro h
      obtain ⟨⟨items, _⟩, -, h⟩ := exists_of_bind_eq_ok h
      exact .inr (.inl ⟨items, (Prod.mk.inj (Except.ok.inj h)).1.symm⟩)
  · split
    · rintro ⟨⟩
    · intro h
      obtain ⟨⟨t, rest'⟩, ht, h⟩ := exists_of_bind_eq_ok h
      exact .inr (.inr (.inl ⟨_, rfl, _, rest', t, ht, (Prod.mk.inj (Except.ok.inj h)).1.symm⟩))
  · exact fun h => .inr (.inr (.inr (isScalar_readWord h)))

/-- A value that is a floating-point number only if it was rounded. -/
def IsRounded (v : Value) : Prop :=
  ∀ x, v = .float x → x.IsAboveLeast

/-- A floating-point number that is read has been rounded. -/
theorem isRounded_readValueWith (d : Dialect) (inner? : Option ValueReader) :
    Yields (readValueWith d inner?) IsRounded := by
  rintro cs _ rest h x rfl
  obtain ⟨t, ht⟩ | ⟨items, hitems⟩ | ⟨-, -, -, -, t, -, ht⟩ | hscalar := readValueWith_cases h
  · cases t <;> exact absurd ht nofun
  · exact absurd hitems nofun
  · exact absurd ht nofun
  · exact hscalar

/-- **The members of an object** have rounded numbers. -/
theorem isRounded_of_read {d : Dialect} {s : String} {t : Table} (h : read d s = .ok (.table t)) :
    ∀ e ∈ t, IsRounded e.2 := by
  -- one level of the reader is enough, whatever reads the members
  have hreader : ∀ depth, ∃ inner?, readValue d depth = readValueWith d inner?
      ∧ ∀ inner ∈ inner?, Yields inner IsRounded
    | 0 => ⟨none, rfl, nofun⟩
    | depth + 1 => by
      refine ⟨_, rfl, fun inner hinner => ?_⟩
      rw [← Option.some.inj hinner]
      cases depth <;> exact isRounded_readValueWith d _
  obtain ⟨rest, hvalue⟩ := exists_readValue_of_read h
  obtain ⟨inner?, heq, hinner⟩ := hreader d.maxDepth
  rw [heq] at hvalue
  obtain ⟨t', ht⟩ | ⟨items, hitems⟩ | ⟨inner, hsome, _, _, _, hentries, ⟨⟩⟩ | hscalar :=
    readValueWith_cases hvalue
  · cases t' <;> exact absurd ht nofun
  · exact absurd hitems nofun
  · exact (forall_of_readObject (hinner inner hsome) hentries).2.2
  · exact hscalar.elim

end Json

end AgentClient
