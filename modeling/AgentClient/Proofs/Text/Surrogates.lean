import AgentClient.Value.WireText

/-!
# Proofs/Text/Surrogates — code units, and the texts that they make

A character beyond the first 65536 is two code units, a surrogate pair, and joining the pairs gives
the characters back, whichever characters a writer lets stand for themselves
(`joinPairs_flatMap_pointUnits`).  Half of a pair alone stays one as long as its other half is not
beside it; so it is with what joining has left (`areJoined_joinPairs`). -/

namespace AgentClient

namespace Text

/-- The code units of a character: one, or a surrogate pair. -/
def charUnits (c : Char) : List Nat :=
  if c.toNat < 0x10000 then [c.toNat]
  else [0xD800 + (c.toNat - 0x10000) / 0x400, 0xDC00 + (c.toNat - 0x10000) % 0x400]

theorem toNat_lt (c : Char) : c.toNat < 0x110000 := by
  have hvalid : c.toNat < 0xD800 ∨ (0xDFFF < c.toNat ∧ c.toNat < 0x110000) := c.valid
  omega

theorem isSurrogate_toNat (c : Char) : isSurrogate c.toNat = false := by
  have hc := charOf?_toNat c
  rw [charOf?] at hc
  cases h : isSurrogate c.toNat with
  | false => rfl
  | true =>
    rw [h] at hc
    exact absurd hc.symm (Option.some_ne_none c)

theorem isHighSurrogate_toNat (c : Char) : isHighSurrogate c.toNat = false :=
  (Bool.or_eq_false_iff.mp (isSurrogate_toNat c)).1

theorem isLowSurrogate_toNat (c : Char) : isLowSurrogate c.toNat = false :=
  (Bool.or_eq_false_iff.mp (isSurrogate_toNat c)).2

/-- A code point is the number of the character that it stands for. -/
theorem toNat_of_charOf? {n : Nat} {c : Char} (hn : n < 0x110000) (h : charOf? n = some c) :
    c.toNat = n := by
  rw [charOf?] at h
  split at h
  · exact absurd h.symm (Option.some_ne_none c)
  · next hn' =>
    rw [isSurrogate, isHighSurrogate, isLowSurrogate] at hn'
    simp only [Bool.or_eq_true, Bool.and_eq_true, decide_eq_true_eq] at hn'
    have hvalid : n.isValidChar := by
      rw [Nat.isValidChar]
      omega
    rw [← Option.some.inj h, Char.ofNat, dif_pos hvalid]
    rfl

/-- What stands for no character is half of a pair. -/
theorem isSurrogate_of_charOf? {n : Nat} (h : charOf? n = none) : isSurrogate n = true := by
  rw [charOf?] at h
  split at h
  · next hn => exact hn
  · exact absurd h (Option.some_ne_none _)

/-! ## Joining pairs

Joining looks at two units at a time. A character below the limit is no half of a pair, so nothing
is joined to it; one beyond it is a pair, which is joined to it before anything else can be. -/

/-- A code unit is joined to nothing behind it, unless the two are a pair. -/
theorem joinPairs_cons {u : Nat} {us : List Nat}
    (h : ∀ v ∈ us.head?, (isHighSurrogate u && isLowSurrogate v) = false) :
    joinPairs (u :: us) = u :: joinPairs us := by
  cases us with
  | nil => rfl
  | cons v us => rw [joinPairs, h v rfl, if_neg Bool.false_ne_true]

/-- The two halves of a character beyond the first 65536 are joined to it. -/
theorem joinPairs_pair {c : Char} (hc : ¬ c.toNat < 0x10000) (us : List Nat) :
    joinPairs (charUnits c ++ us) = c.toNat :: joinPairs us := by
  have hmax := toNat_lt c
  have hhigh : isHighSurrogate (0xD800 + (c.toNat - 0x10000) / 0x400) = true := by
    rw [isHighSurrogate, Bool.and_eq_true, decide_eq_true_eq, decide_eq_true_eq]
    omega
  have hlow : isLowSurrogate (0xDC00 + (c.toNat - 0x10000) % 0x400) = true := by
    rw [isLowSurrogate, Bool.and_eq_true, decide_eq_true_eq, decide_eq_true_eq]
    omega
  have hpair : pairChar (0xD800 + (c.toNat - 0x10000) / 0x400)
      (0xDC00 + (c.toNat - 0x10000) % 0x400) = c := by
    rw [pairChar, show 0x10000 + (0xD800 + (c.toNat - 0x10000) / 0x400 - 0xD800) * 0x400
      + (0xDC00 + (c.toNat - 0x10000) % 0x400 - 0xDC00) = c.toNat by omega, Char.ofNat_toNat]
  rw [charUnits, if_neg hc]
  show joinPairs (_ :: _ :: us) = _
  rw [joinPairs, hhigh, hlow, Bool.and_self, if_pos rfl, hpair]

/-- The units that a character is read as when the plain ones stand for themselves. -/
def writtenUnits (plain : Char → Bool) (c : Char) : List Nat :=
  if plain c then [c.toNat] else charUnits c

theorem writtenUnits_of_lt (plain : Char → Bool) {c : Char} (hc : c.toNat < 0x10000) :
    writtenUnits plain c = [c.toNat] := by
  rw [writtenUnits, charUnits, if_pos hc, ite_self]

/-- A character is joined from its own units. -/
theorem joinPairs_writtenUnits (plain : Char → Bool) (c : Char) (us : List Nat) :
    joinPairs (writtenUnits plain c ++ us) = c.toNat :: joinPairs us := by
  have hone : joinPairs (c.toNat :: us) = c.toNat :: joinPairs us :=
    joinPairs_cons fun v _ => by rw [isHighSurrogate_toNat, Bool.false_and]
  by_cases hc : c.toNat < 0x10000
  · rw [writtenUnits_of_lt plain hc]
    exact hone
  · rw [writtenUnits]
    split
    · exact hone
    · exact joinPairs_pair hc us

/-! ## Code points that are joined

The condition is on neighbours, so it is an induction on the list. What comes of joining has it,
since a pair left over would have been joined; and a list that has it is what joining makes of its
units. -/

/-- **Code points of a text whose pairs are joined**: no first half of a pair stands before a second
one. -/
inductive AreJoined : List Nat → Prop where
  | nil : AreJoined []
  | cons {n : Nat} {points : List Nat} (lt : n < 0x110000)
      (not_pair : ∀ m ∈ points.head?, (isHighSurrogate n && isLowSurrogate m) = false)
      (h : AreJoined points) : AreJoined (n :: points)

theorem AreJoined.forall_lt {points : List Nat} (h : AreJoined points) :
    ∀ n ∈ points, n < 0x110000 := by
  induction h with
  | nil => exact nofun
  | cons hn _ _ ih => exact List.forall_mem_cons.mpr ⟨hn, ih⟩

theorem areJoined_singleton {n : Nat} (hn : n < 0x110000) : AreJoined [n] :=
  .cons hn nofun .nil

/-- The first code point is the first code unit, or a character. -/
theorem isLowSurrogate_head?_joinPairs {u m : Nat} {us : List Nat}
    (hm : m ∈ (joinPairs (u :: us)).head?) : m = u ∨ isLowSurrogate m = false := by
  cases us with
  | nil => exact .inl (Option.some.inj hm).symm
  | cons v us =>
    rw [joinPairs] at hm
    split at hm
    · exact .inr (Option.some.inj hm ▸ isLowSurrogate_toNat _)
    · exact .inl (Option.some.inj hm).symm

/-- **Joining the pairs** leaves none. -/
theorem areJoined_joinPairs {us : List Nat} (h : ∀ u ∈ us, u < 0x110000) :
    AreJoined (joinPairs us) := by
  fun_induction joinPairs us with
  | case1 => exact .nil
  | case2 u => exact areJoined_singleton (h u List.mem_cons_self)
  | case3 u v rest _ ih =>
    rw [List.forall_mem_cons, List.forall_mem_cons] at h
    exact .cons (toNat_lt _) (fun m _ => by rw [isHighSurrogate_toNat, Bool.false_and]) (ih h.2.2)
  | case4 u v rest hpair ih =>
    rw [List.forall_mem_cons] at h
    refine .cons h.1 (fun m hm => ?_) (ih h.2)
    rcases isLowSurrogate_head?_joinPairs hm with rfl | hlow
    · exact Bool.eq_false_iff.mpr hpair
    · rw [hlow, Bool.and_false]

/-- The units that a code point is read as: half of a pair is one. -/
def pointUnits (plain : Char → Bool) (n : Nat) : List Nat :=
  match charOf? n with
  | some c => writtenUnits plain c
  | none => [n]

theorem pointUnits_toNat (plain : Char → Bool) (c : Char) :
    pointUnits plain c.toNat = writtenUnits plain c := by
  rw [pointUnits, charOf?_toNat]

/-- The first unit of a code point is a second half of a pair only if the code point is it. -/
theorem exists_pointUnits (plain : Char → Bool) {n : Nat} (hn : n < 0x110000) :
    ∃ u us, pointUnits plain n = u :: us ∧ (u = n ∨ isLowSurrogate u = false) := by
  rw [pointUnits]
  cases hc : charOf? n with
  | none => exact ⟨n, [], rfl, .inl rfl⟩
  | some c =>
    obtain rfl := toNat_of_charOf? hn hc
    dsimp only
    by_cases hlt : c.toNat < 0x10000
    · exact ⟨_, _, writtenUnits_of_lt plain hlt, .inl rfl⟩
    · rw [writtenUnits]
      split
      · exact ⟨_, _, rfl, .inl rfl⟩
      · refine ⟨_, _, if_neg hlt, .inr ?_⟩
        rw [isLowSurrogate, Bool.and_eq_false_iff, decide_eq_false_iff_not]
        omega

/-- **Joining the pairs** of the units that joined code points are read as gives them back. -/
theorem joinPairs_flatMap_pointUnits (plain : Char → Bool) {points : List Nat}
    (h : AreJoined points) :
    joinPairs (points.flatMap (pointUnits plain)) = points := by
  induction h with
  | nil => rfl
  | @cons n points hn hpair hrest ih =>
    rw [List.flatMap_cons]
    cases hc : charOf? n with
    | some c =>
      obtain rfl := toNat_of_charOf? hn hc
      rw [pointUnits_toNat, joinPairs_writtenUnits, ih]
    | none =>
      have hunits : pointUnits plain n = [n] := by rw [pointUnits, hc]
      rw [hunits, List.singleton_append, joinPairs_cons, ih]
      -- the units behind begin with those of the next code point
      intro u hu
      cases hrest with
      | nil => exact absurd hu nofun
      | @cons m points hm _ _ =>
        obtain ⟨v, vs, hv, hvm⟩ := exists_pointUnits plain hm
        rw [List.flatMap_cons, hv] at hu
        obtain rfl := Option.some.inj hu
        rcases hvm with rfl | hlow
        · exact hpair _ rfl
        · rw [hlow, Bool.and_false]

end Text

/-! ## Texts that can be read

A text is a string, or a list of code points some of which are halves. The two forms do not overlap
once a list without halves is made a string, which is what `ofPoints` does. -/

namespace WireText

/-- **A text that can be read**: its pairs are joined, and it is a string if it can be one. -/
structure IsJoined (t : WireText) : Prop where
  areJoined : Text.AreJoined t.points
  ofPoints_eq : .ofPoints t.points = t

theorem isJoined_plain (s : String) : (WireText.plain s).IsJoined where
  areJoined := by
    show Text.AreJoined (s.toList.map Char.toNat)
    induction s.toList with
    | nil => exact .nil
    | cons c cs ih =>
      refine .cons (Text.toNat_lt c) (fun m _ => ?_) ih
      rw [Text.isHighSurrogate_toNat, Bool.false_and]
  ofPoints_eq := by rw [points, ofPoints_toNat, String.ofList_toList]

/-- Code points that stand for characters are their numbers. -/
theorem map_toNat_of_mapM_charOf? {points : List Nat} {cs : List Char}
    (h : ∀ n ∈ points, n < 0x110000) (hcs : points.mapM Text.charOf? = some cs) :
    cs.map Char.toNat = points := by
  induction points generalizing cs with
  | nil =>
    obtain rfl := Option.some.inj hcs
    rfl
  | cons n points ih =>
    rw [List.forall_mem_cons] at h
    rw [List.mapM_cons] at hcs
    obtain ⟨c, hc, hcs⟩ := Option.bind_eq_some_iff.mp hcs
    obtain ⟨more, hmore, hcs⟩ := Option.bind_eq_some_iff.mp hcs
    obtain rfl := Option.some.inj hcs
    rw [List.map_cons, Text.toNat_of_charOf? h.1 hc, ih h.2 hmore]

/-- A text of code points has them. -/
theorem points_ofPoints {points : List Nat} (h : ∀ n ∈ points, n < 0x110000) :
    (WireText.ofPoints points).points = points := by
  rw [ofPoints]
  cases hcs : points.mapM Text.charOf? with
  | none => rfl
  | some cs => exact (congrArg _ String.toList_ofList).trans (map_toNat_of_mapM_charOf? h hcs)

/-- **Joined code points** make a text that can be read. -/
theorem isJoined_ofPoints {points : List Nat} (h : Text.AreJoined points) :
    (WireText.ofPoints points).IsJoined := by
  have hpoints := points_ofPoints h.forall_lt
  exact ⟨hpoints.symm ▸ h, by rw [hpoints]⟩

/-- The single code points of a text are texts that can be read. -/
theorem IsJoined.of_mem_singles {t u : WireText} (h : t.IsJoined) (hu : u ∈ t.singles) :
    u.IsJoined := by
  obtain ⟨n, hn, rfl⟩ := List.mem_map.mp hu
  exact isJoined_ofPoints (Text.areJoined_singleton (h.areJoined.forall_lt n hn))

end WireText

end AgentClient
