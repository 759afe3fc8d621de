import AgentClient.Proofs.Json.Scalars
import AgentClient.Proofs.Json.Writing
import AgentClient.Proofs.Text.Joined
import Mathlib.Data.List.Forall2

/-!
# Proofs/Json/RoundTrip — a document that is written reads back

A value that a document may hold is read back from what is written of it, on one line or on many
(`read_written`): a reader has to take its texts, and its floating-point numbers have to be the
nearest to what is written of them (`Value.IsRestored`).  The induction is over the value; it
carries whatever follows in the text, which a number must be told apart from (`ReadsBack`).  Texts,
whole numbers and arrays are read alike whoever has written them (`StandsFor`), and however the
parts are set apart (`Layout`). -/

namespace AgentClient

open Number

/-! ## What stands in a value

The leaves are what has to come back by itself: the texts, keys among them, and the numbers. A text
that is no string comes back only to a reader that takes one, and a floating-point number only if
the nearest one to its shortest text is itself; everything else is plain. -/

namespace Value

mutual

/-- What stands in a value besides sequences and tables, the keys of its tables included. -/
def leaves : Value → List Value
  | .list items | .tuple items => itemLeaves items
  | .table entries => entryLeaves entries
  | v => [v]

/-- What stands in some values. -/
def itemLeaves : List Value → List Value
  | [] => []
  | v :: vs => v.leaves ++ itemLeaves vs

/-- What stands in some entries. -/
def entryLeaves : List (Value × Value) → List Value
  | [] => []
  | (key, v) :: rest => key :: (v.leaves ++ entryLeaves rest)

end

theorem mem_itemLeaves {items : List Value} {v leaf : Value} (hv : v ∈ items)
    (h : leaf ∈ v.leaves) : leaf ∈ itemLeaves items := by
  induction hv with
  | head vs => exact List.mem_append_left _ h
  | tail w _ ih => exact List.mem_append_right _ ih

theorem mem_entryLeaves {entries : List (Value × Value)} {e : Value × Value} {leaf : Value}
    (he : e ∈ entries) (h : leaf = e.1 ∨ leaf ∈ e.2.leaves) : leaf ∈ entryLeaves entries := by
  induction he with
  | head es =>
    rcases h with rfl | h
    · exact List.mem_cons_self
    · exact List.mem_cons_of_mem _ (List.mem_append_left _ h)
  | tail e' _ ih => exact List.mem_cons_of_mem _ (List.mem_append_right _ ih)

/-- Whether a text or number comes back as it is: the reader has to take the text, and the number to
be the nearest to what is written of it. -/
def IsRestored (d : Json.Dialect) : Value → Prop
  | .broken _ => d.loneSurrogates = true
  | .float x => x.isFinite = true → readFloat? x.shortText = some x
  | _ => True

/-- A text that is restored can be read by the dialect. -/
theorem IsRestored.takes {d : Json.Dialect} {t : WireText} (h : t.toValue.IsRestored d) :
    d.Takes t := by
  cases t with
  | plain s => trivial
  | broken points => exact h

mutual

/-- Whether a value holds no floating-point number and no text that is no string. -/
def isPlain : Value → Bool
  | .float _ | .broken _ => false
  | .list items | .tuple items => allPlain items
  | .table entries => entriesPlain entries
  | _ => true

/-- Whether all of some values are plain. -/
def allPlain : List Value → Bool
  | [] => true
  | v :: vs => v.isPlain && allPlain vs

/-- Whether all of some entries are, keys and values. -/
def entriesPlain : List (Value × Value) → Bool
  | [] => true
  | (key, v) :: rest => key.isPlain && v.isPlain && entriesPlain rest

end

/-- A plain value is neither a floating-point number nor a broken text, and those are the only
values that may not be restored. -/
theorem isRestored_of_isPlain {v : Value} (h : v.isPlain = true) (d : Json.Dialect) :
    v.IsRestored d := by
  cases v with
  | float | broken => exact absurd h Bool.false_ne_true
  | _ => trivial

mutual

/-- What stands in a plain value comes back, whoever reads it. -/
theorem isRestored_of_mem_leaves (d : Json.Dialect) :
    ∀ v : Value, v.isPlain = true → ∀ leaf ∈ v.leaves, leaf.IsRestored d
  | .list items | .tuple items => fun h => isRestored_of_mem_itemLeaves d items h
  | .table entries => fun h => isRestored_of_mem_entryLeaves d entries h
  | .null | .bool _ | .int _ | .str _ | .model _ | .foreign _ =>
    fun h => List.forall_mem_singleton.mpr (isRestored_of_isPlain h d)
  | .float _ | .broken _ => fun h => absurd h Bool.false_ne_true

theorem isRestored_of_mem_itemLeaves (d : Json.Dialect) :
    ∀ vs : List Value, allPlain vs = true → ∀ leaf ∈ itemLeaves vs, leaf.IsRestored d
  | [] => fun _ => nofun
  | v :: vs => fun h => by
    rw [allPlain, Bool.and_eq_true] at h
    exact List.forall_mem_append.mpr
      ⟨isRestored_of_mem_leaves d v h.1, isRestored_of_mem_itemLeaves d vs h.2⟩

theorem isRestored_of_mem_entryLeaves (d : Json.Dialect) :
    ∀ es : List (Value × Value), entriesPlain es = true →
      ∀ leaf ∈ entryLeaves es, leaf.IsRestored d
  | [] => fun _ => nofun
  | (key, v) :: es => fun h => by
    rw [entriesPlain, Bool.and_eq_true, Bool.and_eq_true] at h
    exact List.forall_mem_cons.mpr ⟨isRestored_of_isPlain h.1.1 d, List.forall_mem_append.mpr
      ⟨isRestored_of_mem_leaves d v h.1.2, isRestored_of_mem_entryLeaves d es h.2⟩⟩

end

end Value

namespace Json

/-! ## Gaps

A layout says what the writer puts between brackets, on one line or on many. The readers skip gaps,
so they need to know only that these are gaps. -/

/-- Characters that may stand between the parts of a document. -/
def AreGaps (cs : List Char) : Prop :=
  ∀ c ∈ cs, isGap c = true

theorem areGaps_nil : AreGaps [] :=
  nofun

namespace AreGaps

variable {gap : List Char}

/-- A gap is skipped up to what is none. -/
theorem skipGap_append (h : AreGaps gap) {c : Char} (hc : isGap c = false) (rest : List Char) :
    skipGap (gap ++ c :: rest) = c :: rest := by
  rw [skipGap, List.dropWhile_append_of_pos h, List.dropWhile_cons_of_neg (by simp [hc])]

theorem skipGap_eq_nil (h : AreGaps gap) : skipGap gap = [] :=
  List.dropWhile_eq_nil_iff.mpr h

/-- A number ends before a gap. -/
theorem endsNumber_append (h : AreGaps gap) {rest : List Char} (hrest : EndsNumber rest) :
    EndsNumber (gap ++ rest) := by
  cases gap with
  | nil => exact hrest
  | cons c gap =>
    intro c' hc'
    obtain rfl := Option.some.inj hc'
    have hgap := h c List.mem_cons_self
    rw [isGap, Bool.or_eq_true, Bool.or_eq_true, Bool.or_eq_true, decide_eq_true_eq,
      decide_eq_true_eq, decide_eq_true_eq, decide_eq_true_eq] at hgap
    rcases hgap with ((rfl | rfl) | rfl) | rfl <;> decide

theorem endsNumber (h : AreGaps gap) : EndsNumber gap := by
  have hends : EndsNumber (gap ++ []) := h.endsNumber_append nofun
  rwa [List.append_nil] at hends

end AreGaps

/-- **How parts stand between brackets**: with gaps at both ends, and a comma and a gap between two.
-/
structure Layout where
  /-- The gap before the first part. -/
  first : List Char
  /-- What stands between two parts. -/
  sep : String
  /-- The gap behind a comma. -/
  next : List Char
  /-- The gap behind the last part. -/
  last : List Char
  toList_sep : sep.toList = ',' :: next
  areGaps_first : AreGaps first
  areGaps_next : AreGaps next
  areGaps_last : AreGaps last

namespace Layout

/-- The parts, with what stands behind them. -/
def chars (l : Layout) (parts : List String) (rest : List Char) : List Char :=
  l.first ++ ((Text.join l.sep parts).toList ++ (l.last ++ rest))

/-- Parts on one line. -/
def plain : Layout where
  first := []
  sep := ", "
  next := [' ']
  last := []
  toList_sep := rfl
  areGaps_first := areGaps_nil
  areGaps_next := List.forall_mem_singleton.mpr rfl
  areGaps_last := areGaps_nil

/-- There are at most as many parts as their text has characters, and one more. -/
theorem length_le (l : Layout) (parts : List String) :
    parts.length ≤ (Text.join l.sep parts).toList.length + 1 := by
  refine Text.length_le_join ?_ parts
  rw [l.toList_sep]
  exact Nat.succ_pos _

variable (l : Layout)

theorem following_eq {parts : List String} (h : parts ≠ []) (rest : List Char) :
    Text.following l.sep parts rest
      = ',' :: (l.next ++ ((Text.join l.sep parts).toList ++ rest)) := by
  rw [Text.following, if_neg h, l.toList_sep]
  rfl

/-- A number ends before the next part, and before the mark that closes the parts. -/
theorem endsNumber_following {close : Char} (hclose : close = ']' ∨ close = '\x7d')
    (parts : List String) (rest : List Char) :
    EndsNumber (Text.following l.sep parts (l.last ++ close :: rest)) := by
  by_cases h : parts = []
  · rw [Text.following, if_pos h]
    refine l.areGaps_last.endsNumber_append fun c hc => ?_
    obtain rfl := Option.some.inj hc
    rcases hclose with rfl | rfl <;> decide
  · rw [l.following_eq h]
    exact fun c hc => Option.some.inj hc ▸ by decide

end Layout

/-- The edge of a level is made of gaps, on one line as on many. -/
theorem areGaps_edge (s : Spacing) (level : Nat) : AreGaps (s.edge level).toList := by
  cases s with
  | oneLine => exact areGaps_nil
  | indented width =>
    have hblanks : AreGaps (List.replicate (width * level) ' ') := fun c hc => by
      rw [List.eq_of_mem_replicate hc]
      rfl
    rw [Spacing.edge, String.toList_append, String.toList_ofList, String.toList_ofList]
    exact List.forall_mem_cons.mpr ⟨rfl, hblanks⟩

/-- The layout of the parts of a document. -/
def Spacing.layout (s : Spacing) (level : Nat) : Layout where
  first := (s.edge (level + 1)).toList
  sep := s.between (level + 1)
  next := match s with
    | .oneLine => [' ']
    | .indented _ => (s.edge (level + 1)).toList
  last := (s.edge level).toList
  toList_sep := by
    cases s with
    | oneLine => exact Layout.plain.toList_sep
    | indented width =>
      rw [between, String.toList_append]
      rfl
  areGaps_first := areGaps_edge s (level + 1)
  areGaps_next := by
    cases s with
    | oneLine => exact Layout.plain.areGaps_next
    | indented width => exact areGaps_edge (.indented width) (level + 1)
  areGaps_last := areGaps_edge s level

/-- Brackets enclose their parts in some layout. -/
theorem exists_toList_enclose (s : Spacing) (level : Nat) (left right : String)
    (parts : List String) :
    ∃ l : Layout, (s.enclose level left right parts).toList
      = left.toList ++ l.chars parts right.toList := by
  rw [Spacing.enclose]
  split
  · next h =>
    refine ⟨.plain, ?_⟩
    rw [List.isEmpty_iff.mp h, String.toList_append]
    rfl
  · refine ⟨s.layout level, ?_⟩
    simp only [String.toList_append, Layout.chars, Spacing.layout, List.append_assoc]

/-! ## How what is written begins

A reader looks at the first character to tell apart a value, the end of an array and a byte order
mark. What is written of a value never begins with a gap or with a mark that closes, whatever the
value is. -/

/-- A text that begins like a value: with no gap, no mark that closes a sequence and no byte order
mark. -/
def BeginsValue (cs : List Char) : Prop :=
  ∃ c rest, cs = c :: rest ∧ isGap c = false ∧ c ≠ ']' ∧ c ≠ Char.ofNat 0xFEFF

namespace BeginsValue

variable {cs : List Char}

theorem append (h : BeginsValue cs) (more : List Char) : BeginsValue (cs ++ more) := by
  obtain ⟨c, rest, rfl, hc⟩ := h
  exact ⟨c, rest ++ more, rfl, hc⟩

theorem skipGap_append (h : BeginsValue cs) {gap : List Char} (hgap : AreGaps gap) :
    skipGap (gap ++ cs) = cs := by
  obtain ⟨c, rest, rfl, hc, -⟩ := h
  exact hgap.skipGap_append hc rest

theorem skipGap_eq (h : BeginsValue cs) : skipGap cs = cs :=
  h.skipGap_append areGaps_nil

theorem ne_close (h : BeginsValue cs) (rest : List Char) : cs ≠ ']' :: rest := by
  obtain ⟨c, more, rfl, -, hc, -⟩ := h
  exact fun hcons => hc (List.cons.inj hcons).1

theorem head?_ne (h : BeginsValue cs) : cs.head? ≠ some (Char.ofNat 0xFEFF) := by
  obtain ⟨c, more, rfl, -, -, hc⟩ := h
  exact fun hhead => hc (Option.some.inj hhead)

end BeginsValue

theorem beginsValue_mark (cs : List Char) : BeginsValue ('"' :: cs) :=
  ⟨'"', cs, rfl, by decide, by decide, by decide⟩

/-! ### Numbers

A number begins with a digit or a sign and a digit, and none of the words does. -/

/-- A text that begins like a number: with a digit, or with a sign and a digit. -/
def BeginsNumber (cs : List Char) : Prop :=
  ∃ c rest, c.isDigit = true ∧ (cs = c :: rest ∨ cs = '-' :: c :: rest)

theorem ne_of_isDigit {c d : Char} (hc : c.isDigit = true) (hd : d.isDigit = false) : c ≠ d := by
  rintro rfl
  exact absurd (hd.symm.trans hc) Bool.false_ne_true

namespace BeginsNumber

variable {cs : List Char}

theorem append (h : BeginsNumber cs) (more : List Char) : BeginsNumber (cs ++ more) := by
  obtain ⟨c, rest, hc, rfl | rfl⟩ := h
  · exact ⟨c, rest ++ more, hc, .inl rfl⟩
  · exact ⟨c, rest ++ more, hc, .inr rfl⟩

/-- A number begins as a value does: with no gap and no mark that closes. -/
theorem beginsValue (h : BeginsNumber cs) : BeginsValue cs := by
  obtain ⟨c, rest, hc, rfl | rfl⟩ := h
  · have hgap : isGap c = false := by
      simp [isGap, ne_of_isDigit hc (d := ' '), ne_of_isDigit hc (d := '\t'),
        ne_of_isDigit hc (d := '\n'), ne_of_isDigit hc (d := '\r')]
    exact ⟨c, rest, rfl, hgap, ne_of_isDigit hc (by decide), ne_of_isDigit hc (by decide)⟩
  · exact ⟨'-', _, rfl, by decide, by decide, by decide⟩

/-- No word is the beginning of a number. -/
theorem readWord_eq (h : BeginsNumber cs) : readWord cs = readNumber cs := by
  -- No word begins with a digit, and the one that begins with a sign goes on with a letter.
  have hfirst : ∀ p ∈ wordValues, ∃ w ws, p.1 = w :: ws ∧ w.isDigit = false ∧
      (w = '-' → ∃ w' ws', ws = w' :: ws' ∧ w'.isDigit = false) := by
    have hletter : ∀ {w : Char} {ws : List Char}, w ≠ '-' → w.isDigit = false →
        ∃ w' ws', w :: ws = w' :: ws' ∧ w'.isDigit = false ∧
          (w' = '-' → ∃ w'' ws'', ws' = w'' :: ws'' ∧ w''.isDigit = false) :=
      fun hne hw => ⟨_, _, rfl, hw, fun h => absurd h hne⟩
    simp only [wordValues, List.forall_mem_cons]
    exact ⟨hletter (by decide) rfl, hletter (by decide) rfl, hletter (by decide) rfl,
      hletter (by decide) rfl, hletter (by decide) rfl,
      ⟨'-', _, rfl, rfl, fun _ => ⟨'I', _, rfl, rfl⟩⟩, fun _ h => absurd h List.not_mem_nil⟩
  have hnone : wordValues.find? (fun p => p.1.isPrefixOf cs) = none := by
    refine List.find?_eq_none.mpr fun p hp => ?_
    obtain ⟨w, ws, hword, hw, hminus⟩ := hfirst p hp
    obtain ⟨c, rest, hc, rfl | rfl⟩ := h
    · rw [hword]
      simp [List.isPrefixOf, (ne_of_isDigit hc hw).symm]
    · rw [hword]
      by_cases hsign : w = '-'
      · obtain ⟨w', ws', rfl, hw'⟩ := hminus hsign
        simp [List.isPrefixOf, (ne_of_isDigit hc hw').symm]
      · simp [List.isPrefixOf, hsign]
  rw [readWord, hnone]

/-- **What begins like a number** is read as one. -/
theorem readValueWith_eq (h : BeginsNumber cs) (d : Dialect) (inner? : Option ValueReader) :
    readValueWith d inner? cs = readNumber cs := by
  rw [← h.readWord_eq]
  obtain ⟨c, rest, hc, rfl | rfl⟩ := h
  · exact readValueWith_eq_readWord d inner? (ne_of_isDigit hc rfl) (ne_of_isDigit hc rfl)
      (ne_of_isDigit hc rfl) _
  · exact readValueWith_eq_readWord d inner? (by decide) (by decide) (by decide) _

end BeginsNumber

theorem exists_cons_of_areDigits {ds : List Char} (h : AreDigits ds) (hne : ds ≠ []) :
    ∃ c cs, c.isDigit = true ∧ ds = c :: cs := by
  obtain ⟨c, cs, rfl⟩ := List.exists_cons_of_ne_nil hne
  exact ⟨c, cs, h c List.mem_cons_self, rfl⟩

/-- A whole number begins with a digit or with a minus and a digit. -/
theorem beginsNumber_intText (n : Int) : BeginsNumber (intText n).toList := by
  cases n with
  | ofNat m =>
    obtain ⟨c, cs, hc, hcs⟩ := exists_cons_of_areDigits (areDigits_digits m) (digits_ne_nil m)
    rw [intText, String.toList_ofList, hcs]
    exact ⟨c, cs, hc, .inl rfl⟩
  | negSucc m =>
    obtain ⟨c, cs, hc, hcs⟩ :=
      exists_cons_of_areDigits (areDigits_digits (m + 1)) (digits_ne_nil (m + 1))
    rw [intText, String.toList_ofList, hcs]
    exact ⟨c, cs, hc, .inr rfl⟩

/-- So does a floating-point number that is finite. -/
theorem beginsNumber_shortText {x : Binary64} (hx : x.isFinite = true) :
    BeginsNumber x.shortText.toList := by
  obtain ⟨negative, body, htext, hbody⟩ := exists_shortText hx
  cases hbody with
  | @mk whole part exponent hw =>
    obtain ⟨c, cs, hc, rfl⟩ := exists_cons_of_areDigits hw.areDigits hw.ne_nil
    rw [htext]
    cases negative with
    | true => exact ⟨c, _, hc, .inr rfl⟩
    | false => exact ⟨c, _, hc, .inl rfl⟩

/-! ### Values

What is written of a value of any form begins in one of the ways above: a word or a bracket with a
fixed character, a number with a digit or a sign, a text with its mark. -/

/-- A whole number is written if it has not too many digits, and always in the same way. -/
theorem eq_intText_of_writeAt {s : Spacing} {level : Nat} {text : String} {n : Int}
    (h : writeAt s level (.int n) = .ok text) : isOverlong n = false ∧ text = intText n := by
  revert h
  rw [writeAt, intDocument]
  cases isOverlong n with
  | true => rintro ⟨⟩
  | false =>
    rintro ⟨⟩
    exact ⟨rfl, rfl⟩

theorem floatText_of_isFinite {x : Binary64} (hx : x.isFinite = true) :
    floatText x = x.shortText := by
  cases x with
  | finite negative m e => rfl
  | infinite | nan => exact absurd hx Bool.false_ne_true

/-- **What is written of a value** begins like one. -/
theorem beginsValue_of_writeAt {s : Spacing} {level : Nat} {text : String} {v : Value}
    (h : writeAt s level v = .ok text) : BeginsValue text.toList := by
  -- The first character of a document tells its type, and none of the marks is among those that
  -- close.
  cases v with
  | null => exact Except.ok.inj h ▸ ⟨'n', _, rfl, by decide, by decide, by decide⟩
  | bool b => cases b <;> exact Except.ok.inj h ▸ ⟨_, _, rfl, by decide, by decide, by decide⟩
  | int n =>
    obtain ⟨-, rfl⟩ := eq_intText_of_writeAt h
    exact (beginsNumber_intText n).beginsValue
  | float x =>
    obtain rfl := Except.ok.inj h
    cases x with
    | nan => exact ⟨'N', _, rfl, by decide, by decide, by decide⟩
    | infinite negative =>
      cases negative <;> exact ⟨_, _, rfl, by decide, by decide, by decide⟩
    | finite negative m e => exact (beginsNumber_shortText rfl).beginsValue
  | str t =>
    obtain rfl := Except.ok.inj h
    rw [toList_asciiText]
    exact beginsValue_mark _
  | broken points =>
    obtain rfl := Except.ok.inj h
    rw [toList_asciiText]
    exact beginsValue_mark _
  | list items | tuple items =>
    obtain ⟨parts, -, rfl⟩ := exists_of_writeAt_list h
    obtain ⟨l, hl⟩ := exists_toList_enclose s level "[" "]" parts
    rw [hl]
    exact ⟨'[', _, rfl, by decide, by decide, by decide⟩
  | table entries =>
    obtain ⟨parts, -, rfl⟩ := exists_of_writeAt_table h
    obtain ⟨l, hl⟩ := exists_toList_enclose s level "\x7b" "\x7d" parts
    rw [hl]
    exact ⟨'\x7b', _, rfl, by decide, by decide, by decide⟩
  | model | foreign => exact absurd h nofun

/-! ## Parts

The induction over the value will give that each part reads back, followed by anything that ends a
number. In a list of parts what follows a part is a comma and the next part, or the gap and the mark
at the end, and both end a number. -/

/-- A text that begins like a value and is read as one, whatever follows it. -/
structure StandsFor (inner : ValueReader) (text : String) (v : Value) : Prop where
  begins : BeginsValue text.toList
  reads : ∀ rest, EndsNumber rest → inner (text.toList ++ rest) = .ok (v, rest)

/-- A value that is read back from what is written of it. -/
def ReadsBack (inner : ValueReader) (v : Value) : Prop :=
  ∀ ⦃s : Spacing⦄ ⦃level : Nat⦄ ⦃text : String⦄, writeAt s level v = .ok text →
    ∀ rest, EndsNumber rest → inner (text.toList ++ rest) = .ok (v, rest)

theorem ReadsBack.standsFor {inner : ValueReader} {v : Value} (h : ReadsBack inner v) {s : Spacing}
    {level : Nat} {text : String} (htext : writeAt s level v = .ok text) : StandsFor inner text v :=
  ⟨beginsValue_of_writeAt htext, h htext⟩

section

variable {d : Dialect} {inner : ValueReader} {v : Value} {cs rest more gap : List Char}
  {s : Spacing} {level n : Nat}

/-! ### Elements

By induction on the texts, next to the values they stand for. There is fuel enough for them, since a
text of several parts is at least as long as their number. -/

/-- The last element of an array. -/
theorem readElements_last (hgap : AreGaps gap) (h : inner cs = .ok (v, gap ++ ']' :: rest))
    (n : Nat) :
    readElements inner (n + 1) cs = .ok ([v], rest) := by
  rw [readElements, h]
  dsimp only [bind, Except.bind]
  rw [hgap.skipGap_append (by decide)]
  rfl

/-- An element before others. -/
theorem readElements_next (hgap : AreGaps gap) (h : inner cs = .ok (v, ',' :: (gap ++ more)))
    (hb : BeginsValue more) (n : Nat) :
    readElements inner (n + 1) cs
      = (readElements inner n more).map fun (vs, rest) => (v :: vs, rest) := by
  rw [readElements, h]
  show (readElements inner n (skipGap (gap ++ more)) >>= _) = _
  rw [hb.skipGap_append hgap]
  rfl

/-- Elements begin like a value. -/
theorem beginsValue_join {t : String} (h : StandsFor inner t v) (sep : String) (ts : List String)
    (tail : List Char) : BeginsValue ((Text.join sep (t :: ts)).toList ++ tail) := by
  rw [Text.toList_join_cons]
  exact h.begins.append _

/-- **Elements are read** if each of them is. -/
theorem readElements_join (l : Layout) {t : String} {ts : List String} {vs : List Value}
    (h : List.Forall₂ (StandsFor inner) (t :: ts) vs) (hn : (t :: ts).length ≤ n)
    (rest : List Char) :
    readElements inner n ((Text.join l.sep (t :: ts)).toList ++ (l.last ++ ']' :: rest))
      = .ok (vs, rest) := by
  -- Along the texts, the first of them apart: the last element stands before the bracket, every
  -- other one before a comma.
  induction ts generalizing t vs n with
  | nil =>
    obtain ⟨v, vs, ht, hts, rfl⟩ := List.forall₂_cons_left_iff.mp h
    obtain rfl := List.forall₂_nil_left_iff.mp hts
    obtain ⟨n, rfl⟩ : ∃ k, n = k + 1 := ⟨n - 1, (Nat.sub_add_cancel hn).symm⟩
    rw [Text.toList_join_cons]
    exact readElements_last l.areGaps_last
      (ht.reads _ (l.endsNumber_following (.inl rfl) [] rest)) n
  | cons t' ts ih =>
    obtain ⟨v, vs, ht, hts, rfl⟩ := List.forall₂_cons_left_iff.mp h
    obtain ⟨v', vs', ht', -, rfl⟩ := List.forall₂_cons_left_iff.mp hts
    rw [List.length_cons] at hn
    obtain ⟨n, rfl⟩ : ∃ k, n = k + 1 := ⟨n - 1, by omega⟩
    have hfirst := ht.reads _ (l.endsNumber_following (.inl rfl) (t' :: ts) rest)
    rw [Text.toList_join_cons]
    rw [l.following_eq (List.cons_ne_nil t' ts)] at hfirst ⊢
    rw [readElements_next l.areGaps_next hfirst (beginsValue_join ht' l.sep ts _),
      ih hts (Nat.le_of_succ_le_succ hn)]
    rfl

/-- An array is read if its elements are. -/
theorem readArray_chars (l : Layout) {texts : List String} {vs : List Value}
    (h : List.Forall₂ (StandsFor inner) texts vs) (rest : List Char) :
    readArray inner (l.chars texts (']' :: rest)) = .ok (vs, rest) := by
  rw [Layout.chars, readArray.eq_def]
  -- An empty array is a gap. Any other begins with a value, which is no bracket that closes.
  cases texts with
  | nil =>
    obtain rfl := List.forall₂_nil_left_iff.mp h
    have hgaps : AreGaps (l.first ++ l.last) :=
      List.forall_mem_append.mpr ⟨l.areGaps_first, l.areGaps_last⟩
    have hskip := hgaps.skipGap_append (c := ']') (by decide) rest
    rw [List.append_assoc] at hskip
    rw [Text.join, String.toList_empty, List.nil_append, hskip]
    rfl
  | cons t ts =>
    obtain ⟨v, vs, ht, -, rfl⟩ := List.forall₂_cons_left_iff.mp h
    have hb := beginsValue_join ht l.sep ts (l.last ++ ']' :: rest)
    have hlen := l.length_le (t :: ts)
    rw [hb.skipGap_append l.areGaps_first]
    split
    · next hclose => exact absurd hclose (hb.ne_close _)
    · refine readElements_join l h ?_ rest
      rw [List.length_append]
      omega

/-- Elements that are written stand for themselves. -/
theorem standsFor_items {vs : List Value} {texts : List String}
    (hback : ∀ x ∈ vs, ReadsBack inner x) (h : writeItems s level vs = .ok texts) :
    List.Forall₂ (StandsFor inner) texts vs := by
  induction vs generalizing texts with
  | nil =>
    obtain rfl := Except.ok.inj h
    exact .nil
  | cons v vs ih =>
    rw [List.forall_mem_cons] at hback
    obtain ⟨t, ts, ht, hts, rfl⟩ := exists_of_writeItems_cons h
    exact .cons (hback.1.standsFor ht) (ih hback.2 hts)

/-! ### Members

A member is a name, a colon and a value. Beginning with a mark takes the place of beginning like a
value, and the names have to be different for the table to come back as it was. -/

/-- The name of a member that is written is read with the colon and the blank behind it. -/
theorem readName_asciiText {name : WireText} (hname : name.IsJoined) (htakes : d.Takes name)
    (hb : BeginsValue more) :
    readName d ((asciiText name).toList ++ ':' :: ' ' :: more) = .ok (name, more) := by
  rw [toList_asciiText, List.cons_append, List.append_assoc, List.singleton_append, readName,
    readText_asciiText _ hname htakes]
  show Except.ok (name, skipGap (Layout.plain.next ++ more)) = _
  rw [hb.skipGap_append Layout.plain.areGaps_next]

/-- The last member of an object. -/
theorem readMembers_last {name : WireText} (hname : readName d cs = .ok (name, more))
    (hgap : AreGaps gap) (h : inner more = .ok (v, gap ++ '\x7d' :: rest)) (n : Nat) :
    readMembers d inner (n + 1) cs = .ok ([(name.toValue, v)], rest) := by
  rw [readMembers, hname]
  dsimp only [bind, Except.bind]
  rw [h]
  dsimp only
  rw [hgap.skipGap_append (by decide)]
  rfl

/-- A member before others. -/
theorem readMembers_next {name : WireText} {next : List Char}
    (hname : readName d cs = .ok (name, more)) (hgap : AreGaps gap)
    (h : inner more = .ok (v, ',' :: (gap ++ next))) (hb : BeginsValue next) (n : Nat) :
    readMembers d inner (n + 1) cs
      = (readMembers d inner n next).map fun (ms, rest) => ((name.toValue, v) :: ms, rest) := by
  rw [readMembers, hname]
  show (inner more >>= _) = _
  rw [h]
  show (readMembers d inner n (skipGap (gap ++ next)) >>= _) = _
  rw [hb.skipGap_append hgap]
  rfl

/-- The text of a member: its name, the colon and its value. -/
theorem toList_join_member (sep : String) (name : WireText) (t : String) (ts : List String)
    (tail : List Char) :
    (Text.join sep ((asciiText name ++ ": " ++ t) :: ts)).toList ++ tail
      = (asciiText name).toList ++ ':' :: ' ' :: (t.toList ++ Text.following sep ts tail) := by
  rw [Text.toList_join_cons, String.toList_append, String.toList_append, List.append_assoc,
    List.append_assoc]
  rfl

/-- A member whose name the reader takes and whose value is read back. -/
structure MemberReadsBack (d : Dialect) (inner : ValueReader) (e : Value × Value) : Prop where
  exists_name : ∃ name : WireText, name.IsJoined ∧ d.Takes name ∧ e.1 = name.toValue
  readsBack : ReadsBack inner e.2

/-- The text of the first member of an object: its name, a colon, and the text of its value. -/
theorem MemberReadsBack.exists_of_writeEntries {e : Value × Value} {entries : Table}
    {texts : List String} (he : MemberReadsBack d inner e)
    (h : writeEntries s level (e :: entries) = .ok texts) :
    ∃ (name : WireText) (t : String) (ts : List String), e.1 = name.toValue ∧
      StandsFor inner t e.2 ∧
      (∀ more, BeginsValue more →
        readName d ((asciiText name).toList ++ ':' :: ' ' :: more) = .ok (name, more)) ∧
      writeEntries s level entries = .ok ts ∧ texts = (asciiText name ++ ": " ++ t) :: ts := by
  obtain ⟨key, v⟩ := e
  obtain ⟨name, hjoined, htakes, hkey⟩ := he.exists_name
  obtain rfl : key = name.toValue := hkey
  obtain ⟨k, t, ts, hk, ht, hts, rfl⟩ := exists_of_writeEntries_cons h
  rw [keyText_toValue] at hk
  obtain rfl := Except.ok.inj hk
  exact ⟨name, t, ts, rfl, he.readsBack.standsFor ht,
    fun more hb => readName_asciiText hjoined htakes hb, hts, rfl⟩

/-- Members that are written begin with a mark. -/
theorem MemberReadsBack.exists_mark {e : Value × Value} {entries : Table} {texts : List String}
    (he : MemberReadsBack d inner e) (h : writeEntries s level (e :: entries) = .ok texts)
    (sep : String) (tail : List Char) : ∃ cs, (Text.join sep texts).toList ++ tail = '"' :: cs := by
  obtain ⟨name, t, ts, -, -, -, -, rfl⟩ := he.exists_of_writeEntries h
  rw [toList_join_member, toList_asciiText]
  exact ⟨_, rfl⟩

/-- **Members read back** if each of them does. -/
theorem readMembers_join (l : Layout) {e : Value × Value} {entries : Table} {texts : List String}
    (hback : ∀ x ∈ e :: entries, MemberReadsBack d inner x)
    (h : writeEntries s level (e :: entries) = .ok texts) (hn : texts.length ≤ n)
    (rest : List Char) :
    readMembers d inner n ((Text.join l.sep texts).toList ++ (l.last ++ '\x7d' :: rest))
      = .ok (e :: entries, rest) := by
  -- As for the elements of an array, with the name and the colon in front of each value.
  induction entries generalizing e texts n with
  | nil =>
    rw [List.forall_mem_singleton] at hback
    obtain ⟨name, t, ts, hkey, ht, hname, hts, rfl⟩ := hback.exists_of_writeEntries h
    obtain rfl := Except.ok.inj hts
    obtain ⟨n, rfl⟩ : ∃ k, n = k + 1 := ⟨n - 1, (Nat.sub_add_cancel hn).symm⟩
    have hvalue := ht.reads _ (l.endsNumber_following (.inr rfl) [] rest)
    have he : (name.toValue, e.2) = e := Prod.ext hkey.symm rfl
    rw [toList_join_member,
      readMembers_last (hname _ (ht.begins.append _)) l.areGaps_last hvalue]
    exact congrArg (fun e => Except.ok ([e], rest)) he
  | cons e' entries ih =>
    rw [List.forall_mem_cons] at hback
    obtain ⟨name, t, ts, hkey, ht, hname, hts, rfl⟩ := hback.1.exists_of_writeEntries h
    rw [List.length_cons] at hn
    obtain ⟨n, rfl⟩ : ∃ k, n = k + 1 := ⟨n - 1, by omega⟩
    have hnext := hback.2 e' List.mem_cons_self
    have hne : ts ≠ [] := by
      obtain ⟨_, _, ts', -, -, -, -, rfl⟩ := hnext.exists_of_writeEntries hts
      exact List.cons_ne_nil _ ts'
    have hvalue := ht.reads _ (l.endsNumber_following (.inr rfl) ts rest)
    -- Behind the comma stands the next name, so the gap before it ends there.
    have hmark : BeginsValue ((Text.join l.sep ts).toList ++ (l.last ++ '\x7d' :: rest)) := by
      obtain ⟨cs, hcs⟩ := hnext.exists_mark hts l.sep (l.last ++ '\x7d' :: rest)
      exact hcs ▸ beginsValue_mark cs
    have he : (name.toValue, e.2) = e := Prod.ext hkey.symm rfl
    rw [toList_join_member]
    rw [l.following_eq hne] at hvalue ⊢
    rw [readMembers_next (hname _ (ht.begins.append _)) l.areGaps_next hvalue hmark,
      ih hback.2 hts (Nat.le_of_succ_le_succ hn)]
    exact congrArg (fun x => Except.ok (x :: e' :: entries, rest)) he

/-- An object reads back if its members do, each name once. -/
theorem readObject_chars (l : Layout) {entries : Table} {texts : List String}
    (hback : ∀ x ∈ entries, MemberReadsBack d inner x) (hkeys : entries.HasTextKeys)
    (hnodup : entries.keys.Nodup) (h : writeEntries s level entries = .ok texts)
    (rest : List Char) :
    readObject d inner (l.chars texts ('\x7d' :: rest)) = .ok (entries, rest) := by
  rw [Layout.chars, readObject.eq_def]
  cases entries with
  | nil =>
    obtain rfl := Except.ok.inj h
    have hgaps : AreGaps (l.first ++ l.last) :=
      List.forall_mem_append.mpr ⟨l.areGaps_first, l.areGaps_last⟩
    have hskip := hgaps.skipGap_append (c := '\x7d') (by decide) rest
    rw [List.append_assoc] at hskip
    rw [Text.join, String.toList_empty, List.nil_append, hskip]
    rfl
  | cons e entries =>
    obtain ⟨cs, hcs⟩ :=
      (hback e List.mem_cons_self).exists_mark h l.sep (l.last ++ '\x7d' :: rest)
    have hlen := l.length_le texts
    -- The fuel is the length of the text, which has a character for each member at least.
    have hfuel : texts.length
        ≤ ((Text.join l.sep texts).toList ++ (l.last ++ '\x7d' :: rest)).length + 1 := by
      rw [List.length_append]
      omega
    have hread := readMembers_join l hback h hfuel rest
    rw [hcs] at hread
    rw [hcs, (beginsValue_mark cs).skipGap_append l.areGaps_first]
    show (readMembers d inner _ ('"' :: cs) >>= _) = _
    rw [hread]
    show Except.ok (Table.ofPairs (e :: entries), rest) = _
    rw [Table.ofPairs_eq_self hkeys hnodup]

end

/-! ## The round trip

The value decides on the reader: what is a leaf is read at any depth, and a list or table by the
reader that has a level more than those of its parts. -/

/-- What stands between brackets is read by the reader of what may be deeper. -/
theorem readsBack_list {d : Dialect} {depth : Nat} {items : List Value}
    (hback : ∀ v ∈ items, ReadsBack (readValue d depth) v) :
    ReadsBack (readValue d (depth + 1)) (.list items) := by
  intro s level text h rest _
  obtain ⟨texts, htexts, rfl⟩ := exists_of_writeAt_list h
  obtain ⟨l, hl⟩ := exists_toList_enclose s level "[" "]" texts
  have hread := readArray_chars l (standsFor_items hback htexts) rest
  rw [hl, List.append_assoc, Layout.chars, List.append_assoc, List.append_assoc, List.append_assoc]
  show (readArray (readValue d depth) (l.chars texts (']' :: rest)) >>= _) = _
  rw [hread]
  rfl

/-- **A table is read back** if its members are. -/
theorem readsBack_table {d : Dialect} {depth : Nat} {entries : Table}
    (hback : ∀ e ∈ entries, MemberReadsBack d (readValue d depth) e) (hkeys : entries.HasTextKeys)
    (hnodup : entries.keys.Nodup) : ReadsBack (readValue d (depth + 1)) (.table entries) := by
  intro s level text h rest _
  obtain ⟨texts, htexts, rfl⟩ := exists_of_writeAt_table h
  obtain ⟨l, hl⟩ := exists_toList_enclose s level "\x7b" "\x7d" texts
  have hread := readObject_chars l hback hkeys hnodup htexts rest
  rw [hl, List.append_assoc, Layout.chars, List.append_assoc, List.append_assoc, List.append_assoc]
  show (readObject d (readValue d depth) (l.chars texts ('\x7d' :: rest)) >>= _) = _
  rw [hread]
  rfl

/-- Scalars are read alike at every depth. -/
theorem readsBack_of_readValueWith {d : Dialect} {v : Value}
    (h : ∀ inner?, ReadsBack (readValueWith d inner?) v) (depth : Nat) :
    ReadsBack (readValue d depth) v := by
  cases depth with
  | zero => exact h none
  | succ depth => exact h (some (readValue d depth))

section

variable {d : Dialect} {inner? : Option ValueReader}

theorem readValueWith_intText {n : Int} (hn : isOverlong n = false) (d : Dialect)
    (inner? : Option ValueReader) {rest : List Char} (hrest : EndsNumber rest) :
    readValueWith d inner? ((intText n).toList ++ rest) = .ok (.int n, rest) := by
  rw [((beginsNumber_intText n).append rest).readValueWith_eq, readNumber_intText hn hrest]

theorem readsBack_int {n : Int} : ReadsBack (readValueWith d inner?) (.int n) := by
  intro s level text h rest hrest
  obtain ⟨hn, rfl⟩ := eq_intText_of_writeAt h
  exact readValueWith_intText hn d inner? hrest

/-- A floating-point number is read back if the dialect restores it; those that are not finite are
words. -/
theorem readsBack_float {x : Binary64} (hx : (Value.float x).IsRestored d) :
    ReadsBack (readValueWith d inner?) (.float x) := by
  intro s level text h rest hrest
  obtain rfl := Except.ok.inj h
  cases x with
  | nan => rfl
  | infinite negative => cases negative <;> rfl
  | finite negative m e =>
    have hfinite : (Binary64.finite negative m e).isFinite = true := rfl
    rw [floatText_of_isFinite hfinite,
      ((beginsNumber_shortText hfinite).append rest).readValueWith_eq,
      readNumber_shortText hfinite (hx hfinite) hrest]

/-- A text is read back if it is joined and the dialect takes it. -/
theorem readsBack_text {t : WireText} (ht : t.IsJoined) (htakes : d.Takes t) :
    ReadsBack (readValueWith d inner?) t.toValue := by
  intro s level text h rest _
  have htext : text = asciiText t := by cases t <;> exact (Except.ok.inj h).symm
  rw [htext, toList_asciiText, List.cons_append, List.append_assoc, List.singleton_append,
    readValueWith, readText_asciiText _ ht htakes]
  rfl

end

/-- **A value that a document may hold reads back**, whatever follows it, if what stands in it does.
-/
theorem readsBack (d : Dialect) {depth : Nat} {v : Value} (h : v.IsDocument depth)
    (hleaves : ∀ leaf ∈ v.leaves, leaf.IsRestored d) : ReadsBack (readValue d depth) v := by
  -- On the document, whose depth is the one that the reader has left. What is in a value has fewer
  -- leaves than the value, so the condition on the leaves goes down with it.
  induction h with
  | null =>
    refine readsBack_of_readValueWith (fun inner? s level text h rest _ => ?_) _
    obtain rfl := Except.ok.inj h
    rfl
  | bool b =>
    refine readsBack_of_readValueWith (fun inner? s level text h rest _ => ?_) _
    cases b <;> (obtain rfl := Except.ok.inj h; rfl)
  | int hn => exact readsBack_of_readValueWith (fun _ => readsBack_int) _
  | float hx =>
    have hrestored := hleaves _ List.mem_cons_self
    exact readsBack_of_readValueWith (fun _ => readsBack_float hrestored) _
  | @text _ t ht =>
    have hrestored : t.toValue.IsRestored d :=
      hleaves _ (by cases t <;> exact List.mem_cons_self)
    exact readsBack_of_readValueWith (fun _ => readsBack_text ht hrestored.takes) _
  | list _ ih =>
    exact readsBack_list fun v hv => ih v hv fun leaf hleaf =>
      hleaves leaf (Value.mem_itemLeaves hv hleaf)
  | table hkeys hnodup _ ih =>
    refine readsBack_table (fun e he => ⟨?_, ?_⟩) hkeys hnodup
    · obtain ⟨key, hjoined, hkey⟩ := hkeys e he
      have hrestored := hleaves e.1 (Value.mem_entryLeaves he (.inl rfl))
      exact ⟨key, hjoined, (hkey ▸ hrestored : key.toValue.IsRestored d).takes, hkey⟩
    · exact ih e he fun leaf hleaf => hleaves leaf (Value.mem_entryLeaves he (.inr hleaf))

section

variable {d : Dialect} {s : Spacing} {v : Value} {text : String}

/-- **What is written of a value reads back as it**, with a gap behind it or without one, if a
document of the reader may hold it and what stands in it comes back. -/
theorem read_written (h : v.IsDocument d.maxDepth) (hleaves : ∀ leaf ∈ v.leaves, leaf.IsRestored d)
    (hwrite : write s v = .ok text) {gap : String} (hgap : AreGaps gap.toList) :
    read d (text ++ gap) = .ok v := by
  have hread := readsBack d h hleaves hwrite gap.toList hgap.endsNumber
  have hb := (beginsValue_of_writeAt hwrite).append gap.toList
  rw [read, readDocument, String.toList_append, if_neg hb.head?_ne, hb.skipGap_eq, hread]
  dsimp only [bind, Except.bind]
  rw [hgap.skipGap_eq_nil]
  rfl

/-- A plain value reads back, whoever reads it. -/
theorem read_of_write (h : v.IsDocument d.maxDepth) (hplain : v.isPlain = true)
    (hwrite : write s v = .ok text) : read d text = .ok v := by
  have hread : read d (text ++ "") = .ok v :=
    read_written h (Value.isRestored_of_mem_leaves d v hplain) hwrite areGaps_nil
  rwa [String.append_empty] at hread

end

end Json

end AgentClient
