import AgentClient.Proofs.Json.Scalars

/-!
# Proofs/Json/TrailingReturn — a carriage return behind a document changes nothing

A carriage return is a gap, so behind a whole document it is skipped.  Behind a part of one it is
not a part of anything either: no word, number, mark or escape contains it.  So every reader does
the same on a text and on the text with a carriage return behind it (`IsSteady`): it reads the same
value, leaving texts that differ in that character again, or both readings fail, perhaps with
different complaints. `outline_read_return` says so of whole documents. -/

namespace AgentClient.Json

open Number

/-! ## Texts that differ in a carriage return at the end

Two texts that are one and the same, or differ in the return, keep doing so when an equal front is
taken off. Readings of them are compared by what they give, up to the words and the place of a
complaint, which may well be different. The bound on the text left is carried along, because the
fuel of the readers of parts depends on the length of the text. -/

/-- A text, and the same text or the one with a carriage return behind it. -/
def Tail (cs cs' : List Char) : Prop :=
  cs' = cs ∨ cs' = cs ++ ['\r']

namespace Tail

variable {cs cs' : List Char} {c : Char}

theorem refl (cs : List Char) : Tail cs cs :=
  .inl rfl

theorem cons (h : Tail cs cs') (c : Char) : Tail (c :: cs) (c :: cs') := by
  rcases h with rfl | rfl
  · exact .inl rfl
  · exact .inr rfl

theorem nil_left (h : Tail [] cs') : cs' = [] ∨ cs' = ['\r'] :=
  h

/-- Both begin alike. -/
theorem cons_left (h : Tail (c :: cs) cs') : ∃ r', cs' = c :: r' ∧ Tail cs r' := by
  rcases h with rfl | rfl
  · exact ⟨cs, rfl, refl cs⟩
  · exact ⟨cs ++ ['\r'], rfl, .inr rfl⟩

/-- The part in front of a return is the same on both sides. -/
theorem append_left (front : List Char) (h : Tail (front ++ cs) cs') :
    ∃ r', cs' = front ++ r' ∧ Tail cs r' := by
  rcases h with rfl | rfl
  · exact ⟨cs, rfl, refl cs⟩
  · exact ⟨cs ++ ['\r'], List.append_assoc .., .inr rfl⟩

theorem ne_nil (h : Tail cs cs') (hcs : cs ≠ []) : cs' ≠ [] := by
  obtain ⟨c, cs, rfl⟩ := List.exists_cons_of_ne_nil hcs
  obtain ⟨r, rfl, -⟩ := h.cons_left
  exact List.cons_ne_nil c r

/-- So they do if the first does not begin with this. -/
theorem head?_ne (h : Tail cs cs') (hc : c ≠ '\r') (hne : cs.head? ≠ some c) :
    cs'.head? ≠ some c := by
  cases cs with
  | nil => rcases h.nil_left with rfl | rfl <;> simp [hc.symm]
  | cons d r =>
    obtain ⟨r', rfl, -⟩ := h.cons_left
    exact hne

/-- What holds if both begin with a character, and if neither does, holds. -/
theorem cases_head {P : Prop} (h : Tail cs cs') (c : Char) (hc : c ≠ '\r')
    (hhead : ∀ {r r'}, cs = c :: r → cs' = c :: r' → Tail r r' → P)
    (hrest : cs.head? ≠ some c → cs'.head? ≠ some c → P) : P := by
  by_cases hmark : cs.head? = some c
  · obtain ⟨r, rfl⟩ := List.head?_eq_some_iff.mp hmark
    obtain ⟨r', rfl, hr⟩ := h.cons_left
    exact hhead rfl rfl hr
  · exact hrest hmark (h.head?_ne hc hmark)

end Tail

/-- What two readings have in common that differ in the text left at most: the value read, with no
more than `n` characters left, or the fault, with its words and its place apart. -/
inductive Alike {α : Type} (n : Nat) :
    Except Stop (α × List Char) → Except Stop (α × List Char) → Prop
  | ok (a : α) {rest rest' : List Char} (h : Tail rest rest') (hn : rest.length ≤ n) :
    Alike n (.ok (a, rest)) (.ok (a, rest'))
  | malformed (what what' : Complaint) (rest rest' : List Char) :
    Alike n (.error (.malformed what rest)) (.error (.malformed what' rest'))
  | tooDeep (nest : Nest) : Alike n (.error (.tooDeep nest)) (.error (.tooDeep nest))
  | tooManyDigits (count : Nat) :
    Alike n (.error (.tooManyDigits count)) (.error (.tooManyDigits count))

namespace Alike

variable {α β : Type} {n m : Nat} {x x' : Except Stop (α × List Char)}

/-- Faults that are the same are alike. -/
theorem error (n : Nat) (f : Stop) :
    Alike n (.error f : Except Stop (α × List Char)) (.error f) := by
  cases f with
  | malformed what rest => exact .malformed what what rest rest
  | tooDeep nest => exact .tooDeep nest
  | tooManyDigits count => exact .tooManyDigits count

/-- Two outcomes that are alike for a short text are alike for a longer one. -/
theorem mono (h : Alike n x x') (hle : n ≤ m) : Alike m x x' := by
  cases h with
  | ok a h hn => exact .ok a h (Nat.le_trans hn hle)
  | malformed what what' rest rest' => exact .malformed what what' rest rest'
  | tooDeep nest => exact .tooDeep nest
  | tooManyDigits count => exact .tooManyDigits count

/-- What is read next is alike behind readings that are. -/
theorem bind (h : Alike n x x') {g g' : α × List Char → Except Stop (β × List Char)}
    (hg : ∀ a {rest rest'}, Tail rest rest' → rest.length ≤ n →
      Alike n (g (a, rest)) (g' (a, rest'))) : Alike n (x >>= g) (x' >>= g') := by
  cases h with
  | ok a h hn => exact hg a h hn
  | malformed what what' rest rest' => exact .malformed what what' rest rest'
  | tooDeep nest => exact .tooDeep nest
  | tooManyDigits count => exact .tooManyDigits count

theorem map (h : Alike n x x') (g : α → β) :
    Alike n (x.map fun (a, rest) => (g a, rest)) (x'.map fun (a, rest) => (g a, rest)) :=
  h.bind fun a _ _ hrest hn => .ok (g a) hrest hn

end Alike

/-! ## Texts

Inside a text a return is a control character, and so refused, and no text may end before its
closing mark. The cases are those of the reader: in each the shorter text decides on what to do, and
the longer one begins alike. -/

theorem hexValue4?_return (h i j : Char) : Text.hexValue4? h i j '\r' = none := by
  rw [Text.hexValue4?, show Text.hexValue? '\r' = none from rfl]
  cases Text.hexValue? h <;> cases Text.hexValue? i <;> cases Text.hexValue? j <;> rfl

/-- A carriage return does not complete the digits of a code escape. -/
theorem Tail.readUnits_incomplete (start : List Char) {cs cs' : List Char} (h : Tail cs cs')
    (hshort : ∀ i j k l rest, cs = i :: j :: k :: l :: rest → False) :
    readUnits start ('\\' :: 'u' :: cs') = .error (.malformed .badCodeEscape ('u' :: cs')) := by
  rcases cs with _ | ⟨i, _ | ⟨j, _ | ⟨k, _ | ⟨l, rest⟩⟩⟩⟩
  · rcases h with rfl | rfl <;> rfl
  · rcases h with rfl | rfl <;> rfl
  · rcases h with rfl | rfl <;> rfl
  -- Four characters and then a return: they are no code, for a return is no digit.
  · rcases h with rfl | rfl
    · rfl
    · rw [readUnits.eq_def]
      simp only [List.cons_append, List.nil_append, if_true, hexValue4?_return]
      rfl
  · exact (hshort i j k l rest rfl).elim

/-- **Reading a text** goes alike with a return behind it: the return stands in the text or behind
it, and in the text it is no unit but a fault. -/
theorem alike_readUnits (start start' : List Char) {cs cs' : List Char} (h : Tail cs cs') :
    Alike cs.length (readUnits start cs) (readUnits start' cs') := by
  fun_induction readUnits start cs generalizing cs' with
  | case1 => rcases h.nil_left with rfl | rfl <;> exact .malformed ..
  | case2 rest =>
    obtain ⟨r, rfl, hr⟩ := h.cons_left
    rw [readUnits_mark]
    exact .ok [] hr (Nat.le_succ _)
  | case3 =>
    obtain ⟨r, rfl, hr⟩ := h.cons_left
    rcases hr.nil_left with rfl | rfl <;> exact .malformed ..
  | case4 i j k l rest hvalue =>
    obtain ⟨r, rfl, hr⟩ := h.append_left ['\\', 'u', i, j, k, l]
    rw [List.cons_append, readUnits.eq_def]
    simp only [List.cons_append, List.nil_append, if_true, hvalue]
    exact .malformed ..
  | case5 i j k l rest unit hvalue hempty =>
    -- at the end of the text the escape is refused, and with a return behind it the return is
    obtain rfl := List.isEmpty_iff.mp hempty
    obtain ⟨r, rfl, hr⟩ := h.append_left ['\\', 'u', i, j, k, l]
    rw [List.cons_append, readUnits.eq_def]
    simp only [List.cons_append, List.nil_append, if_true, hvalue]
    rcases hr.nil_left with rfl | rfl <;> exact .malformed ..
  | case6 i j k l rest unit hvalue hempty _ ih =>
    obtain ⟨r, rfl, hr⟩ := h.append_left ['\\', 'u', i, j, k, l]
    show Alike _ _ (readUnits start' ('\\' :: 'u' :: i :: j :: k :: l :: r))
    rw [readUnits_code start' hvalue (hr.ne_nil (mt List.isEmpty_iff.mpr hempty))]
    exact ((ih hr).map _).mono (Nat.le_add_right _ 6)
  | case7 rest hshort =>
    obtain ⟨r, rfl, hr⟩ := h.append_left ['\\', 'u']
    rw [List.cons_append, List.cons_append, List.nil_append, hr.readUnits_incomplete start' hshort]
    exact .malformed ..
  | case8 e rest hu hshort =>
    obtain ⟨r, rfl, hr⟩ := h.append_left ['\\', e]
    rw [List.cons_append, readUnits.eq_def]
    simp only [List.cons_append, List.nil_append, if_neg hu, hshort]
    exact .malformed ..
  | case9 e rest hu d hshort _ ih =>
    obtain ⟨r, rfl, hr⟩ := h.append_left ['\\', e]
    show Alike _ _ (readUnits start' ('\\' :: e :: r))
    rw [readUnits_short start' hshort]
    exact ((ih hr).map _).mono (Nat.le_add_right _ 2)
  | case10 c rest hmark hslash hlow =>
    obtain ⟨r, rfl, hr⟩ := h.cons_left
    rw [readUnits.eq_def]
    simp only [if_neg hmark, if_neg hslash, if_pos hlow]
    exact .malformed ..
  | case11 c rest hmark hslash hlow ih =>
    obtain ⟨r, rfl, hr⟩ := h.cons_left
    rw [readUnits_plain start' hmark hslash (Nat.le_of_not_lt hlow)]
    exact ((ih hr).map _).mono (Nat.le_succ _)

/-- What the units are joined to is the same, so a text is refused on both sides or on neither. -/
theorem alike_readText (d : Dialect) (start start' : List Char) {cs cs' : List Char}
    (h : Tail cs cs') : Alike cs.length (readText d start cs) (readText d start' cs') := by
  refine (alike_readUnits start start' h).bind fun units rest rest' hrest hn => ?_
  dsimp only
  split
  · exact .malformed ..
  · exact .ok _ hrest hn

/-! ## Numbers

Each span of a number takes characters from the front and stops at the first that does not belong to
it, or at the end. A return belongs to none of them. -/

/-- Two spans that differ in the text left at most. -/
def AlikeSpan {α : Type} (n : Nat) (x x' : α × List Char) : Prop :=
  ∃ a rest rest', x = (a, rest) ∧ x' = (a, rest') ∧ Tail rest rest' ∧ rest.length ≤ n

variable {cs cs' : List Char}

/-- Nothing is taken. -/
theorem AlikeSpan.refl {α : Type} (a : α) (h : Tail cs cs') :
    AlikeSpan cs.length (a, cs) (a, cs') :=
  ⟨a, cs, cs', rfl, rfl, h, Nat.le_refl _⟩

/-- One character is taken. -/
theorem AlikeSpan.tail {α : Type} (a : α) (c : Char) (h : Tail cs cs') :
    AlikeSpan (c :: cs).length (a, cs) (a, cs') :=
  ⟨a, cs, cs', rfl, rfl, h, Nat.le_succ _⟩

/-- A return is no digit, so the digits at the front are the same. -/
theorem alike_digitSpan (h : Tail cs cs') : AlikeSpan cs.length (digitSpan cs) (digitSpan cs') := by
  -- Along the digits, up to the first character that is none.
  induction cs generalizing cs' with
  | nil => rcases h.nil_left with rfl | rfl <;> exact .refl [] h
  | cons c cs ih =>
    obtain ⟨r, rfl, hr⟩ := h.cons_left
    obtain ⟨ds, rest, rest', hds, hds', htail, hrest⟩ := ih hr
    rw [digitSpan, digitSpan, hds, hds']
    cases Text.asciiDigit? c with
    | none => exact .refl [] h
    | some v => exact ⟨v :: ds, rest, rest', rfl, rfl, htail, Nat.le_succ_of_le hrest⟩

/-- A whole part that begins with no zero is all the digits. -/
theorem wholeSpan_of_head?_ne (h : cs.head? ≠ some '0') : wholeSpan cs = digitSpan cs := by
  rw [wholeSpan.eq_def]
  split
  · exact absurd rfl h
  · rfl

theorem alike_wholeSpan (h : Tail cs cs') : AlikeSpan cs.length (wholeSpan cs) (wholeSpan cs') := by
  refine h.cases_head '0' (by decide) (fun hr hr' htail => ?_) fun hne hne' => ?_
  · rw [hr, hr']
    exact .tail [0] '0' htail
  · rw [wholeSpan_of_head?_ne hne, wholeSpan_of_head?_ne hne']
    exact alike_digitSpan h

/-- A point is followed by the same digits; without digits it is left where it is, on both sides. -/
theorem alike_fractionSpan (h : Tail cs cs') :
    AlikeSpan cs.length (fractionSpan cs) (fractionSpan cs') := by
  refine h.cases_head '.' (by decide) (fun hr hr' htail => ?_) fun hne hne' => ?_
  · subst hr hr'
    obtain ⟨ds, rest, rest', hds, hds', htail, hrest⟩ := alike_digitSpan htail
    rw [fractionSpan, fractionSpan, hds, hds']
    cases ds with
    | nil => exact .refl none h
    | cons v ds => exact ⟨_, rest, rest', rfl, rfl, htail, Nat.le_succ_of_le hrest⟩
  · rw [fractionSpan_of_head?_ne hne, fractionSpan_of_head?_ne hne']
    exact .refl none h

/-- Without a minus and a plus there is no sign. -/
theorem exponentSign_of_head?_ne (hminus : cs.head? ≠ some '-') (hplus : cs.head? ≠ some '+') :
    exponentSign cs = (false, cs) := by
  rw [exponentSign.eq_def]
  split
  · exact absurd rfl hminus
  · exact absurd rfl hplus
  · rfl

theorem alike_exponentSign (h : Tail cs cs') :
    AlikeSpan cs.length (exponentSign cs) (exponentSign cs') := by
  refine h.cases_head '-' (by decide) (fun hr hr' htail => ?_) fun hminus hminus' => ?_
  · rw [hr, hr']
    exact .tail true '-' htail
  · refine h.cases_head '+' (by decide) (fun hr hr' htail => ?_) fun hplus hplus' => ?_
    · rw [hr, hr']
      exact .tail false '+' htail
    · rw [exponentSign_of_head?_ne hminus hplus, exponentSign_of_head?_ne hminus' hplus']
      exact .refl false h

/-- **An exponent** is taken alike, or left alone alike. -/
theorem alike_exponentSpan (h : Tail cs cs') :
    AlikeSpan cs.length (exponentSpan cs) (exponentSpan cs') := by
  cases cs with
  | nil => rcases h.nil_left with rfl | rfl <;> exact .refl none h
  | cons c cs =>
    obtain ⟨r, rfl, hr⟩ := h.cons_left
    obtain ⟨negative, rest, rest', hsign, hsign', htail, hrest⟩ := alike_exponentSign hr
    obtain ⟨ds, more, more', hds, hds', htail, hmore⟩ := alike_digitSpan htail
    -- The sign and the digits are the same, and whether the letter is one does not depend on what
    -- follows it.
    rw [exponentSpan.eq_def, exponentSpan.eq_def]
    dsimp only
    rw [hsign, hsign']
    dsimp only
    rw [hds, hds']
    split
    · cases ds with
      | nil => exact .refl none h
      | cons v ds =>
        exact ⟨_, more, more', rfl, rfl, htail, Nat.le_succ_of_le (Nat.le_trans hmore hrest)⟩
    · exact .refl none h

theorem alike_numberSign (h : Tail cs cs') :
    AlikeSpan cs.length (numberSign cs) (numberSign cs') := by
  refine h.cases_head '-' (by decide) (fun hr hr' htail => ?_) fun hne hne' => ?_
  · rw [hr, hr']
    exact .tail true '-' htail
  · rw [numberSign_of_head?_ne hne, numberSign_of_head?_ne hne']
    exact .refl false h

/-- **Reading a number** goes alike: its parts are taken one after another, and the return stays in
what is left. -/
theorem alike_readNumber (h : Tail cs cs') :
    Alike cs.length (readNumber cs) (readNumber cs') := by
  obtain ⟨negative, rest, rest', hneg, hneg', htail, hrest⟩ := alike_numberSign h
  obtain ⟨whole, more, more', hwhole, hwhole', htail, hmore⟩ := alike_wholeSpan htail
  obtain ⟨part, last, last', hpart, hpart', htail, hlast⟩ := alike_fractionSpan htail
  obtain ⟨exponent, left, left', hexp, hexp', htail, hleft⟩ := alike_exponentSpan htail
  -- Each of the parts leaves at most what it was given.
  have hlength : left.length ≤ cs.length :=
    Nat.le_trans hleft (Nat.le_trans hlast (Nat.le_trans hmore hrest))
  rw [readNumber_eq hneg hwhole hpart hexp, readNumber_eq hneg' hwhole' hpart' hexp']
  split
  · exact .malformed ..
  · cases hvalue : numberOf negative whole part exponent with
    | ok v => exact .ok v htail hlength
    | error f => exact .error _ f

/-! ## Gaps and words

Behind a gap the texts still differ in the return at most, unless all is gap; then the return is one
as well and nothing is left of either. -/

/-- A carriage return is a gap, so none is left where no text is. -/
theorem Tail.skipGap (h : Tail cs cs') :
    Tail (skipGap cs) (skipGap cs') ∧ (Json.skipGap cs = [] → Json.skipGap cs' = []) := by
  induction cs generalizing cs' with
  | nil => rcases h.nil_left with rfl | rfl <;> exact ⟨.refl [], fun _ => rfl⟩
  | cons c cs ih =>
    obtain ⟨r, rfl, hr⟩ := h.cons_left
    rw [Json.skipGap, Json.skipGap, List.dropWhile_cons, List.dropWhile_cons]
    cases isGap c with
    | true => exact ih hr
    | false => exact ⟨h, fun hnil => absurd hnil (List.cons_ne_nil c cs)⟩

theorem length_skipGap_le (cs : List Char) : (skipGap cs).length ≤ cs.length :=
  (List.dropWhile_suffix isGap).length_le

/-- A word is at the front of one text if it is at the front of the other. -/
theorem isPrefixOf_concat_return {word : List Char} (hword : '\r' ∉ word) (cs : List Char) :
    word.isPrefixOf (cs ++ ['\r']) = word.isPrefixOf cs := by
  induction word generalizing cs with
  | nil => rfl
  | cons w word ih =>
    rw [List.mem_cons, not_or] at hword
    cases cs with
    | nil => simp [List.isPrefixOf, Ne.symm hword.1]
    | cons c cs =>
      show (w == c && word.isPrefixOf (cs ++ ['\r'])) = (w == c && word.isPrefixOf cs)
      rw [ih hword.2]

/-- A word without a return stands at the front of both or of neither. -/
theorem Tail.isPrefixOf_eq (h : Tail cs cs') {word : List Char} (hword : '\r' ∉ word) :
    word.isPrefixOf cs' = word.isPrefixOf cs := by
  rcases h with rfl | rfl
  · rfl
  · exact isPrefixOf_concat_return hword cs

/-- **A word or a number** is read alike. -/
theorem alike_readWord (h : Tail cs cs') : Alike cs.length (readWord cs) (readWord cs') := by
  have hwords : ∀ p ∈ wordValues, '\r' ∉ p.1 := by decide
  -- The words have no returns, so the first that fits is the same on both sides.
  have hfind : wordValues.find? (fun p => p.1.isPrefixOf cs')
      = wordValues.find? fun p => p.1.isPrefixOf cs := by
    rw [← List.head?_filter, ← List.head?_filter,
      List.filter_congr fun p hp => h.isPrefixOf_eq (hwords p hp)]
  rw [readWord, readWord, hfind]
  cases hword : wordValues.find? fun p => p.1.isPrefixOf cs with
  | none => exact alike_readNumber h
  | some p =>
    have hfront := List.find?_some hword
    obtain ⟨rest, rfl⟩ := List.isPrefixOf_iff_prefix.mp hfront
    obtain ⟨r', rfl, hr⟩ := h.append_left p.1
    dsimp only
    rw [List.drop_left, List.drop_left]
    refine .ok p.2 hr ?_
    rw [List.length_append]
    exact Nat.le_add_left _ _

/-! ## Parts

Elements and members are read by the same loop, so it is written once, for any reader of parts
(`readParts`), and the two loops of the model are shown to be it. With more fuel than there is text
the loop does not run out, so fuel does not tell the two texts apart. -/

/-- A function that reads one part of a sequence or a table. -/
abbrev PartReader (α : Type) := List Char → Except Stop (α × List Char)

/-- A reader for which a carriage return at the end makes no difference. -/
def IsSteady {α : Type} (part : PartReader α) : Prop :=
  ∀ {cs cs'}, Tail cs cs' → Alike cs.length (part cs) (part cs')

/-- Parts with commas between them, up to a mark that closes them: elements and members are read so.
-/
def readParts {α : Type} (part : PartReader α) (close : Char) (what : Complaint) :
    Nat → PartReader (List α)
  | 0, cs => .error (.malformed what cs)
  | n + 1, cs => do
    let (a, rest) ← part cs
    match skipGap rest with
    | [] => throw (.malformed .noComma [])
    | c :: rest =>
      if c = close then return ([a], rest)
      else if c = ',' then
        let (as, rest) ← readParts part close what n (skipGap rest)
        return (a :: as, rest)
      else throw (.malformed .noComma (c :: rest))

section

variable {α : Type} {part : PartReader α}

/-- A steady reader leaves no more text than there was. -/
theorem IsSteady.length_le (h : IsSteady part) {a : α} {rest : List Char}
    (hread : part cs = .ok (a, rest)) : rest.length ≤ cs.length := by
  have halike := h (.refl cs)
  rw [hread] at halike
  cases halike with
  | ok _ _ hn => exact hn

/-- **Parts are steady** if each of them is. -/
theorem isSteady_readParts (h : IsSteady part) (close : Char) (what : Complaint) (n : Nat) :
    IsSteady (readParts part close what n) := by
  intro cs cs' htail
  induction n generalizing cs cs' with
  | zero => exact .malformed ..
  | succ n ih =>
    rw [readParts, readParts]
    refine (h htail).bind fun a rest rest' hrest hn => ?_
    obtain ⟨hskip, hnil⟩ := hrest.skipGap
    have hlength := Nat.le_trans (length_skipGap_le rest) hn
    dsimp only
    -- Nothing behind a part is a fault in both; a character is one and the same in both.
    cases hgap : skipGap rest with
    | nil =>
      rw [hnil hgap]
      exact .malformed ..
    | cons c r =>
      rw [hgap] at hskip hlength
      obtain ⟨r', hgap', hr⟩ := hskip.cons_left
      rw [hgap']
      dsimp only
      split
      · exact .ok [a] hr (Nat.le_of_succ_le hlength)
      · split
        · have hmore := Nat.le_trans (length_skipGap_le r) (Nat.le_of_succ_le hlength)
          exact ((ih hr.skipGap.1).mono hmore).bind fun as _ _ htail hn => .ok (a :: as) htail hn
        · exact .malformed ..

/-- More fuel than the text is long makes no difference. -/
theorem readParts_fuel (h : IsSteady part) (close : Char) (what : Complaint) {n m : Nat}
    (hn : cs.length < n) (hm : cs.length < m) :
    readParts part close what n cs = readParts part close what m cs := by
  -- On the fuel, which one part uses up at a time: what it leaves is shorter, so the fuel is enough
  -- for it in both.
  induction n generalizing cs m with
  | zero => exact absurd hn (Nat.not_lt_zero _)
  | succ n ih =>
    obtain ⟨m, rfl⟩ : ∃ k, m = k + 1 := ⟨m - 1, by omega⟩
    rw [readParts, readParts]
    cases hread : part cs with
    | error f => rfl
    | ok p =>
      obtain ⟨a, rest⟩ := p
      have hlength := Nat.le_trans (length_skipGap_le rest) (h.length_le hread)
      dsimp only [bind, Except.bind]
      cases hgap : skipGap rest with
      | nil => rfl
      | cons c r =>
        have hmore := length_skipGap_le r
        rw [hgap, List.length_cons] at hlength
        dsimp only
        rw [ih (m := m) (by omega) (by omega)]

/-- **Parts are steady with as much fuel as the text asks for.** -/
theorem alike_readParts (h : IsSteady part) (close : Char) (what : Complaint)
    (htail : Tail cs cs') :
    Alike cs.length (readParts part close what (cs.length + 1) cs)
      (readParts part close what (cs'.length + 1) cs') := by
  have hle : cs.length ≤ cs'.length := by
    rcases htail with rfl | rfl
    · exact Nat.le_refl _
    · rw [List.length_append]
      exact Nat.le_add_right _ _
  -- the shorter text is read with the fuel of the longer one, so that both count down alike
  rw [readParts_fuel h close what (Nat.lt_succ_self _) (Nat.lt_succ_of_le hle)]
  exact isSteady_readParts h close what _ htail

end

variable {inner : ValueReader}

/-- The elements of an array are parts between commas, up to the bracket. -/
theorem readElements_eq (inner : ValueReader) (n : Nat) (cs : List Char) :
    readElements inner n cs = readParts inner ']' .noValue n cs := by
  induction n generalizing cs with
  | zero => rfl
  | succ n ih =>
    rw [readElements, readParts]
    refine congrArg (inner cs >>= ·) (funext fun ⟨v, rest⟩ => ?_)
    dsimp only
    -- By the mark behind the element: the one that closes, a comma, or a fault, and the two
    -- definitions ask in the same order.
    rcases skipGap rest with _ | ⟨c, r⟩
    · rfl
    · by_cases hclose : c = ']'
      · subst hclose
        rfl
      · by_cases hcomma : c = ','
        · subst hcomma
          show (readElements inner n (skipGap r) >>= _) = _
          rw [ih]
          rfl
        · dsimp only
          rw [if_neg hclose, if_neg hcomma]
          split
          · next h => exact absurd (List.cons.inj h).1 hclose
          · next h => exact absurd (List.cons.inj h).1 hcomma
          · rfl

/-- An array that is not closed at once has elements. -/
theorem readArray_of_head?_ne (inner : ValueReader) (h : (skipGap cs).head? ≠ some ']') :
    readArray inner cs
      = readParts inner ']' .noValue ((skipGap cs).length + 1) (skipGap cs) := by
  rw [readArray.eq_def]
  split
  · next hgap => exact absurd (by rw [hgap]; rfl) h
  · exact readElements_eq inner _ _

theorem readArray_of_close (inner : ValueReader) {r : List Char} (h : skipGap cs = ']' :: r) :
    readArray inner cs = .ok ([], r) := by
  rw [readArray, h]
  rfl

/-- **Arrays** are read alike if their elements are. -/
theorem isSteady_readArray (hinner : IsSteady inner) : IsSteady (readArray inner) := by
  intro cs cs' h
  have hlength := length_skipGap_le cs
  refine h.skipGap.1.cases_head ']' (by decide)
    (fun hr hr' htail => ?_) fun hne hne' => ?_
  · rw [readArray_of_close inner hr, readArray_of_close inner hr']
    rw [hr] at hlength
    exact .ok [] htail (Nat.le_of_succ_le hlength)
  · rw [readArray_of_head?_ne inner hne, readArray_of_head?_ne inner hne']
    exact (alike_readParts hinner ']' .noValue h.skipGap.1).mono hlength

/-- A member: its name, the colon and its value. -/
def readMember (d : Dialect) (inner : ValueReader) : PartReader (Value × Value) := fun cs => do
  let (name, rest) ← readName d cs
  let (v, rest) ← inner rest
  return ((name.toValue, v), rest)

/-- **The name of a member**, with its colon, is read alike. -/
theorem alike_readName (d : Dialect) (h : Tail cs cs') :
    Alike cs.length (readName d cs) (readName d cs') := by
  refine h.cases_head '"' (by decide) (fun hr hr' htail => ?_) fun hne hne' => ?_
  · subst hr hr'
    rw [readName, readName]
    refine ((alike_readText d _ _ htail).mono (Nat.le_succ _)).bind
      fun name rest rest' hrest hn => ?_
    have hlength := Nat.le_trans (length_skipGap_le rest) hn
    dsimp only
    -- Behind the name stands a colon, on both sides or on neither.
    refine hrest.skipGap.1.cases_head ':' (by decide) (fun hr hr' htail => ?_) fun hne hne' => ?_
    · rw [hr] at hlength
      rw [hr, hr']
      exact .ok name htail.skipGap.1
        (Nat.le_trans (length_skipGap_le _) (Nat.le_of_succ_le hlength))
    · generalize skipGap rest = gap at hne ⊢
      generalize skipGap rest' = gap' at hne' ⊢
      split
      · exact absurd rfl hne
      · split
        · exact absurd rfl hne'
        · exact .malformed ..
  · rw [readName.eq_def, readName.eq_def]
    split
    · exact absurd rfl hne
    · split
      · exact absurd rfl hne'
      · exact .malformed ..

theorem isSteady_readMember (d : Dialect) (hinner : IsSteady inner) :
    IsSteady (readMember d inner) := fun h =>
  (alike_readName d h).bind fun name _ _ hrest hn =>
    ((hinner hrest).mono hn).bind fun v _ _ hrest hn => .ok (name.toValue, v) hrest hn

/-! ## Objects

The loop for members is the loop for parts as well; a part is a name with its value. -/

/-- The members of an object are parts between commas, up to the brace; a part is a name with its
value. -/
theorem readMembers_eq (d : Dialect) (inner : ValueReader) (n : Nat) (cs : List Char) :
    readMembers d inner n cs = readParts (readMember d inner) '\x7d' .noName n cs := by
  induction n generalizing cs with
  | zero => rfl
  | succ n ih =>
    rw [readMembers, readParts, readMember, bind_assoc]
    refine congrArg (readName d cs >>= ·) (funext fun ⟨name, rest⟩ => ?_)
    rw [bind_assoc]
    refine congrArg (inner rest >>= ·) (funext fun ⟨v, rest⟩ => ?_)
    rw [pure_bind]
    dsimp only
    -- As for the elements of an array, with two readers in front of the mark.
    rcases skipGap rest with _ | ⟨c, r⟩
    · rfl
    · by_cases hclose : c = '\x7d'
      · subst hclose
        rfl
      · by_cases hcomma : c = ','
        · subst hcomma
          show (readMembers d inner n (skipGap r) >>= _) = _
          rw [ih]
          rfl
        · dsimp only
          rw [if_neg hclose, if_neg hcomma]
          split
          · next h => exact absurd (List.cons.inj h).1 hclose
          · next h => exact absurd (List.cons.inj h).1 hcomma
          · rfl

/-- An object that is not closed at once has members. -/
theorem readObject_of_head?_ne (d : Dialect) (inner : ValueReader)
    (h : (skipGap cs).head? ≠ some '\x7d') :
    readObject d inner cs
      = (readParts (readMember d inner) '\x7d' .noName ((skipGap cs).length + 1) (skipGap cs)).map
          fun (members, rest) => (Table.ofPairs members, rest) := by
  rw [readObject.eq_def]
  split
  · next hgap => exact absurd (by rw [hgap]; rfl) h
  · rw [readMembers_eq]
    rfl

theorem readObject_of_close (d : Dialect) (inner : ValueReader) {r : List Char}
    (h : skipGap cs = '\x7d' :: r) : readObject d inner cs = .ok ([], r) := by
  rw [readObject, h]
  rfl

/-- **Objects** are read alike if the values in them are. -/
theorem isSteady_readObject (d : Dialect) (hinner : IsSteady inner) :
    IsSteady (readObject d inner) := by
  intro cs cs' h
  have hlength := length_skipGap_le cs
  refine h.skipGap.1.cases_head '\x7d' (by decide)
    (fun hr hr' htail => ?_) fun hne hne' => ?_
  · rw [readObject_of_close d inner hr, readObject_of_close d inner hr']
    rw [hr] at hlength
    exact .ok [] htail (Nat.le_of_succ_le hlength)
  · rw [readObject_of_head?_ne d inner hne, readObject_of_head?_ne d inner hne']
    exact ((alike_readParts (isSteady_readMember d hinner) '\x7d' .noName h.skipGap.1).mono
      hlength).map Table.ofPairs

/-! ## Values and documents

Values are followed down the levels of the reader. A whole document then has nothing but gaps behind
its value, with the return and without it, or both have something else there. -/

/-- A value is steady if the values inside it are. -/
theorem isSteady_readValueWith (d : Dialect) {inner? : Option ValueReader}
    (hinner : ∀ inner ∈ inner?, IsSteady inner) : IsSteady (readValueWith d inner?) := by
  intro cs cs' h
  cases cs with
  | nil => rcases h.nil_left with rfl | rfl <;> exact .malformed ..
  | cons c cs =>
    obtain ⟨r, rfl, hr⟩ := h.cons_left
    by_cases hmark : c = '"'
    · subst hmark
      exact ((alike_readText d _ _ hr).mono (Nat.le_succ _)).map WireText.toValue
    · by_cases hopen : c = '['
      · subst hopen
        cases inner? with
        | none => exact .tooDeep .array
        | some inner =>
          exact ((isSteady_readArray (hinner inner rfl) hr).mono (Nat.le_succ _)).map Value.list
      · by_cases hbrace : c = '\x7b'
        · subst hbrace
          cases inner? with
          | none => exact .tooDeep .object
          | some inner =>
            exact ((isSteady_readObject d (hinner inner rfl) hr).mono (Nat.le_succ _)).map
              Value.table
        · rw [readValueWith_eq_readWord d inner? hmark hopen hbrace,
            readValueWith_eq_readWord d inner? hmark hopen hbrace]
          exact alike_readWord h

theorem isSteady_readValue (d : Dialect) (depth : Nat) : IsSteady (readValue d depth) := by
  induction depth with
  | zero =>
    exact isSteady_readValueWith d fun inner hinner => absurd hinner (Option.not_mem_none inner)
  | succ depth ih =>
    refine isSteady_readValueWith d fun inner hinner => ?_
    obtain rfl := Option.some.inj hinner
    exact ih

/-- A reading without the words and the place of a complaint. -/
def outline : Except Fault Value → Except (Option Fault) Value
  | .ok v => .ok v
  | .error (.malformed _ _) => .error none
  | .error f => .error (some f)

/-- Readings that are the same apart from that are equal, or both documents are malformed. -/
theorem eq_or_malformed_of_outline {x x' : Except Fault Value} (h : outline x' = outline x) :
    x' = x ∨ ∃ what place what' place',
      x = .error (.malformed what place) ∧ x' = .error (.malformed what' place') := by
  rcases x with f | v
  · cases f with
    | malformed what place =>
      rcases x' with f' | v'
      · cases f' with
        | malformed what' place' => exact .inr ⟨what, place, what', place', rfl, rfl⟩
        | tooDeep nest' | tooManyDigits count' => exact absurd h nofun
      · exact absurd h nofun
    | tooDeep nest | tooManyDigits count =>
      rcases x' with f' | v'
      · cases f' with
        | malformed what' place' => exact absurd h nofun
        | tooDeep nest' | tooManyDigits count' =>
          exact .inl (congrArg Except.error (Option.some.inj (Except.error.inj h)))
      · exact absurd h nofun
  · rcases x' with f' | v'
    · cases f' <;> exact absurd h nofun
    · exact .inl (congrArg Except.ok (Except.ok.inj h))

theorem Tail.outline_readDocument (d : Dialect) (h : Tail cs cs') :
    outline ((readDocument d cs').mapError (·.fault cs'))
      = outline ((readDocument d cs).mapError (·.fault cs)) := by
  rw [readDocument, readDocument]
  -- A byte order mark is refused in both, and otherwise both are read from the same place.
  by_cases hmark : cs.head? = some (Char.ofNat 0xFEFF)
  · obtain ⟨r, rfl⟩ := List.head?_eq_some_iff.mp hmark
    obtain ⟨r', rfl, -⟩ := h.cons_left
    rfl
  · rw [if_neg hmark, if_neg (h.head?_ne (by decide) hmark)]
    have hread := isSteady_readValue d d.maxDepth h.skipGap.1
    generalize readValue d d.maxDepth (Json.skipGap cs) = x at hread
    generalize readValue d d.maxDepth (Json.skipGap cs') = x' at hread
    cases hread with
    | malformed what what' rest rest' => rfl
    | tooDeep nest => rfl
    | tooManyDigits count => rfl
    | ok v hrest hn =>
      rename_i rest rest'
      obtain ⟨hskip, hnil⟩ := hrest.skipGap
      dsimp only [bind, Except.bind]
      cases hgap : Json.skipGap rest with
      | nil =>
        rw [hnil hgap]
        rfl
      | cons c r =>
        rw [hgap] at hskip
        obtain ⟨r', hgap', -⟩ := hskip.cons_left
        rw [hgap']
        rfl

/-- **A carriage return behind a document changes nothing** but the words and the place of a
complaint about it. -/
theorem outline_read_return (d : Dialect) (s : String) :
    outline (read d (s ++ "\r")) = outline (read d s) := by
  have hreturn : (s ++ "\r").toList = s.toList ++ ['\r'] := String.toList_append
  rw [read, read, hreturn]
  exact Tail.outline_readDocument d (.inr rfl)

end AgentClient.Json
