import AgentClient.Proofs.Json.Limits
import AgentClient.Proofs.Json.Spelling

/-!
# Proofs/Json/EverySpelling — every document is spelled

Whatever can be read is one of the texts of `Proofs/Json/Spelling`: what a reader takes in front of
a text is taken whatever follows, down to the units of texts and the spans of numbers
(`standsInFront_of_readValue`).  Hence every document that can be read is a line of a value
(`ValueText.exists_line`), and a text of an object is put together of members, as one of an array is
of elements (`ValueText.hasForm_of_outcome`). -/

namespace AgentClient.Json

open Number

/-! ## Scalars

The reader of a text stops at the closing mark, so nothing behind it can matter. A number has no
mark at its end: it is read to the first character that cannot belong to it, and is the same number
before any other such character. -/

variable {d : Dialect}

theorem exists_gap (cs : List Char) : ∃ gap : Gap, cs = gap.chars ++ skipGap cs :=
  ⟨⟨cs.takeWhile isGap, fun _ hc => (List.mem_takeWhile_imp hc)⟩,
    List.takeWhile_append_dropWhile.symm⟩

/-- The characters in front that code units are read of, whatever follows. -/
def UnitsReadOf (front : List Char) (units : List Nat) : Prop :=
  front ≠ [] ∧ ∀ start more, readUnits start (front ++ more) = .ok (units, more)

/-- A unit is read of its characters, if something follows them. -/
theorem exists_unitsReadOf_cons (unitChars : List Char) {x : Except Stop (List Nat × List Char)}
    {u : Nat} {units : List Nat} {cs rest : List Char}
    (h : (x.map fun (us, r) => (u :: us, r)) = .ok (units, rest))
    (hunit : ∀ start {more}, more ≠ [] → readUnits start (unitChars ++ more)
      = (readUnits start more).map fun (us, r) => (u :: us, r))
    (ih : ∀ {us}, x = .ok (us, rest) → ∃ front, cs = front ++ rest ∧ UnitsReadOf front us) :
    ∃ front, unitChars ++ cs = front ++ rest ∧ UnitsReadOf front units := by
  obtain _ | ⟨us, r⟩ := x
  · exact absurd h nofun
  · obtain ⟨rfl, rfl⟩ := Prod.mk.inj (Except.ok.inj h)
    obtain ⟨front, rfl, hne, hfront⟩ := ih rfl
    -- The rest of the text still stands behind the new characters, so they are read alike whatever
    -- follows.
    refine ⟨unitChars ++ front, (List.append_assoc _ _ _).symm,
      List.append_ne_nil_of_right_ne_nil _ hne, fun start more => ?_⟩
    rw [List.append_assoc, hunit start (List.append_ne_nil_of_left_ne_nil hne _), hfront]
    rfl

/-- **What is read of a text** up to its closing mark is read so whatever follows. -/
theorem exists_unitsReadOf {start cs rest : List Char} {units : List Nat}
    (h : readUnits start cs = .ok (units, rest)) :
    ∃ front, cs = front ++ rest ∧ UnitsReadOf front units := by
  -- a unit is read of four digits, of one letter, or of a character
  fun_induction readUnits start cs generalizing units with
  | case2 rest' =>
    obtain ⟨rfl, rfl⟩ := Prod.mk.inj (Except.ok.inj h)
    exact ⟨['"'], rfl, List.cons_ne_nil _ _, fun start more => readUnits_mark start more⟩
  | case6 i j k l more unit hvalue _ _ ih =>
    exact exists_unitsReadOf_cons ['\\', 'u', i, j, k, l] h
      (fun start _ hne => readUnits_code start hvalue hne) ih
  | case9 e more _ c hc _ ih =>
    exact exists_unitsReadOf_cons ['\\', e] h
      (fun start _ _ => readUnits_short start hc _) ih
  | case11 c more hmark hslash hlow ih =>
    exact exists_unitsReadOf_cons [c] h
      (fun start _ _ => readUnits_plain start hmark hslash (Nat.not_lt.mp hlow) _) ih
  | _ => cases h

/-- **A text that is read is spelled.** -/
theorem exists_quotedText {start cs rest : List Char} {t : WireText}
    (h : readText d start cs = .ok (t, rest)) :
    ∃ q : QuotedText d, cs = q.chars ++ rest ∧ q.text = t := by
  obtain ⟨⟨units, rest'⟩, hunits, -⟩ := exists_of_bind_eq_ok h
  obtain ⟨front, rfl, -, hfront⟩ := exists_unitsReadOf hunits
  have hread : ∀ start more, readText d start (front ++ more)
      = if (!d.loneSurrogates && (Text.joinPairs units).any Text.isSurrogate) = true
        then .error (.malformed .badCodeEscape start)
        else .ok (.ofPoints (Text.joinPairs units), more) := by
    intro start more
    rw [readText, hfront]
    rfl
  -- Whether the units are taken depends on the units alone, so what holds of this text holds of it
  -- in front of any other.
  rw [hread] at h
  split at h
  · cases h
  · next htaken =>
    obtain ⟨rfl, rfl⟩ := Prod.mk.inj (Except.ok.inj h)
    exact ⟨⟨_, front, fun more => (hread _ more).trans (if_neg htaken)⟩, rfl, rfl⟩

/-! ### Numbers

A number is a sign, digits, a part behind a point and an exponent, and all but the digits may be
missing. For each of them the span is split at what it has taken, and is shown to take the same from
any text that goes on in a way that ends it there. What follows a part is the beginning of the next
one, or the end, so the parts fit together. -/

/-- A span of a number is taken whatever follows, as long as it ends there. -/
def TakesSpan {α : Type} (span : List Char → α × List Char) (ends : Char → Prop) (front : List Char)
    (a : α) : Prop :=
  ∀ more, (∀ c ∈ more.head?, ends c) → span (front ++ more) = (a, more)

/-- The digits that a span takes are at the front of the text, and are taken in front of anything
that begins with no digit. -/
theorem exists_takesSpan_digitSpan {cs rest : List Char} {ds : List Nat}
    (h : digitSpan cs = (ds, rest)) :
    ∃ front, cs = front ++ rest ∧ AreDigits front ∧ front.length = ds.length
      ∧ TakesSpan digitSpan (fun c => c.isDigit = false) front ds := by
  obtain ⟨front, hcs, hfront, hlength, hends⟩ := exists_digitSpan cs
  have hvalues : digitSpan cs = (digitValues front, (digitSpan cs).2) := by
    nth_rewrite 1 [hcs]
    exact digitSpan_append hfront hends
  rw [h] at hvalues hcs hlength
  refine ⟨front, hcs, hfront, hlength, fun more hmore => ?_⟩
  rw [digitSpan_append hfront hmore, (Prod.mk.inj hvalues).1]

/-- Digits that are read begin with one. -/
theorem exists_takesSpan_digit {cs rest : List Char} {ds : List Nat} (h : digitSpan cs = (ds, rest))
    (hne : ds ≠ []) :
    ∃ c front, c.isDigit = true ∧ cs = c :: front ++ rest
      ∧ TakesSpan digitSpan (fun c => c.isDigit = false) (c :: front) ds := by
  obtain ⟨front, hcs, hfront, hlength, htakes⟩ := exists_takesSpan_digitSpan h
  have hpos : 0 < front.length := hlength ▸ List.length_pos_iff.mpr hne
  obtain ⟨c, front, rfl⟩ := List.exists_cons_of_length_pos hpos
  exact ⟨c, front, hfront c List.mem_cons_self, hcs, htakes⟩

/-- A whole part that is not empty begins with a digit, and is taken in front of anything that
begins with none. -/
theorem exists_takesSpan_wholeSpan {cs rest : List Char} {whole : List Nat}
    (h : wholeSpan cs = (whole, rest)) (hne : whole ≠ []) :
    ∃ c front, c.isDigit = true ∧ cs = c :: front ++ rest
      ∧ TakesSpan wholeSpan (fun c => c.isDigit = false) (c :: front) whole := by
  -- A zero is a whole part by itself, whatever digits follow; else all the digits are.
  by_cases hzero : cs.head? = some '0'
  · obtain ⟨cs, rfl⟩ := List.head?_eq_some_iff.mp hzero
    obtain ⟨rfl, rfl⟩ := Prod.mk.inj h
    exact ⟨'0', [], rfl, rfl, fun more _ => rfl⟩
  · rw [wholeSpan_of_head?_ne hzero] at h
    obtain ⟨c, front, hc, rfl, htakes⟩ := exists_takesSpan_digit h hne
    refine ⟨c, front, hc, rfl, fun more hmore => ?_⟩
    rw [wholeSpan_of_head?_ne (show (c :: front ++ more).head? ≠ some '0' from hzero)]
    exact htakes more hmore

/-- A part of a number that may be missing: how it begins, and that it is taken whatever follows, as
long as it ends there. -/
def TakesPart {α : Type} (span : List Char → Option α × List Char) (begins ends : Char → Prop)
    (cs rest : List Char) (a : Option α) : Prop :=
  ∃ front, cs = front ++ rest ∧ (∀ c ∈ front.head?, begins c) ∧ TakesSpan span ends front a

/-- A part that is missing is missing in front of anything that cannot begin it. -/
theorem takesPart_of_none {α : Type} {span : List Char → Option α × List Char}
    {begins ends : Char → Prop}
    {cs rest : List Char} {a : Option α} (h : span cs = (a, rest)) (hnone : span cs = (none, cs))
    (habsent : ∀ more, (∀ c ∈ more.head?, ends c) → span more = (none, more)) :
    TakesPart span begins ends cs rest a := by
  obtain ⟨rfl, rfl⟩ := Prod.mk.inj (hnone.symm.trans h)
  exact ⟨[], rfl, by simp, habsent⟩

theorem fractionSpan_cons {cs rest : List Char} {v : Nat} {ds : List Nat}
    (h : digitSpan cs = (v :: ds, rest)) : fractionSpan ('.' :: cs) = (some (v :: ds), rest) := by
  rw [fractionSpan, h]

theorem fractionSpan_cons_of_nil {cs rest : List Char} (h : digitSpan cs = ([], rest)) :
    fractionSpan ('.' :: cs) = (none, '.' :: cs) := by
  rw [fractionSpan, h]

/-- **A fraction**, or none: it begins with a point, and is taken in front of anything but a digit
and another point. -/
theorem takesPart_fractionSpan {cs rest : List Char} {part : Option (List Nat)}
    (h : fractionSpan cs = (part, rest)) :
    TakesPart fractionSpan (· = '.') (fun c => c.isDigit = false ∧ c ≠ '.') cs rest part := by
  have habsent : ∀ more : List Char, (∀ c ∈ more.head?, c.isDigit = false ∧ c ≠ '.') →
      fractionSpan more = (none, more) :=
    fun more hmore => fractionSpan_of_head?_ne fun hhead => (hmore '.' hhead).2 rfl
  by_cases hpoint : cs.head? = some '.'
  · obtain ⟨cs, rfl⟩ := List.head?_eq_some_iff.mp hpoint
    rcases hspan : digitSpan cs with ⟨_ | ⟨v, ds⟩, rest'⟩
    -- A point without digits is no fraction, and stays where it is.
    · exact takesPart_of_none h (fractionSpan_cons_of_nil hspan) habsent
    · obtain ⟨rfl, rfl⟩ := Prod.mk.inj ((fractionSpan_cons hspan).symm.trans h)
      obtain ⟨front, rfl, -, -, htakes⟩ := exists_takesSpan_digitSpan hspan
      exact ⟨'.' :: front, rfl, fun c hc => (Option.some.inj hc).symm,
        fun more hmore => fractionSpan_cons (htakes more fun c hc => (hmore c hc).1)⟩
  · exact takesPart_of_none h (fractionSpan_of_head?_ne hpoint) habsent

/-- The sign of an exponent is taken whatever digits follow. -/
theorem exists_exponentSign (cs : List Char) :
    ∃ sign, cs = sign ++ (exponentSign cs).2
      ∧ ∀ c more, c.isDigit = true →
        exponentSign (sign ++ c :: more) = ((exponentSign cs).1, c :: more) := by
  have hnone : ∀ {c : Char} {more : List Char}, c.isDigit = true →
      exponentSign (c :: more) = (false, c :: more) :=
    fun hc => exponentSign_of_head?_ne
      (fun h => ne_of_isDigit hc (by decide) (Option.some.inj h))
      (fun h => ne_of_isDigit hc (by decide) (Option.some.inj h))
  -- A minus, a plus or neither; the digit behind it can be taken for no sign.
  rw [exponentSign.eq_def]
  split
  · exact ⟨['-'], rfl, fun c more _ => rfl⟩
  · exact ⟨['+'], rfl, fun c more _ => rfl⟩
  · exact ⟨[], rfl, fun c more hc => hnone hc⟩

/-- The value of an exponent. -/
def exponentOf (negative : Bool) (ds : List Nat) : Int :=
  if negative then -(ofDigits ds : Int) else ofDigits ds

/-- The letter of an exponent with digits behind its sign. -/
theorem exponentSpan_cons {c : Char} {cs rest : List Char} {v : Nat} {ds : List Nat}
    (hc : c = 'e' ∨ c = 'E') (hspan : digitSpan (exponentSign cs).2 = (v :: ds, rest)) :
    exponentSpan (c :: cs) = (some (exponentOf (exponentSign cs).1 (v :: ds)), rest) := by
  rw [exponentSpan.eq_def]
  dsimp only
  rw [if_pos (by simpa using hc), hspan]
  rfl

/-- A letter with no digits behind its sign begins no exponent. -/
theorem exponentSpan_cons_of_nil (c : Char) {cs rest : List Char}
    (hspan : digitSpan (exponentSign cs).2 = ([], rest)) :
    exponentSpan (c :: cs) = (none, c :: cs) := by
  rw [exponentSpan.eq_def]
  dsimp only
  rw [hspan, ite_self]

/-- **An exponent**, or none: it begins with its letter, and is taken in front of whatever ends a
number. -/
theorem takesPart_exponentSpan {cs rest : List Char} {exponent : Option Int}
    (h : exponentSpan cs = (exponent, rest)) :
    TakesPart exponentSpan (fun c => c = 'e' ∨ c = 'E')
      (fun c => c.isDigit = false ∧ c ≠ '.' ∧ c ≠ 'e' ∧ c ≠ 'E') cs rest exponent := by
  have habsent : ∀ more, EndsNumber more → exponentSpan more = (none, more) :=
    fun _ => exponentSpan_of_endsNumber
  cases cs with
  | nil => exact takesPart_of_none h rfl habsent
  | cons c cs =>
    by_cases hc : c = 'e' ∨ c = 'E'
    · obtain ⟨sign, hcs, hsign⟩ := exists_exponentSign cs
      rcases hspan : digitSpan (exponentSign cs).2 with ⟨_ | ⟨v, ds⟩, rest'⟩
      · exact takesPart_of_none h (exponentSpan_cons_of_nil c hspan) habsent
      · obtain ⟨rfl, rfl⟩ := Prod.mk.inj ((exponentSpan_cons hc hspan).symm.trans h)
        obtain ⟨digit, front, hdigit, hfront, htakes⟩ :=
          exists_takesSpan_digit hspan (List.cons_ne_nil v ds)
        -- The letter, the sign and the digits, the first of them apart, for the sign is read by
        -- what follows it.
        refine ⟨c :: (sign ++ digit :: front), ?_, fun c' hc' => Option.some.inj hc' ▸ hc,
          fun more hmore => ?_⟩
        · rw [hfront] at hcs
          rw [hcs]
          simp
        · have hread := htakes more fun c hc => (hmore c hc).1
          have hmoreSign := hsign digit (front ++ more) hdigit
          rw [List.cons_append, List.append_assoc, List.cons_append,
            exponentSpan_cons hc (by rw [hmoreSign]; exact hread), hmoreSign]
    · exact takesPart_of_none h (if_neg (by simpa using hc)) habsent

/-- The sign of a number is a minus or nothing, and is taken in front of every digit. -/
theorem exists_numberSign (cs : List Char) :
    ∃ sign, (sign = [] ∨ sign = ['-']) ∧ cs = sign ++ (numberSign cs).2
      ∧ ∀ c more, c.isDigit = true →
        numberSign (sign ++ c :: more) = ((numberSign cs).1, c :: more) := by
  rw [numberSign.eq_def]
  split
  · exact ⟨['-'], .inr rfl, rfl, fun c more _ => rfl⟩
  · exact ⟨[], .inl rfl, rfl, fun c more hc =>
      numberSign_of_head?_ne fun h => ne_of_isDigit hc (by decide) (Option.some.inj h)⟩

/-- The form of the text of a value: parts between marks, if the value is an array or an object. -/
def ValueText.HasForm (x : ValueText d) : Value → Prop
  | .list _ => ∃ gap es, x = .array gap es
  | .table _ => ∃ gap ms, x = .object gap ms
  | _ => True

/-- Every number has the form of its text, whatever that is: forms tell apart texts, arrays and
objects. -/
theorem hasForm_of_numberOf {negative : Bool} {whole : List Nat} {part : Option (List Nat)}
    {exponent : Option Int} {v : Value} (h : numberOf negative whole part exponent = .ok v)
    (x : ValueText d) : x.HasForm v := by
  revert h
  rw [numberOf.eq_def]
  split
  · split
    · rintro ⟨⟩
    · rintro ⟨⟩
      trivial
  · rintro ⟨⟩
    trivial
  · rintro ⟨⟩
    trivial

/-- What a text begins with is what its front does, or what is behind it if that is empty. -/
theorem forall_head?_append {P : Char → Prop} {front more : List Char}
    (hfront : ∀ c ∈ front.head?, P c)
    (hmore : ∀ c ∈ more.head?, P c) : ∀ c ∈ (front ++ more).head?, P c := by
  cases front with
  | nil => exact hmore
  | cons c front => exact hfront

section

variable {sign w p e : List Char} {c : Char} {negative : Bool} {whole : List Nat}
  {part : Option (List Nat)} {exponent : Option Int}

/-- A sign and a digit begin a number. -/
theorem beginsNumber_of_sign (hsign : sign = [] ∨ sign = ['-']) (hc : c.isDigit = true)
    (more : List Char) : BeginsNumber (sign ++ c :: more) := by
  rcases hsign with rfl | rfl
  · exact ⟨c, more, hc, .inl rfl⟩
  · exact ⟨c, more, hc, .inr rfl⟩

/-- Parts that are taken whatever follows make a number that is. -/
theorem readNumber_parts {v : Value} (hvalue : numberOf negative whole part exponent = .ok v)
    (hne : whole ≠ []) (hsign : ∀ more, numberSign (sign ++ c :: more) = (negative, c :: more))
    (hwhole : TakesSpan wholeSpan (fun c => c.isDigit = false) (c :: w) whole)
    (hpart : TakesSpan fractionSpan (fun c => c.isDigit = false ∧ c ≠ '.') p part)
    (hexponent : ∀ more, EndsNumber more → exponentSpan (e ++ more) = (exponent, more))
    (hp : ∀ c ∈ p.head?, c = '.') (he : ∀ c ∈ e.head?, c = 'e' ∨ c = 'E') {more : List Char}
    (hmore : EndsNumber more) :
    readNumber (sign ++ c :: (w ++ (p ++ e)) ++ more) = .ok (v, more) := by
  -- Each part is taken if what follows does not go on with it, and what follows may be the next
  -- part, the one behind that, or the rest of the text. So the conditions are gathered from the end
  -- to the front.
  have hbehind : ∀ c ∈ (e ++ more).head?, c.isDigit = false ∧ c ≠ '.' :=
    forall_head?_append (fun c hc => by rcases he c hc with rfl | rfl <;> decide)
      fun c hc => ⟨(hmore c hc).1, (hmore c hc).2.1⟩
  have hafter : ∀ c ∈ (p ++ (e ++ more)).head?, c.isDigit = false :=
    forall_head?_append (fun c hc => by rw [hp c hc]; decide) fun c hc => (hbehind c hc).1
  have hspan : wholeSpan (c :: (w ++ (p ++ (e ++ more)))) = (whole, p ++ (e ++ more)) :=
    hwhole _ hafter
  have hassoc : sign ++ c :: (w ++ (p ++ e)) ++ more = sign ++ c :: (w ++ (p ++ (e ++ more))) := by
    simp
  rw [hassoc, readNumber_eq (hsign _) hspan (hpart _ hbehind) (hexponent more hmore),
    if_neg hne, hvalue]
  rfl

end

/-- **A number that is read** is read so whatever follows, as long as it ends there. -/
theorem exists_number {cs rest : List Char} {v : Value} (h : readNumber cs = .ok (v, rest)) :
    ∃ front, BeginsNumber front ∧ cs = front ++ rest ∧ (∀ x : ValueText d, x.HasForm v)
      ∧ ∀ more, EndsNumber more → readNumber (front ++ more) = .ok (v, more) := by
  -- The parts are found one after another, each in what the one before it has left, and put
  -- together again in front of any other text.
  obtain ⟨sign, hsign, hcs, hsigned⟩ := exists_numberSign cs
  rcases hnegative : numberSign cs with ⟨negative, cs₁⟩
  rcases hwhole : wholeSpan cs₁ with ⟨whole, cs₂⟩
  rcases hpart : fractionSpan cs₂ with ⟨part, cs₃⟩
  rcases hexponent : exponentSpan cs₃ with ⟨exponent, cs₄⟩
  rw [readNumber_eq hnegative hwhole hpart hexponent] at h
  split at h
  · cases h
  · next hne =>
    obtain ⟨c, w, hc, rfl, hw⟩ := exists_takesSpan_wholeSpan hwhole hne
    obtain ⟨p, rfl, hp, hfraction⟩ := takesPart_fractionSpan hpart
    obtain ⟨e, rfl, he, hexponent⟩ := takesPart_exponentSpan hexponent
    rw [hnegative] at hcs hsigned
    cases hvalue : numberOf negative whole part exponent with
    | error f =>
      rw [hvalue] at h
      cases h
    | ok v' =>
      rw [hvalue] at h
      obtain ⟨rfl, rfl⟩ := Prod.mk.inj (Except.ok.inj h)
      exact ⟨sign ++ c :: (w ++ (p ++ e)), beginsNumber_of_sign hsign hc _, by rw [hcs]; simp,
        hasForm_of_numberOf hvalue, fun more hmore =>
          readNumber_parts hvalue hne
            (fun more => hsigned c more hc) hw hfraction hexponent hp he hmore⟩

/-! ## Values

A text that stands in front of a document has characters, an outcome at each depth, and the form of
its value. Scalars have no parts, and read the same at every depth. -/

/-- A text of a value at the front of a document. -/
def StandsInFront (depth : Nat) (cs rest : List Char) (v : Value) : Prop :=
  ∃ x : ValueText d, cs = x.chars ++ rest ∧ x.outcome depth = .ok v ∧ x.HasForm v

/-- A scalar that is read so whatever follows it stands in front. -/
theorem standsInFront_scalar {front rest : List Char} {v : Value} (hbegins : BeginsValue front)
    (hread : ∀ inner? more, EndsNumber more →
      readValueWith d inner? (front ++ more) = .ok (v, more))
    (hform : ∀ x : ValueText d, x.HasForm v) (depth : Nat) :
    StandsInFront (d := d) depth (front ++ rest) rest v :=
  ⟨.scalar front (.ok v) fun inner? => ⟨hbegins, hread inner?⟩, rfl, rfl, hform _⟩

theorem hasForm_toValue (x : ValueText d) (t : WireText) : x.HasForm t.toValue := by
  cases t <;> trivial

/-- **A word is read so** whatever follows it. -/
theorem readValueWith_word {p : List Char × Value} (hp : p ∈ wordValues)
    (inner? : Option ValueReader)
    (more : List Char) : readValueWith d inner? (p.1 ++ more) = .ok (p.2, more) := by
  simp only [wordValues, List.mem_cons, List.not_mem_nil, or_false] at hp
  rcases hp with rfl | rfl | rfl | rfl | rfl | rfl <;> rfl

theorem beginsValue_word {p : List Char × Value} (hp : p ∈ wordValues) : BeginsValue p.1 := by
  simp only [wordValues, List.mem_cons, List.not_mem_nil, or_false] at hp
  rcases hp with rfl | rfl | rfl | rfl | rfl | rfl <;>
    exact ⟨_, _, rfl, by decide, by decide, by decide⟩

theorem hasForm_word {p : List Char × Value} (hp : p ∈ wordValues) (x : ValueText d) :
    x.HasForm p.2 := by
  simp only [wordValues, List.mem_cons, List.not_mem_nil, or_false] at hp
  rcases hp with rfl | rfl | rfl | rfl | rfl | rfl <;> trivial

/-- A value that is no text, no array and no object is one of the words or a number. -/
theorem standsInFront_of_readWord {cs rest : List Char} {v : Value}
    (h : readWord cs = .ok (v, rest))
    (depth : Nat) : StandsInFront (d := d) depth cs rest v := by
  rw [readWord] at h
  split at h
  · next word v' hfind =>
    obtain ⟨rfl, rfl⟩ := Prod.mk.inj (Except.ok.inj h)
    have hfront := List.find?_some hfind
    obtain ⟨more, rfl⟩ := List.isPrefixOf_iff_prefix.mp hfront
    have hword := List.mem_of_find?_eq_some hfind
    rw [List.drop_left]
    exact standsInFront_scalar (beginsValue_word hword)
      (fun inner? more _ => readValueWith_word hword inner? more) (hasForm_word hword) depth
  · obtain ⟨front, hbegins, rfl, hform, hread⟩ := exists_number (d := d) h
    refine standsInFront_scalar hbegins.beginsValue (fun inner? more hmore => ?_) hform depth
    rw [(hbegins.append more).readValueWith_eq, hread more hmore]

/-! ### Arrays and objects

Both are read by the same reader of parts between marks. Every part that it takes is followed by a
gap and a comma, or a gap and the mark that closes; collecting them gives the parts of the text,
with the gaps they stand between. -/

section

variable {α β : Type} {reader : PartReader β} {chars : α → List Char} {outcome : α → Except Stop β}
  {close : Char} {what : Complaint} {cs rest : List Char} {bs : List β}

/-- A reader that takes nothing but texts of some kind. -/
def TakesTexts (reader : PartReader β) (chars : α → List Char)
    (outcome : α → Except Stop β) : Prop :=
  ∀ {cs rest b}, reader cs = .ok (b, rest) → ∃ a, cs = chars a ++ rest ∧ outcome a = .ok b

/-- One part is read, and it is the last or others follow. -/
theorem readParts_eq_ok {n : Nat} (h : readParts reader close what (n + 1) cs = .ok (bs, rest)) :
    ∃ b left, reader cs = .ok (b, left)
      ∧ (skipGap left = close :: rest ∧ bs = [b]
        ∨ ∃ more bs', skipGap left = ',' :: more
          ∧ readParts reader close what n (skipGap more) = .ok (bs', rest) ∧ bs = b :: bs') := by
  obtain ⟨⟨b, left⟩, hread, hleft⟩ := exists_of_bind_eq_ok h
  refine ⟨b, left, hread, ?_⟩
  dsimp only at hleft
  -- Behind a part stands the mark that closes or a comma; anything else is a fault.
  cases hskip : skipGap left with
  | nil =>
    rw [hskip] at hleft
    cases hleft
  | cons c more =>
    rw [hskip] at hleft
    dsimp only at hleft
    split at hleft
    · next hc =>
      obtain ⟨rfl, rfl⟩ := Prod.mk.inj (Except.ok.inj hleft)
      exact .inl ⟨by rw [hc], rfl⟩
    · split at hleft
      · next hc =>
        obtain ⟨⟨bs', rest'⟩, hmore, hbs⟩ := exists_of_bind_eq_ok hleft
        obtain ⟨rfl, rfl⟩ := Prod.mk.inj (Except.ok.inj hbs)
        exact .inr ⟨more, bs', by rw [hc], hmore, rfl⟩
      · cases hleft

/-- Parts that are read up to the mark that closes them stand behind each other. -/
theorem exists_behind (hpart : TakesTexts reader chars outcome) {n : Nat}
    (h : readParts reader close what n cs = .ok (bs, rest)) (gap : Gap) :
    ∃ p ps, p.before = gap ∧ cs = chars p.part ++ (p.after.chars ++ behind chars close rest ps)
      ∧ ((p :: ps).mapM fun q : Placed α => outcome q.part) = .ok bs := by
  -- Along the parts. The gap before a part belongs to it but is behind the reader already, so it is
  -- an argument.
  induction n generalizing cs bs gap with
  | zero => cases h
  | succ n ih =>
    obtain ⟨b, left, hread, hleft⟩ := readParts_eq_ok h
    obtain ⟨a, rfl, ha⟩ := hpart hread
    obtain ⟨after, hafter⟩ := exists_gap left
    rcases hleft with ⟨hskip, rfl⟩ | ⟨more, bs', hskip, hmore, rfl⟩
    · refine ⟨⟨gap, a, after⟩, [], rfl, ?_, ?_⟩
      · rw [behind, ← hskip, ← hafter]
      · rw [List.mapM_cons, ha]
        rfl
    · obtain ⟨gap', hgap'⟩ := exists_gap more
      obtain ⟨p, ps, hbefore, hcs, hps⟩ := ih hmore gap'
      refine ⟨⟨gap, a, after⟩, p :: ps, rfl, ?_, ?_⟩
      · rw [behind, hbefore, ← hcs, ← hgap', ← hskip, ← hafter]
      · rw [List.mapM_cons, ha, hps]
        rfl

/-- Parts that are read between two marks are enclosed by them. -/
theorem exists_enclosed (outcome : α → Except Stop β) (hpart : TakesTexts reader chars outcome)
    {n : Nat} (h : readParts reader close what n (skipGap cs) = .ok (bs, rest)) :
    ∃ ps, cs = enclosed chars close .none rest ps
      ∧ (ps.mapM fun q : Placed α => outcome q.part) = .ok bs := by
  obtain ⟨gap, hcs⟩ := exists_gap cs
  obtain ⟨p, ps, hbefore, hskip, hps⟩ := exists_behind hpart h gap
  exact ⟨p :: ps, by rw [enclosed, hbefore, ← hskip, ← hcs], hps⟩

theorem exists_enclosed_nil (chars : α → List Char) (h : skipGap cs = close :: rest) :
    ∃ gap, cs = enclosed chars close gap rest [] := by
  obtain ⟨gap, hcs⟩ := exists_gap cs
  exact ⟨gap, by rw [enclosed, ← h, ← hcs]⟩

end

section

variable {depth : Nat} {cs rest : List Char}
  (hinner : ∀ {cs rest v}, readValue d depth cs = .ok (v, rest) →
    StandsInFront (d := d) depth cs rest v)

include hinner

/-- **An array that is read** is the text of an array, and its elements are texts of theirs. -/
theorem standsInFront_array {vs : List Value}
    (h : readArray (readValue d depth) cs = .ok (vs, rest)) :
    StandsInFront (d := d) (depth + 1) ('[' :: cs) rest (.list vs) := by
  have hpart :
      TakesTexts (readValue d depth) ValueText.chars fun x : ValueText d => x.outcome depth := by
    intro cs rest v h
    obtain ⟨x, hcs, hx, -⟩ := hinner h
    exact ⟨x, hcs, hx⟩
  have hall : ∃ gap es, cs = enclosed ValueText.chars ']' gap rest es
      ∧ (es.mapM fun e : Placed (ValueText d) => e.part.outcome depth) = .ok vs := by
    -- Empty brackets hold a gap and no parts.
    by_cases hclose : (skipGap cs).head? = some ']'
    · obtain ⟨r, hskip⟩ := List.head?_eq_some_iff.mp hclose
      rw [readArray_of_close _ hskip] at h
      obtain ⟨rfl, rfl⟩ := Prod.mk.inj (Except.ok.inj h)
      obtain ⟨gap, hcs⟩ := exists_enclosed_nil ValueText.chars hskip
      exact ⟨gap, [], hcs, rfl⟩
    · rw [readArray_of_head?_ne _ hclose] at h
      exact ⟨.none, exists_enclosed (fun x : ValueText d => x.outcome depth) hpart h⟩
  obtain ⟨gap, es, rfl, hes⟩ := hall
  refine ⟨.array gap es, ?_, ?_, gap, es, rfl⟩
  · show _ = '[' :: enclosed ValueText.chars ']' gap [] es ++ rest
    rw [List.cons_append, enclosed_append, List.nil_append]
  · show (es.mapM fun e : Placed (ValueText d) => e.part.outcome depth).map Value.list = _
    rw [hes]
    rfl

/-- **A member that is read** is the text of a member: a name, a colon between gaps, and a value. -/
theorem exists_memberText {e : Value × Value}
    (h : readMember d (readValue d depth) cs = .ok (e, rest)) :
    ∃ m : MemberText d, cs = m.chars ++ rest ∧ m.outcome depth = .ok e := by
  obtain ⟨⟨name, left⟩, hname, h⟩ := exists_of_bind_eq_ok h
  obtain ⟨⟨v, rest'⟩, hv, h⟩ := exists_of_bind_eq_ok h
  obtain ⟨rfl, rfl⟩ := Prod.mk.inj (Except.ok.inj h)
  obtain ⟨x, hleft, hx, -⟩ := hinner hv
  rw [readName.eq_def] at hname
  split at hname
  · obtain ⟨⟨label, left'⟩, hlabel, hname⟩ := exists_of_bind_eq_ok hname
    obtain ⟨q, rfl, rfl⟩ := exists_quotedText hlabel
    obtain ⟨beforeColon, hleft'⟩ := exists_gap left'
    dsimp only at hname
    split at hname
    · next more hskip =>
      obtain ⟨rfl, rfl⟩ := Prod.mk.inj (Except.ok.inj hname)
      obtain ⟨afterColon, hmore⟩ := exists_gap more
      refine ⟨⟨q, beforeColon, afterColon, x⟩, ?_, ?_⟩
      · rw [hskip] at hleft'
        rw [hleft] at hmore
        rw [hleft', hmore]
        simp [MemberText.chars]
      · rw [MemberText.outcome, hx]
        rfl
    · cases hname
  · cases hname

/-- **An object that is read** is the text of an object. Its members are kept apart from the table
that they make, where a name that comes twice stands once. -/
theorem standsInFront_object {t : Table} (h : readObject d (readValue d depth) cs = .ok (t, rest)) :
    StandsInFront (d := d) (depth + 1) ('\x7b' :: cs) rest (.table t) := by
  have hall : ∃ gap ms pairs, cs = enclosed MemberText.chars '\x7d' gap rest ms
      ∧ (ms.mapM fun m : Placed (MemberText d) => m.part.outcome depth) = .ok pairs
      ∧ Table.ofPairs pairs = t := by
    by_cases hclose : (skipGap cs).head? = some '\x7d'
    · obtain ⟨r, hskip⟩ := List.head?_eq_some_iff.mp hclose
      rw [readObject_of_close _ _ hskip] at h
      obtain ⟨rfl, rfl⟩ := Prod.mk.inj (Except.ok.inj h)
      obtain ⟨gap, hcs⟩ := exists_enclosed_nil MemberText.chars hskip
      exact ⟨gap, [], [], hcs, rfl, rfl⟩
    · rw [readObject_of_head?_ne _ _ hclose] at h
      obtain ⟨⟨pairs, rest'⟩, hparts, h⟩ := exists_of_bind_eq_ok
        (f := fun p : Table × List Char => .ok (Table.ofPairs p.1, p.2)) h
      obtain ⟨rfl, rfl⟩ := Prod.mk.inj (Except.ok.inj h)
      obtain ⟨ms, hcs, hms⟩ :=
        exists_enclosed (MemberText.outcome depth) (exists_memberText hinner) hparts
      exact ⟨.none, ms, pairs, hcs, hms, rfl⟩
  obtain ⟨gap, ms, pairs, rfl, hms, rfl⟩ := hall
  refine ⟨.object gap ms, ?_, ?_, gap, ms, rfl⟩
  · show _ = '\x7b' :: enclosed MemberText.chars '\x7d' gap [] ms ++ rest
    rw [List.cons_append, enclosed_append, List.nil_append]
  · show (ms.mapM fun m : Placed (MemberText d) => m.part.outcome depth).map _ = _
    rw [hms]
    rfl

end

/-- A value stands in front if its parts do. -/
theorem standsInFront_of_readValueWith {inner? : Option ValueReader} {depth : Nat}
    {cs rest : List Char} {v : Value} (h : readValueWith d inner? cs = .ok (v, rest))
    (harray : ∀ {inner cs vs}, inner? = some inner → readArray inner cs = .ok (vs, rest) →
      StandsInFront (d := d) depth ('[' :: cs) rest (.list vs))
    (hobject : ∀ {inner cs t}, inner? = some inner → readObject d inner cs = .ok (t, rest) →
      StandsInFront (d := d) depth ('\x7b' :: cs) rest (.table t)) :
    StandsInFront (d := d) depth cs rest v := by
  -- By the first character: a quotation mark, a bracket, a brace, or anything else. Arrays and
  -- objects need depth to be left.
  rw [readValueWith.eq_def] at h
  split at h
  · obtain ⟨⟨t, rest'⟩, ht, h⟩ := exists_of_bind_eq_ok h
    obtain ⟨rfl, rfl⟩ := Prod.mk.inj (Except.ok.inj h)
    obtain ⟨q, rfl, rfl⟩ := exists_quotedText ht
    exact ⟨.quoted q, rfl, rfl, hasForm_toValue _ _⟩
  · split at h
    · cases h
    · obtain ⟨⟨vs, rest'⟩, hvs, h⟩ := exists_of_bind_eq_ok h
      obtain ⟨rfl, rfl⟩ := Prod.mk.inj (Except.ok.inj h)
      exact harray rfl hvs
  · split at h
    · cases h
    · obtain ⟨⟨t, rest'⟩, ht, h⟩ := exists_of_bind_eq_ok h
      obtain ⟨rfl, rfl⟩ := Prod.mk.inj (Except.ok.inj h)
      exact hobject rfl ht
  · exact standsInFront_of_readWord h depth

/-- **Every value that is read has a text of this kind**, in front of what is left. -/
theorem standsInFront_of_readValue {depth : Nat} {cs rest : List Char} {v : Value}
    (h : readValue d depth cs = .ok (v, rest)) : StandsInFront (d := d) depth cs rest v := by
  -- By induction on the levels left: what is inside brackets is read with one level less.
  induction depth generalizing cs rest v with
  | zero => exact standsInFront_of_readValueWith h nofun nofun
  | succ depth ih =>
    refine standsInFront_of_readValueWith h (fun hinner hvs => ?_) fun hinner ht => ?_
    · obtain rfl := Option.some.inj hinner
      exact standsInFront_array ih hvs
    · obtain rfl := Option.some.inj hinner
      exact standsInFront_object ih ht

namespace ValueText

/-- A text of a value is given by its characters. -/
theorem eq_of_chars_eq {x y : ValueText d} (h : x.chars = y.chars) : x = y := by
  obtain ⟨chars, outcome, hx⟩ := x
  obtain ⟨chars', outcome', hy⟩ := y
  obtain rfl : chars = chars' := h
  obtain rfl : outcome = outcome' := by
    funext depth
    have hreadx := (hx depth).reads [] nofun
    have hready := (hy depth).reads [] nofun
    have heq := hreadx.symm.trans hready
    revert heq
    cases outcome depth <;> cases outcome' depth <;> simp [Except.map]
  rfl

/-- **The text of an object is that of its members**, and the text of an array that of its elements.
-/
theorem hasForm_of_outcome {x : ValueText d} {depth : Nat} {v : Value}
    (h : x.outcome depth = .ok v) :
    x.HasForm v := by
  have hread := (x.spells depth).reads [] nofun
  rw [h] at hread
  -- The text is read as its value, and what is read has a text with parts; both have the same
  -- characters.
  obtain ⟨y, hchars, -, hform⟩ := standsInFront_of_readValue hread
  rw [List.append_nil, List.append_nil] at hchars
  rwa [eq_of_chars_eq hchars]

/-- **Every document that can be read is one of these lines.** -/
theorem exists_line {line : String} {v : Value} (h : read d line = .ok v) :
    ∃ x : Placed (ValueText d), line = ValueText.line x ∧ x.part.HasForm v := by
  have hread : readDocument d line.toList = .ok v := by
    revert h
    rw [read]
    cases readDocument d line.toList with
    | error f => rintro ⟨⟩
    | ok v' => exact fun h => congrArg Except.ok (Except.ok.inj h)
  rw [readDocument] at hread
  split at hread
  · cases hread
  · obtain ⟨⟨v', rest⟩, hvalue, hread⟩ := exists_of_bind_eq_ok hread
    -- In front of the value and behind it there are gaps, and nothing else.
    obtain ⟨before, hline⟩ := exists_gap line.toList
    obtain ⟨x, hchars, -, hform⟩ := standsInFront_of_readValue hvalue
    obtain ⟨after, hrest⟩ := exists_gap rest
    dsimp only at hread
    split at hread
    · next hskip =>
      obtain rfl := Except.ok.inj hread
      refine ⟨⟨before, x, after⟩, ?_, hform⟩
      rw [hskip, List.append_nil] at hrest
      rw [ValueText.line, ← hrest, ← hchars, ← hline, String.ofList_toList]
    · cases hread

end ValueText

end AgentClient.Json
