import AgentClient.Json.Reader
import AgentClient.Json.Writer
import AgentClient.Proofs.Number.Magnitude
import AgentClient.Proofs.Number.Numerals
import AgentClient.Proofs.Text.Surrogates

/-!
# Proofs/Json/Scalars — texts and numbers read back from a document

A text is written code point by code point and read code unit by code unit; joining the pairs of
these gives the code points back, and half of a pair alone if the reader takes it
(`readText_points`).  A number is read as far as its parts go, so what follows must not continue it:
a whole one as itself (`readNumber_intText`), a floating-point one as free text is read
(`readNumber_pointed`). -/

namespace AgentClient

namespace Json

open Number

/-! ## Texts

What is written of a code point is a character, a short escape, or one or two code escapes, and the
reader makes one or two code units of it. The units are shown to be those of the code point; that
joining them gives the code points back was shown for surrogates. `plain` says which characters
stand for themselves, so ASCII is one case of this, and a text with every character as it is
another. -/

/-- Whether a reader takes a text: one that is no string only if half of a pair may stand alone. -/
def Dialect.Takes (d : Dialect) : WireText → Prop
  | .plain _ => True
  | .broken _ => d.loneSurrogates = true

/-- A code point inside a text, where `plain` says which characters may stand for themselves. -/
def pointChars (plain : Char → Bool) (n : Nat) : List Char :=
  match Text.charOf? n with
  | some c => textChar plain c
  | none => unitEscape n

section

variable (start : List Char)

theorem readUnits_mark (cs : List Char) : readUnits start ('"' :: cs) = .ok ([], cs) := by
  rw [readUnits.eq_def]
  rfl

/-- A character that stands for itself is read as its unit. -/
theorem readUnits_plain {c : Char} (hmark : c ≠ '"') (hslash : c ≠ '\\')
    (hlow : 0x20 ≤ c.toNat) (cs : List Char) :
    readUnits start (c :: cs)
      = (readUnits start cs).map fun (units, rest) => (c.toNat :: units, rest) := by
  rw [readUnits.eq_def]
  simp only [if_neg hmark, if_neg hslash, if_neg (Nat.not_lt.mpr hlow)]

/-- An escape of one letter is read as the unit of its character. -/
theorem readUnits_short {e c : Char} (he : shortEscape? e = some c) (cs : List Char) :
    readUnits start ('\\' :: e :: cs)
      = (readUnits start cs).map fun (units, rest) => (c.toNat :: units, rest) := by
  have hunit : e ≠ 'u' := by
    rintro rfl
    exact absurd (he.symm.trans (by decide : shortEscape? 'u' = none)) (Option.some_ne_none c)
  rw [readUnits.eq_def]
  simp only [if_neg hunit, he]
  rfl

/-- Four digits are read as a code unit, if something follows them. -/
theorem readUnits_code {h i j k : Char} {unit : Nat} (hvalue : Text.hexValue4? h i j k = some unit)
    {cs : List Char} (hcs : cs ≠ []) :
    readUnits start ('\\' :: 'u' :: h :: i :: j :: k :: cs)
      = (readUnits start cs).map fun (units, rest) => (unit :: units, rest) := by
  have hsome : cs.isEmpty = false := List.isEmpty_eq_false_iff.mpr hcs
  rw [readUnits.eq_def]
  simp only [if_true, hvalue, hsome]
  rfl

/-- The escape of a code unit is read as that, if something follows it. -/
theorem readUnits_unitEscape {u : Nat} (hu : u < 0x10000) {cs : List Char} (hcs : cs ≠ []) :
    readUnits start (unitEscape u ++ cs)
      = (readUnits start cs).map fun (units, rest) => (u :: units, rest) := by
  obtain ⟨h, i, j, k, hdigits, hvalue⟩ := Text.hexValue4?_hexDigits hu
  rw [unitEscape, hdigits]
  exact readUnits_code start hvalue hcs

theorem unitEscape_append_ne_nil (u : Nat) (cs : List Char) : unitEscape u ++ cs ≠ [] :=
  List.cons_ne_nil _ _

/-- An escape of four digits, or of two times four, is read as the units of its character. -/
theorem readUnits_codeEscape (c : Char) {cs : List Char} (hcs : cs ≠ []) :
    readUnits start (codeEscape c ++ cs)
      = (readUnits start cs).map fun (units, rest) => (Text.charUnits c ++ units, rest) := by
  have hmax := Text.toNat_lt c
  rw [codeEscape, Text.charUnits]
  -- A character beyond the first plane is written as two units, and read as two.
  by_cases hc : c.toNat < 0x10000
  · rw [if_pos hc, if_pos hc]
    exact readUnits_unitEscape start hc hcs
  · rw [if_neg hc, if_neg hc, List.append_assoc,
      readUnits_unitEscape start (by omega) (unitEscape_append_ne_nil _ cs),
      readUnits_unitEscape start (by omega) hcs]
    cases readUnits start cs <;> rfl

/-- The letter of a short escape that is written is read as one for the same character. -/
theorem shortEscape?_of_letter {c letter : Char} (h : shortEscapeLetter? c = some letter) :
    shortEscape? letter = some c := by
  revert h
  rw [shortEscapeLetter?]
  split
  · next hc =>
    rintro ⟨⟩
    exact if_pos (by rw [hc, Bool.true_or])
  repeat' split
  all_goals first | (subst_vars; rintro ⟨⟩; rfl) | exact nofun

/-- What has a short escape is one code unit. -/
theorem toNat_lt_of_letter {c letter : Char} (h : shortEscapeLetter? c = some letter) :
    c.toNat < 0x10000 := by
  revert h
  rw [shortEscapeLetter?]
  split
  · next hc =>
    rw [Bool.or_eq_true, decide_eq_true_eq, decide_eq_true_eq] at hc
    rcases hc with rfl | rfl <;> exact fun _ => by decide
  repeat' split
  all_goals first | (subst_vars; exact fun _ => by decide) | exact nofun

section

variable {plain : Char → Bool}

/-- **A character reads back** as its code units, if something follows it. -/
theorem readUnits_textChar (hplain : ∀ c, plain c = true → 0x20 ≤ c.toNat) (c : Char)
    {cs : List Char} (hcs : cs ≠ []) :
    readUnits start (textChar plain c ++ cs)
      = (readUnits start cs).map fun (units, rest) =>
          (Text.writtenUnits plain c ++ units, rest) := by
  rw [textChar]
  -- The ways to write a character in their order: a letter, the character itself, or its code.
  cases hletter : shortEscapeLetter? c with
  | some letter =>
    rw [Text.writtenUnits_of_lt plain (toNat_lt_of_letter hletter)]
    exact readUnits_short start (shortEscape?_of_letter hletter) cs
  | none =>
    have hmark : c ≠ '"' := by
      rintro rfl
      exact absurd hletter (by decide)
    have hslash : c ≠ '\\' := by
      rintro rfl
      exact absurd hletter (by decide)
    dsimp only
    rw [Text.writtenUnits]
    cases hc : plain c with
    | true => exact readUnits_plain start hmark hslash (hplain c hc) cs
    | false => exact readUnits_codeEscape start c hcs

/-- A code point reads back likewise; half of a pair is written as itself. -/
theorem readUnits_pointChars (hplain : ∀ c, plain c = true → 0x20 ≤ c.toNat) (n : Nat)
    {cs : List Char} (hcs : cs ≠ []) :
    readUnits start (pointChars plain n ++ cs)
      = (readUnits start cs).map fun (units, rest) => (Text.pointUnits plain n ++ units, rest) := by
  rw [pointChars, Text.pointUnits]
  -- A point that is no character is half of a surrogate pair, and always written as its code.
  cases hc : Text.charOf? n with
  | some c => exact readUnits_textChar start hplain c hcs
  | none =>
    have hsurrogate := Text.isSurrogate_of_charOf? hc
    simp only [Text.isSurrogate, Text.isHighSurrogate, Text.isLowSurrogate, Bool.or_eq_true,
      Bool.and_eq_true, decide_eq_true_eq] at hsurrogate
    exact readUnits_unitEscape start (by omega) hcs

/-- **A text reads back**, up to its closing mark, as the code units of its code points. -/
theorem readUnits_points (hplain : ∀ c, plain c = true → 0x20 ≤ c.toNat) (points : List Nat)
    (rest : List Char) :
    readUnits start (points.flatMap (pointChars plain) ++ '"' :: rest)
      = .ok (points.flatMap (Text.pointUnits plain), rest) := by
  induction points with
  | nil => exact readUnits_mark start rest
  | cons n points ih =>
    rw [List.flatMap_cons, List.flatMap_cons, List.append_assoc,
      readUnits_pointChars start hplain n
        (List.append_ne_nil_of_right_ne_nil _ (List.cons_ne_nil _ _)), ih]
    rfl

/-- **A text that can be read reads back**, whatever it holds, if no control stands for itself in
what is written of it and the reader takes it. -/
theorem readText_points (hplain : ∀ c, plain c = true → 0x20 ≤ c.toNat) {d : Dialect} {t : WireText}
    (ht : t.IsJoined) (hd : d.Takes t) (rest : List Char) :
    readText d start (t.points.flatMap (pointChars plain) ++ '"' :: rest) = .ok (t, rest) := by
  -- A string has no surrogates, and any other text is taken by assumption.
  have htaken : (!d.loneSurrogates && t.points.any Text.isSurrogate) = false := by
    cases t with
    | broken points => rw [hd, Bool.not_true, Bool.false_and]
    | plain s =>
      rw [WireText.points, List.any_map, List.any_eq_false.mpr, Bool.and_false]
      exact fun c _ => Bool.eq_false_iff.mp (Text.isSurrogate_toNat c)
  rw [readText, readUnits_points start hplain]
  dsimp only [bind, Except.bind]
  rw [Text.joinPairs_flatMap_pointUnits plain ht.areJoined, htaken, if_neg Bool.false_ne_true,
    ht.ofPoints_eq]
  rfl

/-- Characters are written as their code points. -/
theorem flatMap_textChar (plain : Char → Bool) (s : String) :
    s.toList.flatMap (textChar plain)
      = (WireText.plain s).points.flatMap (pointChars plain) := by
  have hpoint : ∀ c : Char, pointChars plain c.toNat = textChar plain c := by
    intro c
    rw [pointChars, Text.charOf?_toNat]
  rw [WireText.points, List.flatMap_map]
  simp only [hpoint]

/-- So a string reads back, whoever reads it. -/
theorem readText_textChars (hplain : ∀ c, plain c = true → 0x20 ≤ c.toNat) (d : Dialect)
    (s : String) (rest : List Char) :
    readText d start (s.toList.flatMap (textChar plain) ++ '"' :: rest)
      = .ok (.plain s, rest) := by
  rw [flatMap_textChar]
  exact readText_points start hplain (WireText.isJoined_plain s) trivial rest

end

end

/-- The text of a document is its points between quotation marks, whether it is a string or broken.
-/
theorem toList_asciiText (t : WireText) :
    (asciiText t).toList = '"' :: (t.points.flatMap (pointChars isAsciiPlain) ++ ['"']) := by
  cases t with
  | plain s =>
    rw [asciiText, String.toList_ofList, textChars, flatMap_textChar]
    rfl
  | broken points =>
    rw [asciiText, String.toList_ofList]
    rfl

theorem le_toNat_of_isAsciiPlain (c : Char) (h : isAsciiPlain c = true) : 0x20 ≤ c.toNat := by
  rw [isAsciiPlain, Bool.and_eq_true, decide_eq_true_eq] at h
  exact h.1

/-- A text in ASCII reads back. -/
theorem readText_asciiText {d : Dialect} (start : List Char) {t : WireText} (ht : t.IsJoined)
    (hd : d.Takes t) (rest : List Char) :
    readText d start (t.points.flatMap (pointChars isAsciiPlain) ++ '"' :: rest) = .ok (t, rest) :=
  readText_points start le_toNat_of_isAsciiPlain ht hd rest

/-! ### Code units

Whatever is read, the units are numbers of code points: four digits make less than the first that
has five. -/

/-- A hexadecimal digit has four bits. -/
theorem hexValue?_lt {c : Char} {n : Nat} (h : Text.hexValue? c = some n) : n < 16 := by
  have hnat : ∀ {a b : Char}, a ≤ b → a.toNat ≤ b.toNat := fun h => h
  revert h
  rw [Text.hexValue?]
  split
  · next hc =>
    have hhigh : c.toNat ≤ 57 := hnat hc.2
    rintro ⟨⟩
    omega
  · split
    · next hc =>
      have hhigh : c.toNat ≤ 102 := hnat hc.2
      rintro ⟨⟩
      omega
    · split
      · next hc =>
        have hhigh : c.toNat ≤ 70 := hnat hc.2
        rintro ⟨⟩
        omega
      · exact nofun

/-- So four of them have sixteen. -/
theorem hexValue4?_lt {a b c d : Char} {n : Nat} (h : Text.hexValue4? a b c d = some n) :
    n < 0x10000 := by
  obtain ⟨i, hi, h⟩ := Option.bind_eq_some_iff.mp h
  obtain ⟨j, hj, h⟩ := Option.bind_eq_some_iff.mp h
  obtain ⟨k, hk, h⟩ := Option.bind_eq_some_iff.mp h
  obtain ⟨l, hl, h⟩ := Option.bind_eq_some_iff.mp h
  have := hexValue?_lt hi
  have := hexValue?_lt hj
  have := hexValue?_lt hk
  have := hexValue?_lt hl
  obtain rfl := Option.some.inj h
  omega

/-- A code unit in front of others. -/
theorem forall_of_map_cons {x : Except Stop (List Nat × List Char)} {u : Nat} {units : List Nat}
    {rest : List Char} (h : (x.map fun (us, r) => (u :: us, r)) = .ok (units, rest))
    {P : Nat → Prop}
    (hu : P u) (hx : ∀ {us r}, x = .ok (us, r) → ∀ v ∈ us, P v) : ∀ v ∈ units, P v := by
  obtain _ | ⟨us, r⟩ := x
  · exact absurd h nofun
  · obtain ⟨rfl, -⟩ := Prod.mk.inj (Except.ok.inj h)
    exact List.forall_mem_cons.mpr ⟨hu, hx rfl⟩

/-- What is read as a unit is a code point. -/
theorem lt_of_mem_readUnits {start cs rest : List Char} {units : List Nat}
    (h : readUnits start cs = .ok (units, rest)) : ∀ u ∈ units, u < 0x110000 := by
  -- a unit is read of four digits, of one letter, or of a character
  fun_induction readUnits start cs generalizing units rest with
  | case2 => exact (Prod.mk.inj (Except.ok.inj h)).1 ▸ nofun
  | case6 i j k l more unit hvalue _ _ ih =>
    exact forall_of_map_cons h (Nat.lt_trans (hexValue4?_lt hvalue) (by decide)) ih
  | case9 e more _ c _ _ ih => exact forall_of_map_cons h (Text.toNat_lt c) ih
  | case11 c more _ _ _ ih => exact forall_of_map_cons h (Text.toNat_lt c) ih
  | _ => exact absurd h nofun

/-! ## Words

The reader tells kinds of values apart by their first character, and words and numbers are what is
left. -/

/-- What begins with no mark of a text, an array or an object is taken for a word or a number. -/
theorem readValueWith_eq_readWord (d : Dialect) (inner? : Option ValueReader) {c : Char}
    (hmark : c ≠ '"') (hopen : c ≠ '[') (hbrace : c ≠ '\x7b') (cs : List Char) :
    readValueWith d inner? (c :: cs) = readWord (c :: cs) := by
  rw [readValueWith.eq_def]
  split
  · next h => exact absurd (List.cons.inj h).1 hmark
  · next h => exact absurd (List.cons.inj h).1 hopen
  · next h => exact absurd (List.cons.inj h).1 hbrace
  · rfl

/-! ## Whole numbers

A number is cut into its parts by four spans, each of which is shown to stop where its part ends.
The value is then made of the parts (`numberOf`), which is the one place where a number can be
refused for its length. -/

/-- What no number goes on with. -/
def EndsNumber (rest : List Char) : Prop :=
  ∀ c ∈ rest.head?, c.isDigit = false ∧ c ≠ '.' ∧ c ≠ 'e' ∧ c ≠ 'E'

variable {rest : List Char}

/-- Digits are read as far as they go. -/
theorem digitSpan_append {ds : List Char} (hds : AreDigits ds)
    (hrest : ∀ c ∈ rest.head?, c.isDigit = false) :
    digitSpan (ds ++ rest) = (digitValues ds, rest) := by
  induction ds with
  | nil =>
    cases rest with
    | nil => rfl
    | cons c rest => rw [List.nil_append, digitSpan, asciiDigit?_of_not_isDigit (hrest c rfl)]; rfl
  | cons d ds ih =>
    rw [AreDigits, List.forall_mem_cons] at hds
    rw [List.cons_append, digitSpan, asciiDigit?_of_isDigit hds.1]
    dsimp only
    rw [ih hds.2]
    rfl

/-- A whole part is read as far as its digits go. -/
theorem wholeSpan_append {whole : List Char} (hw : IsWhole whole)
    (hrest : ∀ c ∈ rest.head?, c.isDigit = false) :
    wholeSpan (whole ++ rest) = (digitValues whole, rest) := by
  rw [wholeSpan.eq_def]
  split
  · next cs hzero =>
    -- a zero in front is the only digit
    obtain ⟨c, more, rfl⟩ := List.exists_cons_of_ne_nil hw.ne_nil
    obtain ⟨rfl, hcs⟩ := List.cons.inj hzero
    have hnil : more = [] := by
      by_contra hne
      refine hw.head_ne ?_ rfl
      rw [List.length_cons]
      exact Nat.succ_lt_succ (List.length_pos_iff.mpr hne)
    subst hnil
    rw [← hcs]
    rfl
  · exact digitSpan_append hw.areDigits hrest

theorem fractionSpan_of_head?_ne {cs : List Char} (h : cs.head? ≠ some '.') :
    fractionSpan cs = (none, cs) := by
  rw [fractionSpan.eq_def]
  split
  · exact absurd rfl h
  · rfl

theorem fractionSpan_of_endsNumber (h : EndsNumber rest) : fractionSpan rest = (none, rest) :=
  fractionSpan_of_head?_ne fun hhead => (h '.' hhead).2.1 rfl

/-- Behind a number there is no exponent. -/
theorem exponentSpan_of_endsNumber (h : EndsNumber rest) : exponentSpan rest = (none, rest) := by
  rw [exponentSpan.eq_def]
  cases rest with
  | nil => rfl
  | cons c rest =>
    obtain ⟨-, -, hlower, hupper⟩ := h c rfl
    exact if_neg (by simp [hlower, hupper])

/-- The sign of a number, and what is behind it. -/
def numberSign (cs : List Char) : Bool × List Char :=
  match cs with
  | '-' :: rest => (true, rest)
  | _ => (false, cs)

theorem numberSign_of_head?_ne {cs : List Char} (h : cs.head? ≠ some '-') :
    numberSign cs = (false, cs) := by
  rw [numberSign.eq_def]
  split
  · exact absurd rfl h
  · rfl

theorem numberSign_append (negative : Bool) {c : Char} (hc : c ≠ '-') (cs : List Char) :
    numberSign ((if negative then ['-'] else []) ++ c :: cs) = (negative, c :: cs) := by
  cases negative with
  | true => rfl
  | false => exact numberSign_of_head?_ne fun h => hc (Option.some.inj h)

/-- The value that the parts of a number make. -/
def numberOf (negative : Bool) (whole : List Nat) :
    (part : Option (List Nat)) → (exponent : Option Int) → Except Stop Value
  | none, none =>
    if maxDigits < whole.length then .error (.tooManyDigits whole.length)
    else .ok (.int (if negative then -(ofDigits whole : Int) else ofDigits whole))
  | some part, none =>
    .ok (.float (.ofDecimal negative (ofDigits (whole ++ part)) (-part.length)))
  | part, some exponent =>
    .ok (.float (.ofDecimal negative (ofDigits (whole ++ part.getD []))
      (exponent - (part.getD []).length)))

/-- **A number is read by its parts**: the sign, the whole part, the fraction and the exponent. -/
theorem readNumber_eq {cs rest more last left : List Char} {negative : Bool} {whole : List Nat}
    {part : Option (List Nat)} {exponent : Option Int} (hsign : numberSign cs = (negative, rest))
    (hwhole : wholeSpan rest = (whole, more)) (hpart : fractionSpan more = (part, last))
    (hexponent : exponentSpan last = (exponent, left)) :
    readNumber cs
      = if whole = [] then .error (.malformed .noValue cs)
        else (numberOf negative whole part exponent).map fun v => (v, left) := by
  rw [readNumber.eq_def]
  split
  next negative' rest' hsign' =>
    obtain ⟨rfl, rfl⟩ := Prod.mk.inj (hsign'.symm.trans hsign)
    rw [hwhole]
    cases whole with
    | nil => rfl
    | cons v whole =>
      dsimp only
      rw [hpart]
      dsimp only
      rw [hexponent, if_neg (List.cons_ne_nil v whole)]
      cases exponent with
      | some e => cases part <;> rfl
      | none =>
        cases part with
        | some ds => rfl
        | none =>
          dsimp only [numberOf]
          split <;> rfl

/-- The digits of a number, with a sign before them or without one, are read as it. -/
theorem readNumber_digits (negative : Bool) {m : Nat} (hm : (digits m).length ≤ maxDigits)
    (hrest : EndsNumber rest) :
    readNumber ((if negative then ['-'] else []) ++ (digits m ++ rest))
      = .ok (.int (if negative then -(m : Int) else m), rest) := by
  have hspan := wholeSpan_append (isWhole_digits m) fun c hc => (hrest c hc).1
  have hvalue := ofDigits_digitValues_digits m
  obtain ⟨c, cs, hcs⟩ := List.exists_cons_of_ne_nil (digits_ne_nil m)
  have hc : c ≠ '-' := by
    rintro rfl
    exact absurd (areDigits_digits m '-' (hcs ▸ List.mem_cons_self)) (by decide)
  have hlen : ¬ maxDigits < (digitValues (digits m)).length := by
    rw [digitValues, List.length_map]
    exact Nat.not_lt.mpr hm
  have hne : digitValues (digits m) ≠ [] := mt List.map_eq_nil_iff.mp (digits_ne_nil m)
  have hsign : numberSign ((if negative then ['-'] else []) ++ (digits m ++ rest))
      = (negative, digits m ++ rest) := by
    rw [hcs]
    exact numberSign_append negative hc _
  rw [readNumber_eq hsign hspan (fractionSpan_of_endsNumber hrest)
    (exponentSpan_of_endsNumber hrest), if_neg hne, numberOf, if_neg hlen, hvalue]
  rfl

theorem fractionSpan_append {part more : List Char} (h : IsFraction part)
    (hmore : ∀ c ∈ more.head?, c.isDigit = false ∧ c ≠ '.') :
    fractionSpan (part ++ more) = (part.head?.map fun _ => fractionDigits part, more) := by
  cases h with
  | absent => exact fractionSpan_of_head?_ne fun hhead => (hmore '.' hhead).2 rfl
  | @digits ds hds hne =>
    have hspan := digitSpan_append hds fun c hc => (hmore c hc).1
    obtain ⟨v, vs, hv⟩ := List.exists_cons_of_ne_nil (mt List.map_eq_nil_iff.mp hne)
    rw [List.cons_append, fractionSpan, hspan, digitValues, hv]
    dsimp only
    rw [← hv]
    rfl

theorem exponentSpan_append {exponent : List Char} (h : IsExponent exponent)
    (hrest : EndsNumber rest) :
    exponentSpan (exponent ++ rest)
      = (exponent.head?.map fun _ => exponentValue exponent, rest) := by
  cases h with
  | absent => exact exponentSpan_of_endsNumber hrest
  | @digits sign ds hsign hds hne =>
    have hspan := digitSpan_append hds fun c hc => (hrest c hc).1
    obtain ⟨v, vs, hv⟩ := List.exists_cons_of_ne_nil (mt List.map_eq_nil_iff.mp hne)
    rw [digitValues, hv] at hspan
    rcases hsign with rfl | rfl <;>
      simp [exponentSpan, exponentSign, hspan, exponentValue, digitValues, hv]

/-- **A number with a fraction or an exponent** is read as it is as free text. -/
theorem readNumber_pointed (negative : Bool) {whole part exponent : List Char} (hw : IsWhole whole)
    (hp : IsFraction part) (he : IsExponent exponent) (hne : part ++ exponent ≠ [])
    (hrest : EndsNumber rest) :
    readNumber ((if negative then ['-'] else []) ++ (whole ++ (part ++ (exponent ++ rest))))
      = .ok (.float (pointedValue negative whole part exponent), rest) := by
  -- Each part begins with a character of its own, and so ends the one before it.
  have hbehind : ∀ c ∈ (exponent ++ rest).head?, c.isDigit = false ∧ c ≠ '.' := by
    cases he with
    | absent => exact fun c hc => ⟨(hrest c hc).1, (hrest c hc).2.1⟩
    | digits => exact fun c hc => Option.some.inj hc ▸ by decide
  have hafter : ∀ c ∈ (part ++ (exponent ++ rest)).head?, c.isDigit = false := by
    cases hp with
    | absent => exact fun c hc => (hbehind c hc).1
    | digits => exact fun c hc => Option.some.inj hc ▸ by decide
  have hvalues : digitValues whole ≠ [] := mt List.map_eq_nil_iff.mp hw.ne_nil
  have hsign :
      numberSign ((if negative then ['-'] else []) ++ (whole ++ (part ++ (exponent ++ rest))))
      = (negative, whole ++ (part ++ (exponent ++ rest))) := by
    obtain ⟨c, cs, hcs⟩ := List.exists_cons_of_ne_nil hw.ne_nil
    rw [hcs]
    refine numberSign_append negative ?_ _
    rintro rfl
    exact absurd (hw.areDigits '-' (hcs ▸ List.mem_cons_self)) (by decide)
  rw [readNumber_eq hsign (wholeSpan_append hw hafter) (fractionSpan_append hp hbehind)
    (exponentSpan_append he hrest), if_neg hvalues, pointedValue]
  cases hp with
  | absent =>
    cases he with
    | absent => exact absurd rfl hne
    | digits => rfl
  | digits =>
    cases he with
    | absent => simp [numberOf, fractionDigits, exponentValue, Except.map]
    | digits => rfl

/-- **A floating-point number** reads back if its text does as free text. -/
theorem readNumber_shortText {x : Binary64} (hx : x.isFinite = true)
    (hback : readFloat? x.shortText = some x) (hrest : EndsNumber rest) :
    readNumber (x.shortText.toList ++ rest) = .ok (.float x, rest) := by
  obtain ⟨negative, body, htext, hbody⟩ := exists_shortText hx
  cases hbody with
  | mk hw hp he hne =>
    have hfree := readFloat?_pointed negative hw hp he
    rw [← htext, String.ofList_toList, hback] at hfree
    rw [htext, List.append_assoc, List.append_assoc, List.append_assoc,
      readNumber_pointed negative hw hp he hne hrest, ← Option.some.inj hfree]

/-- **A whole number reads back**, if it is not too long to be written. -/
theorem readNumber_intText {n : Int} (hn : isOverlong n = false) (hrest : EndsNumber rest) :
    readNumber ((intText n).toList ++ rest) = .ok (.int n, rest) := by
  have hlen := length_digits_le hn
  cases n with
  | ofNat m =>
    rw [intText, String.toList_ofList]
    exact readNumber_digits false hlen hrest
  | negSucc m =>
    rw [intText, String.toList_ofList]
    exact readNumber_digits true hlen hrest

end Json

end AgentClient
