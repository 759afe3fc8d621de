import AgentClient.Number.Layout
import AgentClient.Number.Reading
import Mathlib.Data.List.DropRight

/-!
# Proofs/Number/Numerals — what the texts of numbers are made of

A whole number is written as its digits, without a zero in front (`ofDigits_digitValues_digits`,
`head?_digits`).  The shortest text of a floating-point number is such digits with a fraction, an
exponent or both behind them (`exists_shortText`), so it is never the text of a whole number.  Read
as free text it is the number nearest to the decimal that these make (`readFloat?_pointed`). -/

namespace AgentClient.Number

open Text

/-! ## Runs of digits

A run of digits is read to the first character that does not belong to it. In free text an
underscore may stand between two digits, so it may not follow a run that is to end. -/

/-- A text of decimal digits alone. -/
def AreDigits (cs : List Char) : Prop :=
  ∀ c ∈ cs, c.isDigit = true

/-- The values of digits. -/
def digitValues (cs : List Char) : List Nat :=
  cs.map fun c => c.toNat - 48

/-- What no run of digits goes on with. -/
def EndsRun (rest : List Char) : Prop :=
  ∀ c ∈ rest.head?, c.isDigit = false ∧ c ≠ '_'

theorem asciiDigit?_of_isDigit {c : Char} (h : c.isDigit = true) :
    asciiDigit? c = some (c.toNat - 48) := by
  rw [Char.isDigit, Bool.and_eq_true, decide_eq_true_eq, decide_eq_true_eq] at h
  exact if_pos h

theorem asciiDigit?_of_not_isDigit {c : Char} (h : c.isDigit = false) : asciiDigit? c = none := by
  refine if_neg fun hc => ?_
  rw [Char.isDigit, Bool.and_eq_false_iff, decide_eq_false_iff_not, decide_eq_false_iff_not] at h
  exact h.elim (fun h => h hc.1) fun h => h hc.2

theorem AreDigits.append {xs ys : List Char} (hx : AreDigits xs) (hy : AreDigits ys) :
    AreDigits (xs ++ ys) := by
  intro c hc
  exact (List.mem_append.mp hc).elim (hx c) (hy c)

/-- A run of digits is read as far as it goes. -/
theorem takeDigits_append {ds rest : List Char} (hds : AreDigits ds) (hrest : EndsRun rest) :
    takeDigits (ds ++ rest) = some (digitValues ds, rest) := by
  have hrun : digitRun (ds ++ rest) = some (digitValues ds, rest) := by
    induction ds with
    | nil =>
      cases rest with
      | nil => rfl
      | cons c rest =>
        obtain ⟨hc, hne⟩ := hrest c rfl
        rw [List.nil_append, digitRun, asciiDigit?_of_not_isDigit hc]
        exact if_neg hne
    | cons d ds ih =>
      rw [AreDigits, List.forall_mem_cons] at hds
      rw [List.cons_append, digitRun, asciiDigit?_of_isDigit hds.1, ih hds.2]
      rfl
  -- A run is taken unless it begins with an underscore, which no digit is.
  rw [takeDigits, if_neg, hrun]
  intro hhead
  cases ds with
  | nil => exact (hrest _ hhead).2 rfl
  | cons d ds =>
    obtain rfl := Option.some.inj hhead
    exact absurd (hds '_' List.mem_cons_self) (by decide)

/-! ## The digits of a whole number

The digits that the model writes are those of the library, whose lemmas give the value back and the
absence of a zero in front. -/

/-- A number is written in digits. -/
theorem areDigits_digits (n : Nat) : AreDigits (digits n) := fun _ hc =>
  Nat.isDigit_of_mem_toDigits (by decide) (by decide) hc

theorem digits_ne_nil (n : Nat) : digits n ≠ [] :=
  Nat.toDigits_ne_nil

/-- **The digits of a number** stand for it. -/
theorem ofDigits_digitValues_digits (n : Nat) : ofDigits (digitValues (digits n)) = n := by
  have hfold : ∀ (cs : List Char) (k : Nat),
      (digitValues cs).foldl (fun n d => n * 10 + d) k = Nat.ofDigitChars 10 cs k := by
    intro cs
    induction cs with
    | nil => exact fun _ => rfl
    | cons c cs ih =>
      intro k
      rw [Nat.ofDigitChars_cons, ← ih, Nat.mul_comm]
      rfl
  exact (hfold _ 0).trans Nat.ofDigitChars_ten_toDigits

/-- The first digit is zero for zero alone. -/
theorem head?_digits {n : Nat} (hn : n ≠ 0) : (digits n).head? ≠ some '0' := by
  rw [digits]
  -- The first digit is that of the number without its last one.
  induction n using Nat.base_induction 10 (by decide) with
  | single m hm =>
    rw [Nat.toDigits_of_lt_base hm]
    revert hn
    revert m
    decide
  | digit m k hk hm ih =>
    rw [← Nat.toDigits_append_toDigits (by decide) hm hk,
      List.head?_append_of_ne_nil _ Nat.toDigits_ne_nil]
    exact ih (Nat.pos_iff_ne_zero.mp hm)

/-- A whole part of a number: digits without a zero in front. -/
structure IsWhole (cs : List Char) : Prop where
  areDigits : AreDigits cs
  ne_nil : cs ≠ []
  head_ne : 1 < cs.length → cs.head? ≠ some '0'

theorem isWhole_digits (n : Nat) : IsWhole (digits n) := by
  refine ⟨areDigits_digits n, digits_ne_nil n, fun hlen => head?_digits ?_⟩
  rintro rfl
  exact absurd hlen (by decide)

/-! ## The digits of a floating-point number

The significant digits have no zeros at either end. Wherever the point is put, in front of them,
among them, behind them with zeros in between, or with an exponent, what stands before it is a whole
part without a zero in front. -/

/-- Digits and the place of the point as they stand for a number: no zero in front, but for zero
itself. -/
structure AreSignificant (ds : List Char) (point : Int) : Prop where
  areDigits : AreDigits ds
  ne_nil : ds ≠ []
  head_ne : ds.head? = some '0' → ds = ['0'] ∧ point = 1

theorem areSignificant_zero : AreSignificant ['0'] 1 :=
  ⟨fun _ hc => List.mem_singleton.mp hc ▸ rfl, List.cons_ne_nil _ _, fun _ => ⟨rfl, rfl⟩⟩

/-- The digits of a number that is not zero keep their first one when the zeros behind them go. -/
theorem head?_dropZeros_digits {n : Nat} (hn : n ≠ 0) :
    ∃ c cs, (Decimal.dropZeros (digits n)).1 = c :: cs ∧ c ≠ '0' := by
  have hfront : (Decimal.dropZeros (digits n)).1 <+: digits n := List.rdropWhile_prefix _ _
  obtain ⟨c, cs, hds⟩ := List.exists_cons_of_ne_nil (digits_ne_nil n)
  have hc : c ≠ '0' := by
    rintro rfl
    exact head?_digits hn (congrArg List.head? hds)
  -- Not all of the digits are zeros that could be left out, for the first is none.
  have hkept : (Decimal.dropZeros (digits n)).1 ≠ [] := by
    intro hnil
    have hall := List.rdropWhile_eq_nil_iff.mp hnil
    rw [hds] at hall
    exact hc (of_decide_eq_true (hall c List.mem_cons_self))
  obtain ⟨e, es, hes⟩ := List.exists_cons_of_ne_nil hkept
  rw [hes, hds] at hfront
  exact ⟨e, es, hes, (List.cons_prefix_cons.mp hfront).1 ▸ hc⟩

/-- The significant digits of a decimal are that. -/
theorem areSignificant_significant (d : Decimal) :
    AreSignificant d.significant.1 d.significant.2 := by
  rw [Decimal.significant]
  split
  · exact areSignificant_zero
  · next hne =>
    have hfront : (Decimal.dropZeros (digits d.coefficient)).1 <+: digits d.coefficient :=
      List.rdropWhile_prefix _ _
    obtain ⟨c, cs, hds, hc⟩ := head?_dropZeros_digits hne
    refine ⟨fun x hx => areDigits_digits _ x (hfront.subset hx), ?_, fun hzero => ?_⟩
    · exact hds ▸ List.cons_ne_nil c cs
    · exact absurd (Option.some.inj ((congrArg List.head? hds).symm.trans hzero)) hc

/-- A fraction: nothing, or a point and digits. -/
inductive IsFraction : List Char → Prop where
  | absent : IsFraction []
  | digits {ds : List Char} (areDigits : AreDigits ds) (ne_nil : ds ≠ []) : IsFraction ('.' :: ds)

/-- An exponent: nothing, or a letter, a sign and digits. -/
inductive IsExponent : List Char → Prop where
  | absent : IsExponent []
  | digits {sign : Char} {ds : List Char} (sign_eq : sign = '+' ∨ sign = '-')
    (areDigits : AreDigits ds) (ne_nil : ds ≠ []) : IsExponent ('e' :: sign :: ds)

/-- A text of a number that cannot be whole: behind the whole part there is a fraction, an exponent
or both. -/
inductive IsPointed : List Char → Prop where
  | mk {whole part exponent : List Char} (isWhole : IsWhole whole) (isFraction : IsFraction part)
    (isExponent : IsExponent exponent) (ne_nil : part ++ exponent ≠ []) :
    IsPointed (whole ++ (part ++ exponent))

theorem areDigits_replicate (n : Nat) : AreDigits (List.replicate n '0') := by
  intro c hc
  rw [List.eq_of_mem_replicate hc]
  rfl

/-- The exponent that is written is one, with two digits at least. -/
theorem isExponent_exponentText (e : Int) : IsExponent (Layout.exponentText e) := by
  have hds : AreDigits (if (digits e.natAbs).length < 2 then '0' :: digits e.natAbs
      else digits e.natAbs) := by
    split
    · exact List.forall_mem_cons.mpr ⟨rfl, areDigits_digits _⟩
    · exact areDigits_digits _
  refine .digits ?_ hds ?_
  · split
    · exact .inr rfl
    · exact .inl rfl
  · split
    · exact List.cons_ne_nil _ _
    · exact digits_ne_nil _

/-- Significant digits do not begin with zero, but for a zero alone. -/
theorem AreSignificant.isWhole {ds : List Char} {point : Int} (h : AreSignificant ds point) :
    IsWhole ds := by
  refine ⟨h.areDigits, h.ne_nil, fun hlen hhead => ?_⟩
  rw [(h.head_ne hhead).1] at hlen
  exact absurd hlen (by decide)

/-- A number in scientific notation has a point or an exponent. -/
theorem isPointed_scientific {ds : List Char} {point : Int} (h : AreSignificant ds point) :
    IsPointed (Layout.scientific ds point) := by
  obtain ⟨d, more, rfl⟩ := List.exists_cons_of_ne_nil h.ne_nil
  obtain ⟨hd, hmore⟩ := List.forall_mem_cons.mp h.areDigits
  rw [Layout.scientific, List.append_assoc]
  refine .mk ⟨?_, List.cons_ne_nil _ _, fun hlen => absurd hlen (Nat.lt_irrefl 1)⟩ ?_
    (isExponent_exponentText _) ?_
  · exact fun c hc => List.mem_singleton.mp hc ▸ hd
  · cases more with
    | nil => exact .absent
    | cons e more => exact .digits hmore (List.cons_ne_nil _ _)
  · exact List.append_ne_nil_of_right_ne_nil _ (List.cons_ne_nil _ _)

/-- A whole part and a fraction, with no exponent behind them. -/
theorem IsWhole.isPointed {whole part : List Char} (hw : IsWhole whole)
    (hp : IsFraction ('.' :: part)) :
    IsPointed (whole ++ '.' :: part) := by
  have hall := IsPointed.mk hw hp .absent (List.cons_ne_nil _ _)
  rwa [List.append_nil] at hall

/-- Zeros behind significant digits, up to the place of the point. -/
theorem AreSignificant.isWhole_padded {ds : List Char} {point : Int} (h : AreSignificant ds point) :
    IsWhole (ds ++ List.replicate (point.toNat - ds.length) '0') := by
  refine ⟨h.areDigits.append (areDigits_replicate _),
    List.append_ne_nil_of_left_ne_nil h.ne_nil _, fun hlong hfirst => ?_⟩
  rw [List.head?_append_of_ne_nil _ h.ne_nil] at hfirst
  obtain ⟨rfl, rfl⟩ := h.head_ne hfirst
  exact absurd hlong (by decide)

/-- The significant digits in front of a point that stands among them. -/
theorem AreSignificant.isWhole_take {ds : List Char} {point : Int} (h : AreSignificant ds point)
    {k : Nat} (hk : k + 1 < ds.length) : IsWhole (ds.take (k + 1)) := by
  obtain ⟨d, more, rfl⟩ := List.exists_cons_of_ne_nil h.ne_nil
  refine ⟨fun c hc => h.areDigits c (List.mem_of_mem_take hc), List.cons_ne_nil _ _,
    fun _ hfirst => ?_⟩
  -- a zero in front would be the only digit, and there is one behind the point
  obtain ⟨hone, -⟩ := h.head_ne hfirst
  rw [hone] at hk
  exact absurd hk (Nat.not_lt.mpr (Nat.le_add_left 1 k))

/-- A number in positional notation has a point. -/
theorem isPointed_positional {ds : List Char} {point : Int} (h : AreSignificant ds point) :
    IsPointed (Layout.short.positional ds point) := by
  dsimp only [Layout.positional]
  -- The point stands before all digits, behind them, or among them.
  by_cases hpoint : point ≤ 0
  · rw [if_pos hpoint]
    refine areSignificant_zero.isWhole.isPointed (.digits ?_ ?_)
    · exact (areDigits_replicate _).append h.areDigits
    · exact List.append_ne_nil_of_right_ne_nil _ h.ne_nil
  rw [if_neg hpoint]
  by_cases hlen : ds.length ≤ point.toNat
  · rw [if_pos hlen]
    refine h.isWhole_padded.isPointed (.digits ?_ ?_)
    · exact areSignificant_zero.areDigits
    · exact areSignificant_zero.ne_nil
  · rw [if_neg hlen]
    obtain ⟨k, hk⟩ : ∃ k, point.toNat = k + 1 := ⟨point.toNat - 1, by omega⟩
    rw [hk] at hlen ⊢
    refine (h.isWhole_take (Nat.lt_of_not_le hlen)).isPointed (.digits ?_ ?_)
    · exact fun c hc => h.areDigits c (List.mem_of_mem_drop hc)
    · rw [ne_eq, List.drop_eq_nil_iff]
      exact hlen

/-- **The shortest text of a finite number** is a sign, a whole part, and behind it a fraction, an
exponent or both. -/
theorem exists_shortText {x : Binary64} (hx : x.isFinite = true) :
    ∃ (negative : Bool) (body : List Char),
      x.shortText.toList = (if negative then ['-'] else []) ++ body ∧ IsPointed body := by
  cases x with
  | infinite | nan => exact absurd hx Bool.false_ne_true
  | finite negative m e =>
    have hsig : ∀ d : List Char × Int, d = (if m = 0 then (['0'], 1)
        else (Decimal.shortest m e).significant) → AreSignificant d.1 d.2 := by
      rintro d rfl
      split
      · exact areSignificant_zero
      · exact areSignificant_significant _
    have hbody := hsig _ rfl
    refine ⟨negative, _, String.toList_ofList, ?_⟩
    rw [Layout.write]
    -- Both notations have a point or an exponent.
    split
    · exact isPointed_positional hbody
    · exact isPointed_scientific hbody

/-! ## Read as free text

The reader of free text takes the same parts off one after another. None of its words begins with a
digit, no character of a number is a blank, and none has to be put into ASCII, so what it does
before and after changes nothing. -/

/-- The values of the digits of a fraction. -/
def fractionDigits : List Char → List Nat
  | [] => []
  | _ :: ds => digitValues ds

/-- The value of an exponent. -/
def exponentValue : List Char → Int
  | _ :: sign :: ds =>
    if sign = '-' then -(ofDigits (digitValues ds) : Int) else ofDigits (digitValues ds)
  | _ => 0

/-- The number nearest to a sign, a whole part, a fraction and an exponent. -/
def pointedValue (negative : Bool) (whole part exponent : List Char) : Binary64 :=
  .ofDecimal negative (ofDigits (digitValues whole ++ fractionDigits part))
    (exponentValue exponent - (fractionDigits part).length)

theorem asciiForm_eq_self {cs : List Char} (h : ∀ c ∈ cs, c.toNat ≤ 127) : asciiForm cs = cs := by
  induction cs with
  | nil => rfl
  | cons c cs ih =>
    rw [List.forall_mem_cons] at h
    rw [asciiForm, if_pos h.1, ih h.2]

/-- Nothing is dropped where there is nothing to drop. -/
theorem trim_eq_self {p : Char → Bool} {cs : List Char} (h : ∀ c ∈ cs, p c = false) :
    trim p cs = cs := by
  have hdrop : ∀ {xs : List Char}, (∀ c ∈ xs, p c = false) → xs.dropWhile p = xs := by
    intro xs hxs
    cases xs with
    | nil => rfl
    | cons c xs => rw [List.dropWhile_cons, hxs c List.mem_cons_self, if_neg Bool.false_ne_true]
  rw [trim, dropEndWhile, hdrop h, hdrop fun c hc => h c (List.mem_reverse.mp hc),
    List.reverse_reverse]

/-- A character of a number: a digit, the point, the letter of an exponent, or a sign. -/
def IsNumeral (c : Char) : Prop :=
  c.isDigit = true ∨ c ∈ ['.', 'e', '+', '-']

/-- A character of a number is an ASCII character, and no blank. -/
theorem IsNumeral.isPlain {c : Char} (h : IsNumeral c) :
    c.toNat ≤ 127 ∧ isAsciiBlank c = false := by
  rcases h with hdigit | hmark
  · rw [Char.isDigit, Bool.and_eq_true, decide_eq_true_eq, decide_eq_true_eq, ge_iff_le,
      UInt32.le_iff_toNat_le, UInt32.le_iff_toNat_le] at hdigit
    have hlow : 48 ≤ c.toNat := hdigit.1
    have hhigh : c.toNat ≤ 57 := hdigit.2
    refine ⟨Nat.le_trans hhigh (by decide), ?_⟩
    have hspace : c ≠ ' ' := by
      rintro rfl
      exact absurd hlow (by decide)
    rw [isAsciiBlank, Bool.or_eq_false_iff, decide_eq_false_iff_not, Bool.and_eq_false_iff,
      decide_eq_false_iff_not, decide_eq_false_iff_not]
    exact ⟨hspace, .inr (by omega)⟩
  · simp only [List.mem_cons, List.not_mem_nil, or_false] at hmark
    rcases hmark with rfl | rfl | rfl | rfl <;> decide

/-- The characters of a number are those of numerals, part by part. -/
theorem AreDigits.forall_isNumeral {ds : List Char} (h : AreDigits ds) : ∀ c ∈ ds, IsNumeral c :=
  fun c hc => .inl (h c hc)

theorem IsFraction.forall_isNumeral {part : List Char} (h : IsFraction part) :
    ∀ c ∈ part, IsNumeral c := by
  cases h with
  | absent => exact nofun
  | digits hds => exact List.forall_mem_cons.mpr ⟨.inr (by decide), hds.forall_isNumeral⟩

theorem IsExponent.forall_isNumeral {exponent : List Char} (h : IsExponent exponent) :
    ∀ c ∈ exponent, IsNumeral c := by
  cases h with
  | absent => exact nofun
  | digits hsign hds =>
    refine List.forall_mem_cons.mpr ⟨.inr (by decide), List.forall_mem_cons.mpr
      ⟨.inr ?_, hds.forall_isNumeral⟩⟩
    rcases hsign with rfl | rfl <;> decide

/-- A digit has no case. -/
theorem toLower_of_isDigit {c : Char} (h : c.isDigit = true) : c.toLower = c := by
  rw [Char.isDigit, Bool.and_eq_true, decide_eq_true_eq, decide_eq_true_eq] at h
  refine dif_neg fun hupper => ?_
  have hle : 'A'.val ≤ '9'.val := UInt32.le_trans hupper.1 h.2
  exact absurd hle (by decide)

/-- A sign is taken from a text that begins with a digit behind it. -/
theorem takeSign_append (negative : Bool) {c : Char} (hc : c.isDigit = true) (cs : List Char) :
    takeSign ((if negative then ['-'] else []) ++ c :: cs) = (negative, c :: cs) := by
  cases negative with
  | true => rfl
  | false =>
    show takeSign (c :: cs) = _
    rw [takeSign.eq_def]
    split
    · next h =>
      rw [(List.cons.inj h).1] at hc
      exact absurd hc (by decide)
    · next h =>
      rw [(List.cons.inj h).1] at hc
      exact absurd hc (by decide)
    · rfl

section

variable {whole part exponent : List Char}

theorem IsExponent.endsRun (h : IsExponent exponent) : EndsRun exponent := by
  cases h with
  | absent => exact nofun
  | digits => exact fun c hc => Option.some.inj hc ▸ by decide

theorem IsFraction.endsRun_append (h : IsFraction part) (he : IsExponent exponent) :
    EndsRun (part ++ exponent) := by
  cases h with
  | absent => exact he.endsRun
  | digits => exact fun c hc => Option.some.inj hc ▸ by decide

theorem takeFraction_append (h : IsFraction part) (he : IsExponent exponent) :
    takeFraction (part ++ exponent) = some (fractionDigits part, exponent) := by
  cases h with
  | digits hds => exact takeDigits_append hds he.endsRun
  | absent => cases he <;> rfl

theorem takeExponent_eq (h : IsExponent exponent) :
    takeExponent exponent = some (exponentValue exponent, []) := by
  cases h with
  | absent => rfl
  | @digits sign ds hsign hds hne =>
    have hdigits : takeDigits ds = some (digitValues ds, []) := by
      have hend : EndsRun [] := nofun
      have htaken := takeDigits_append hds hend
      rwa [List.append_nil] at htaken
    have hvalues : digitValues ds ≠ [] := mt List.map_eq_nil_iff.mp hne
    obtain ⟨v, vs, hv⟩ := List.exists_cons_of_ne_nil hvalues
    rw [exponentValue]
    rcases hsign with rfl | rfl <;> simp [takeExponent, takeSign, hdigits, hv]

/-- **A number is read as free text by its parts.** -/
theorem readFloat?_pointed (negative : Bool) (hw : IsWhole whole) (hp : IsFraction part)
    (he : IsExponent exponent) :
    readFloat? (String.ofList ((if negative then ['-'] else []) ++ (whole ++ (part ++ exponent))))
      = some (pointedValue negative whole part exponent) := by
  have hnumerals : ∀ c ∈ (if negative then ['-'] else []) ++ (whole ++ (part ++ exponent)),
      IsNumeral c := by
    intro c hc
    rcases List.mem_append.mp hc with hc | hc
    · cases negative with
      | true => exact List.mem_singleton.mp hc ▸ .inr (by decide)
      | false => exact absurd hc List.not_mem_nil
    · rcases List.mem_append.mp hc with hc | hc
      · exact hw.areDigits.forall_isNumeral c hc
      · exact (List.mem_append.mp hc).elim (hp.forall_isNumeral c) (he.forall_isNumeral c)
  obtain ⟨d, ds, hds⟩ := List.exists_cons_of_ne_nil hw.ne_nil
  have hd : d.isDigit = true := hw.areDigits d (hds ▸ List.mem_cons_self)
  have hwhole := takeDigits_append hw.areDigits (hp.endsRun_append he)
  have hvalues : digitValues whole ≠ [] := mt List.map_eq_nil_iff.mp hw.ne_nil
  -- The words for what is no number begin with letters, and the number with a digit.
  have hword : ∀ (w : Char) (cs ws : List Char), w.isDigit = false →
      (d :: cs).map Char.toLower ≠ w :: ws := by
    intro w cs ws hw heq
    have hlower : d.toLower = w := (List.cons.inj heq).1
    rw [toLower_of_isDigit hd] at hlower
    rw [hlower, hw] at hd
    exact absurd hd Bool.false_ne_true
  rw [readFloat?, String.toList_ofList, asciiForm_eq_self fun c hc => (hnumerals c hc).isPlain.1,
    trim_eq_self fun c hc => (hnumerals c hc).isPlain.2, hds, List.cons_append,
    takeSign_append negative hd]
  have hnan : (d :: (ds ++ (part ++ exponent))).map Char.toLower ≠ "nan".toList := hword 'n' _ _ rfl
  dsimp only [readMagnitude?]
  rw [if_neg, if_neg hnan, ← List.cons_append, ← hds]
  · simp only [hwhole, takeFraction_append hp he, takeExponent_eq he, Option.bind_eq_bind,
      Option.bind_some, hvalues, decide_false, Bool.false_and, Bool.false_eq_true, if_false, ne_eq,
      not_true_eq_false]
    rfl
  · rw [Bool.or_eq_true, decide_eq_true_eq, decide_eq_true_eq]
    exact fun h => h.elim (hword 'i' _ _ rfl) (hword 'i' _ _ rfl)

end

end AgentClient.Number
