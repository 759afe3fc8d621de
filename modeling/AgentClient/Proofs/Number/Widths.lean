import AgentClient.Proofs.Number.Magnitude
import AgentClient.Proofs.Text.Widths

/-!
# Proofs/Number/Widths — how much room a number takes as text

The point of a fraction stands where it should (`Decimal.lt_powTen_pointOf`), so on a grid of some
digits the fraction has no more of them (`Decimal.onGrid_lt`), and of the two decimals beside it
none has (`Decimal.exists_shortest`).  The shortest one has seventeen at the most.  Together with
exponents of four digits **a floating-point number takes twenty-six characters at the most**
(`Binary64.length_shortText_le`). -/

namespace AgentClient.Number

open Text

/-! ## Counts of digits

A number of `k` digits is below ten to the `k`, and at least ten to one less. All bounds on texts of
numbers come down to this. -/

theorem digitCount_le_iff_lt {n k : Nat} (hk : 0 < k) : digitCount n ≤ k ↔ n < 10 ^ k :=
  Nat.length_toDigits_le_iff (by decide) hk

theorem digitCount_pos (n : Nat) : 0 < digitCount n :=
  List.length_pos_of_ne_nil (digits_ne_nil n)

theorem lt_ten_pow_digitCount (n : Nat) : n < 10 ^ digitCount n :=
  (digitCount_le_iff_lt (digitCount_pos n)).mp (Nat.le_refl _)

/-- No shorter power of ten is above the number. -/
theorem ten_pow_digitCount_le {n : Nat} (hn : n ≠ 0) : 10 ^ (digitCount n - 1) ≤ n := by
  by_contra hlt
  rw [Nat.not_le] at hlt
  have hpos := digitCount_pos n
  by_cases hone : digitCount n - 1 = 0
  · rw [hone, Nat.pow_zero] at hlt
    omega
  · have hle := (digitCount_le_iff_lt (Nat.pos_of_ne_zero hone)).mpr hlt
    omega

theorem arePrintable_digits (n : Nat) : ArePrintable (digits n) :=
  fun c hc => isPrintable_of_isDigit (areDigits_digits n c hc)

theorem isTerse_toString {n k : Nat} (hk : 0 < k) (h : n < 10 ^ k) :
    IsTerse k (toString n) :=
  .ofList ((digitCount_le_iff_lt hk).mpr h) (arePrintable_digits n)

/-- **A whole number** takes no more characters than it may have digits, and a sign. -/
theorem isTerse_intText {n : Int} (h : isOverlong n = false) :
    IsTerse (maxDigits + 1) (intText n) := by
  have hdigits := length_digits_le h
  cases n with
  | ofNat m => exact .ofList (Nat.le_succ_of_le hdigits) (arePrintable_digits m)
  | negSucc m =>
    exact .ofList (Nat.succ_le_succ hdigits) (.cons (by decide) (arePrintable_digits (m + 1)))

/-! ## Digits in free text

A complaint about too many digits tells how many there are. Putting the text into ASCII, trimming it
and taking off the sign only make it shorter, so there are no more than the text has characters. -/

theorem length_asciiForm_le (cs : List Char) : (asciiForm cs).length ≤ cs.length := by
  induction cs with
  | nil => exact Nat.le_refl 0
  | cons c cs ih =>
    rw [asciiForm]
    split
    · exact Nat.succ_le_succ ih
    · split
      · exact Nat.succ_le_succ ih
      · split
        · exact Nat.succ_le_succ ih
        · exact Nat.succ_le_succ (Nat.zero_le _)

theorem length_takeSign_le (cs : List Char) : (takeSign cs).2.length ≤ cs.length := by
  rw [takeSign.eq_def]
  split
  · exact Nat.le_succ _
  · exact Nat.le_succ _
  · exact Nat.le_refl _

theorem length_le_of_digitRun {cs rest : List Char} {ds : List Nat}
    (h : digitRun cs = some (ds, rest)) : ds.length ≤ cs.length := by
  -- a digit of the run is read of one character, and an underscore of none
  fun_induction digitRun cs generalizing ds rest with
  | case1 =>
    obtain ⟨rfl, -⟩ := Prod.mk.inj (Option.some.inj h)
    exact Nat.le_refl 0
  | case2 c cs d _ ih =>
    obtain ⟨⟨more, rest'⟩, hmore, heq⟩ := Option.map_eq_some_iff.mp h
    obtain ⟨rfl, -⟩ := Prod.mk.inj heq
    exact Nat.succ_le_succ (ih hmore)
  | case3 cs _ _ ih => exact Nat.le_succ_of_le (ih h)
  | case4 => exact absurd h nofun
  | case5 =>
    obtain ⟨rfl, -⟩ := Prod.mk.inj (Option.some.inj h)
    exact Nat.zero_le _

/-- **The digits that are too many** are characters of the text. -/
theorem le_length_of_readInt {s : String} {count : Nat} (h : readInt s = .error (.overlong count)) :
    count ≤ s.length := by
  have hascii := length_asciiForm_le s.toList
  have hblank := (List.dropWhile_suffix (l := asciiForm s.toList) isAsciiBlank).length_le
  have hsign := length_takeSign_le ((asciiForm s.toList).dropWhile isAsciiBlank)
  rw [String.length_toList] at hascii
  revert h hsign
  rw [readInt]
  rcases takeSign ((asciiForm s.toList).dropWhile isAsciiBlank) with ⟨negative, cs⟩
  dsimp only
  cases htake : takeDigits cs with
  | none => rintro ⟨⟩
  | some p =>
    obtain ⟨ds, rest⟩ := p
    -- What has been left out before the digits, blanks and a sign, only makes the text longer.
    have hds : ds.length ≤ cs.length := by
      rw [takeDigits] at htake
      split at htake
      · cases htake
      · exact length_le_of_digitRun htake
    dsimp only
    split
    · intro h
      obtain rfl := IntFault.overlong.inj (Except.error.inj h)
      omega
    · split <;> rintro ⟨⟩

namespace Decimal

variable {num den : Nat}

/-! ## The place of the point

The point is found by counting the digits of the quotient, or of the quotient the other way round
for a fraction below one. An exact power of ten is the case in which the count is one off. -/

/-- **A positive fraction** is below the power of ten at the place of its point. -/
theorem lt_powTen_pointOf (hnum : num ≠ 0) (hden : 0 < den) :
    num * 10 ^ (-pointOf num den).toNat < den * 10 ^ (pointOf num den).toNat := by
  rw [pointOf]
  split
  · have hlt := lt_ten_pow_digitCount (num / den)
    rw [Nat.div_lt_iff_lt_mul hden, Nat.mul_comm] at hlt
    rwa [show (-(digitCount (num / den) : Int)).toNat = 0 by omega, Nat.pow_zero, Nat.mul_one,
      Int.toNat_natCast]
  · next hlt =>
    rw [Nat.not_le] at hlt
    have hquotient : den / num ≠ 0 := Nat.ne_of_gt (Nat.div_pos (Nat.le_of_lt hlt) (by omega))
    have hle := Nat.mul_le_of_le_div _ _ _ (ten_pow_digitCount_le hquotient)
    have hpos := digitCount_pos (den / num)
    generalize digitCount (den / num) = t at hle hpos ⊢
    dsimp only
    rw [Nat.mul_comm] at hle
    split
    · next hexact =>
      rw [Nat.pow_eq] at hexact
      -- a power of ten itself: the point stands one place further to the left
      have hmany : 1 < t := by
        by_contra hfew
        rw [show t - 1 = 0 by omega, Nat.pow_zero, Nat.mul_one] at hexact
        omega
      rw [show (-(2 - (t : Int))).toNat = t - 2 by omega,
        show (2 - (t : Int)).toNat = 0 by omega, Nat.pow_zero, Nat.mul_one, ← hexact]
      exact Nat.mul_lt_mul_of_pos_left (Nat.pow_lt_pow_right (by decide) (by omega)) (by omega)
    · next hne =>
      rw [Nat.pow_eq] at hne
      rw [show (-(1 - (t : Int))).toNat = t - 1 by omega,
        show (1 - (t : Int)).toNat = 0 by omega, Nat.pow_zero, Nat.mul_one]
      exact Nat.lt_of_le_of_ne hle hne

/-- The point of a fraction of numbers of `k` digits is within `k` places. -/
theorem natAbs_pointOf_le {k : Nat} (hk : 0 < k) (hnum : num < 10 ^ k) (hden : den < 10 ^ k) :
    (pointOf num den).natAbs ≤ k := by
  have hup := (digitCount_le_iff_lt hk).mpr (Nat.lt_of_le_of_lt (Nat.div_le_self num den) hnum)
  have hdown := (digitCount_le_iff_lt hk).mpr (Nat.lt_of_le_of_lt (Nat.div_le_self den num) hden)
  have hpos := digitCount_pos (den / num)
  rw [pointOf]
  dsimp only
  split_ifs <;> omega

/-! ## Decimals on a grid

A grid is given by the place of its last digit. Where that is so many places behind the point, the
fraction has so many digits on the grid, because it is below the power of ten at the point; rounding
may reach that power and no more. -/

/-- **On a grid of `count` digits** a fraction has no more of them. -/
theorem onGrid_lt (hnum : num ≠ 0) (hden : 0 < den) (count : Nat) :
    (onGrid num den (pointOf num den - count)).1
      < (onGrid num den (pointOf num den - count)).2 * 10 ^ count := by
  have hpoint := lt_powTen_pointOf hnum hden
  generalize pointOf num den = p at hpoint ⊢
  show num * 10 ^ (-(p - count)).toNat < den * 10 ^ (- -(p - count)).toNat * 10 ^ count
  -- both sides over the denominator of the point
  have hexponent : (- -(p - count)).toNat + count + (-p).toNat
      = p.toNat + (-(p - count)).toNat := by omega
  refine Nat.lt_of_mul_lt_mul_right (a := 10 ^ (-p).toNat) ?_
  calc num * 10 ^ (-(p - count)).toNat * 10 ^ (-p).toNat
      = num * 10 ^ (-p).toNat * 10 ^ (-(p - count)).toNat := Nat.mul_right_comm ..
    _ < den * 10 ^ p.toNat * 10 ^ (-(p - count)).toNat :=
        Nat.mul_lt_mul_of_pos_right hpoint (Nat.pow_pos (by decide))
    _ = den * 10 ^ ((- -(p - count)).toNat + count + (-p).toNat) := by
        rw [hexponent, Nat.mul_assoc, ← Nat.pow_add]
    _ = den * 10 ^ (- -(p - count)).toNat * 10 ^ count * 10 ^ (-p).toNat := by
        rw [Nat.pow_add, Nat.pow_add, Nat.mul_assoc, Nat.mul_assoc, Nat.mul_assoc]

theorem onGrid_div_lt (hnum : num ≠ 0) (hden : 0 < den) (count : Nat) :
    (onGrid num den (pointOf num den - count)).1 / (onGrid num den (pointOf num den - count)).2
      < 10 ^ count :=
  Nat.div_lt_of_lt_mul (onGrid_lt hnum hden count)

/-- What is rounded to some digits has no more, or is the next power of ten. -/
theorem coefficient_rounded_le (hnum : num ≠ 0) (hden : 0 < den) (count : Nat) :
    (rounded count num den).coefficient ≤ 10 ^ count :=
  (Binary64.roundHalfEven_le _ _).trans (onGrid_div_lt hnum hden count)

/-- A number in the steps of a grid is the fraction that it stands for, there. -/
theorem center_div_eq (m : Nat) (e place : Int) :
    ((interval m e).inSteps place).center / (4 * ((interval m e).inSteps place).denominator)
      = (onGrid (m * (powTwo e).1) (powTwo e).2 place).1
        / (onGrid (m * (powTwo e).1) (powTwo e).2 place).2 := by
  show 4 * m * (powTwo e).1 * (powTen (-place)).1 / (4 * ((powTwo e).2 * (powTen (-place)).2))
    = m * (powTwo e).1 * (powTen (-place)).1 / ((powTwo e).2 * (powTen (-place)).2)
  rw [Nat.mul_assoc 4, Nat.mul_assoc 4, Nat.mul_div_mul_left _ _ (by decide)]

/-- The better neighbour is one of the two. -/
theorem of_neighbour? {i : Interval} {place : Int} {d : Decimal} (h : neighbour? i place = some d) :
    d.coefficient ≤ (i.inSteps place).center / (4 * (i.inSteps place).denominator) + 1
      ∧ d.exponent = place := by
  rw [neighbour?] at h
  split at h
  · exact absurd h nofun
  · obtain rfl := Option.some.inj h
    exact ⟨Nat.le_succ _, rfl⟩
  · obtain rfl := Option.some.inj h
    exact ⟨Nat.le_refl _, rfl⟩
  · obtain rfl := Option.some.inj h
    exact ⟨Binary64.roundHalfEven_le _ _, rfl⟩

/-- **The shortest decimal** has its last digit at one of the first seventeen places. -/
theorem exists_shortest {m : Nat} (hm : m ≠ 0) (e : Int) :
    ∃ count : Nat, 1 ≤ count ∧ count ≤ 17 ∧ (shortest m e).coefficient ≤ 10 ^ count
      ∧ (shortest m e).exponent = pointOf (m * (powTwo e).1) (powTwo e).2 - count := by
  have hup : (powTwo e).1 ≠ 0 := Nat.ne_of_gt (Nat.two_pow_pos _)
  have hnum : m * (powTwo e).1 ≠ 0 := Nat.mul_ne_zero hm hup
  have hden : 0 < (powTwo e).2 := Nat.two_pow_pos _
  rw [shortest]
  dsimp only
  -- The last of the candidates need not be near enough, and then it is rounded to seventeen digits.
  cases hfound : (List.range 17).findSome? fun k : Nat =>
      neighbour? (interval m e) (pointOf (m * (powTwo e).1) (powTwo e).2 - (k + 1)) with
  | none => exact ⟨17, by decide, by decide, coefficient_rounded_le hnum hden 17, rfl⟩
  | some d =>
    obtain ⟨k, hk, hneighbour⟩ := List.exists_of_findSome?_eq_some hfound
    obtain ⟨hcoefficient, hexponent⟩ := of_neighbour? hneighbour
    rw [center_div_eq] at hcoefficient
    exact ⟨k + 1, Nat.succ_pos k, List.mem_range.mp hk,
      hcoefficient.trans (onGrid_div_lt hnum hden (k + 1)), hexponent⟩

/-- The significant digits of a decimal of some digits, with its last one near the point. -/
theorem significant_within {d : Decimal} {count k : Nat} (hcount : count ≤ 17)
    (hcoefficient : d.coefficient ≤ 10 ^ count) (hexponent : d.exponent.natAbs ≤ k) :
    d.significant.1.length ≤ 18 ∧ d.significant.2.natAbs ≤ k + 18 := by
  -- A power of ten itself has one digit more.
  have hdigits : digitCount d.coefficient ≤ 18 := by
    refine (digitCount_le_iff_lt (by decide)).mpr (Nat.lt_of_le_of_lt hcoefficient ?_)
    exact Nat.pow_lt_pow_right (by decide) (Nat.lt_succ_of_le hcount)
  rw [significant]
  split
  · exact ⟨by decide, by rw [Int.natAbs_one]; omega⟩
  · have hkept : (dropZeros (digits d.coefficient)).1 <+: digits d.coefficient :=
      List.rdropWhile_prefix _ _
    refine ⟨hkept.length_le.trans hdigits, ?_⟩
    have hlength : (digits d.coefficient).length = digitCount d.coefficient := rfl
    dsimp only
    omega

end Decimal

/-! ## Layouts

The digits, the place of the point and the width of the exponent are bounded, so this is counting
characters in each of the layouts. -/

namespace Layout

variable {ds : List Char} {point : Int}

theorem length_exponentText_le {e : Int} (h : e.natAbs < 10 ^ 4) : (exponentText e).length ≤ 6 := by
  have hdigits : (digits e.natAbs).length ≤ 4 := (digitCount_le_iff_lt (by decide)).mpr h
  rw [exponentText]
  split_ifs <;> simp only [List.length_cons] <;> omega

/-- With an exponent the digits, the point, the mark and the exponent are all there is. -/
theorem length_scientific_le (hds : ds.length ≤ 18) (hpoint : point.natAbs ≤ 2000) :
    (scientific ds point).length ≤ 25 := by
  have hexponent : (exponentText (point - 1)).length ≤ 6 := length_exponentText_le (by omega)
  rw [scientific, List.length_append, List.length_append, List.length_take]
  split_ifs
  · simp only [List.length_nil]
    omega
  · simp only [List.length_cons, List.length_drop]
    omega

theorem length_positional_le (hds : ds.length ≤ 18) (hlow : -4 < point) (hhigh : point ≤ 16) :
    (short.positional ds point).length ≤ 25 := by
  rw [positional]
  dsimp only
  split_ifs <;> simp only [List.length_cons, List.length_append, List.length_replicate,
    List.length_nil, List.length_take, List.length_drop] <;> omega

theorem length_write_short_le (hds : ds.length ≤ 18) (hpoint : point.natAbs ≤ 2000) :
    (short.write ds point).length ≤ 25 := by
  rw [write]
  split
  · next h =>
    rw [Bool.and_eq_true, decide_eq_true_eq, decide_eq_true_eq] at h
    exact length_positional_le hds h.1 h.2
  · exact length_scientific_le hds hpoint

end Layout

/-! ## Floating-point numbers

A number that was read has an exponent in a known range on both sides. So the fraction that it
stands for is made of numbers of a bounded length, and its point is within that many places. -/

namespace Binary64

/-- A number whose exponent is not below the least one. -/
def IsAboveLeast : Binary64 → Prop
  | .finite _ _ e => minExponent ≤ e
  | _ => True

theorem isAboveLeast_ofFraction (negative : Bool) (num den : Nat) :
    (ofFraction negative num den).IsAboveLeast := by
  have hlast : ∀ (m : Nat) (e : Int), minExponent ≤ e →
      (if maxExponent < e then infinite negative else finite negative m e).IsAboveLeast := by
    intro m e he
    split
    · trivial
    · exact he
  rw [ofFraction]
  dsimp only
  have hguess : minExponent ≤ max ((num.log2 : Int) - den.log2 - 53) minExponent :=
    Int.le_max_right _ _
  generalize max ((num.log2 : Int) - den.log2 - 53) minExponent = guess at hguess ⊢
  generalize hexponent :
    (if 2 * fullSignificand ≤ num * (powTwo (-guess)).1 / (den * (powTwo (-guess)).2)
      then guess + 1 else guess) = e
  have he : minExponent ≤ e := by
    rw [← hexponent]
    split <;> omega
  split
  · exact hlast _ _ (Int.le_add_one he)
  · exact hlast _ _ he

theorem isAboveLeast_ofDecimal (negative : Bool) (coefficient : Nat) (exponent : Int) :
    (ofDecimal negative coefficient exponent).IsAboveLeast := by
  have hzero : (zero negative).IsAboveLeast := Int.le_refl _
  rw [ofDecimal]
  dsimp only
  split_ifs
  · exact hzero
  · trivial
  · exact hzero
  · exact isAboveLeast_ofFraction negative _ _

/-- A number in its range is a fraction of numbers of no more than eleven hundred digits. -/
theorem natAbs_pointOf_le {negative : Bool} {m k : Nat} {e : Int}
    (h : (finite negative m e).IsBounded) (hleast : (finite negative m e).IsAboveLeast)
    (hk : 1100 ≤ k) : (Decimal.pointOf (m * (powTwo e).1) (powTwo e).2).natAbs ≤ k := by
  obtain ⟨hm, hmax⟩ := h
  have hmin : minExponent ≤ e := hleast
  rw [maxExponent] at hmax
  rw [minExponent] at hmin
  have hup : (powTwo e).1 = 2 ^ e.toNat := rfl
  have hdown : (powTwo e).2 = 2 ^ (-e).toNat := rfl
  have htwo : ∀ {b : Nat}, b < k → 2 ^ b < 10 ^ k := fun {b} hb =>
    calc 2 ^ b ≤ 10 ^ b := Nat.pow_le_pow_left (by decide) b
      _ < 10 ^ k := Nat.pow_lt_pow_right (by decide) hb
  have hnum : m * (powTwo e).1 ≤ 2 ^ (54 + e.toNat) := by
    rw [hup, Nat.pow_add]
    exact Nat.mul_le_mul_right _ hm
  exact Decimal.natAbs_pointOf_le (by omega) (Nat.lt_of_le_of_lt hnum (htwo (by omega)))
    (hdown ▸ htwo (by omega))

/-- **The shortest text** of a floating-point number. -/
theorem length_shortText_le {x : Binary64} (h : x.IsBounded) (hleast : x.IsAboveLeast) :
    x.shortText.length ≤ 26 := by
  cases x with
  | nan => decide
  | infinite negative => cases negative <;> decide
  | finite negative m e =>
    have hsignificant : ∀ d : List Char × Int, d = (if m = 0 then (['0'], 1)
        else (Decimal.shortest m e).significant) → d.1.length ≤ 18 ∧ d.2.natAbs ≤ 2000 := by
      rintro d rfl
      split
      · exact ⟨by decide, by decide⟩
      · next hm =>
        obtain ⟨count, -, hcount, hcoefficient, hexponent⟩ := Decimal.exists_shortest hm e
        have hpoint := natAbs_pointOf_le h hleast (Nat.le_refl 1100)
        obtain ⟨hds, hnear⟩ :=
          Decimal.significant_within (k := 1117) hcount hcoefficient (by omega)
        exact ⟨hds, hnear.trans (by decide)⟩
    obtain ⟨hds, hpoint⟩ := hsignificant _ rfl
    have hbody := Layout.length_write_short_le hds hpoint
    have hsign : (if negative then ['-'] else []).length ≤ 1 := by cases negative <;> decide
    show (String.ofList _).length ≤ 26
    rw [String.length_ofList, List.length_append]
    exact Nat.add_le_add hsign hbody

end Binary64

end AgentClient.Number
