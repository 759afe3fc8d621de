import AgentClient.Proofs.Number.Numerals
import Mathlib.Algebra.Group.Nat.Defs

/-!
# Proofs/Number/Magnitude — what is read is small enough to be written

A whole number that is read from a text has as many digits at the most as may be written
(`isOverlong_readInt`).  A fraction is rounded to a significand of fifty-four bits at the most and
an exponent in its range (`isBounded_ofFraction`), so a floating-point number without its fraction
has far fewer digits than that (`isOverlong_truncate`). -/

namespace AgentClient.Number

open Text

/-! ## Counts of digits

What may be written is a bound on the number, ten to the most digits; what a text says is a count of
digits. The two meet in `digitCount_le_iff`, where the bound is never computed. -/

theorem asciiDigit?_lt {c : Char} {d : Nat} (h : asciiDigit? c = some d) : d < 10 := by
  rw [asciiDigit?] at h
  split at h
  · next hc =>
    rw [← Option.some.inj h]
    have hle : c.toNat ≤ 57 := hc.2
    omega
  · exact absurd h nofun

/-- A number has no more digits than it is written with. -/
theorem ofDigits_lt {ds : List Nat} (h : ∀ d ∈ ds, d < 10) : ofDigits ds < 10 ^ ds.length := by
  have hfold : ∀ (ds : List Nat) (n : Nat), (∀ d ∈ ds, d < 10) →
      ds.foldl (fun n d => n * 10 + d) n < (n + 1) * 10 ^ ds.length := by
    intro ds
    induction ds with
    | nil => exact fun n _ => by simp
    | cons d ds ih =>
      intro n hds
      rw [List.forall_mem_cons] at hds
      have hle : n * 10 + d + 1 ≤ (n + 1) * 10 := by omega
      calc ds.foldl (fun n d => n * 10 + d) (n * 10 + d)
          < (n * 10 + d + 1) * 10 ^ ds.length := ih _ hds.2
        _ ≤ (n + 1) * 10 * 10 ^ ds.length := Nat.mul_le_mul_right _ hle
        _ = (n + 1) * 10 ^ (d :: ds).length := by
          rw [List.length_cons, Nat.pow_succ', Nat.mul_assoc]
  have hlt := hfold ds 0 h
  rwa [Nat.zero_add, Nat.one_mul] at hlt

theorem isOverlong_eq_false_iff {n : Int} : isOverlong n = false ↔ n.natAbs < 10 ^ maxDigits := by
  rw [isOverlong, Nat.pow_eq, decide_eq_false_iff_not, Nat.not_le]

/-- A number of few enough digits is not overlong, whatever its sign. -/
theorem isOverlong_ofDigits {ds : List Nat} (h : ∀ d ∈ ds, d < 10) (hlen : ds.length ≤ maxDigits)
    (negative : Bool) :
    isOverlong (if negative then -(ofDigits ds : Int) else ofDigits ds) = false := by
  have hlt : ofDigits ds < 10 ^ maxDigits :=
    Nat.lt_of_lt_of_le (ofDigits_lt h) (Nat.pow_le_pow_right (by decide) hlen)
  rw [isOverlong_eq_false_iff]
  cases negative with
  | true => rwa [if_pos rfl, Int.natAbs_neg, Int.natAbs_natCast]
  | false => rwa [if_neg Bool.false_ne_true, Int.natAbs_natCast]

/-- What is not overlong has few enough digits, and nothing else has. -/
theorem digitCount_le_iff {n : Int} : digitCount n.natAbs ≤ maxDigits ↔ isOverlong n = false :=
  (Nat.length_toDigits_le_iff (by decide) (by decide)).trans isOverlong_eq_false_iff.symm

theorem length_digits_le {n : Int} (h : isOverlong n = false) :
    (digits n.natAbs).length ≤ maxDigits :=
  digitCount_le_iff.mpr h

/-! ## Whole numbers out of free text

Free text may have a sign, blanks and underscores, none of which counts as a digit. The reader
refuses a run of too many digits before it makes a number of it. -/

theorem lt_of_mem_digitRun {cs : List Char} {ds : List Nat} {rest : List Char}
    (h : digitRun cs = some (ds, rest)) : ∀ d ∈ ds, d < 10 := by
  induction cs generalizing ds with
  | nil =>
    obtain ⟨rfl, -⟩ := Prod.mk.inj (Option.some.inj h)
    exact fun _ hd => absurd hd List.not_mem_nil
  | cons c cs ih =>
    rw [digitRun] at h
    cases hc : asciiDigit? c with
    | some d =>
      rw [hc] at h
      obtain ⟨⟨more, rest'⟩, hmore, heq⟩ := Option.map_eq_some_iff.mp h
      obtain ⟨rfl, rfl⟩ := Prod.mk.inj heq
      exact List.forall_mem_cons.mpr ⟨asciiDigit?_lt hc, ih hmore⟩
    | none =>
      rw [hc] at h
      dsimp only at h
      split at h
      · split at h
        · exact ih h
        · cases h
      · obtain ⟨rfl, -⟩ := Prod.mk.inj (Option.some.inj h)
        exact fun _ hd => absurd hd List.not_mem_nil

/-- **A whole number that a text holds** has few enough digits to be written. -/
theorem isOverlong_readInt {s : String} {n : Int} (h : readInt s = .ok n) :
    isOverlong n = false := by
  revert h
  rw [readInt]
  rcases takeSign ((asciiForm s.toList).dropWhile isAsciiBlank) with ⟨negative, cs⟩
  dsimp only
  cases htake : takeDigits cs with
  | none => rintro ⟨⟩
  | some p =>
    obtain ⟨ds, rest⟩ := p
    have hds : ∀ d ∈ ds, d < 10 := by
      rw [takeDigits] at htake
      split at htake
      · cases htake
      · exact lt_of_mem_digitRun htake
    dsimp only
    split
    · rintro ⟨⟩
    · next hlen =>
      split
      · rintro ⟨⟩
      · intro h
        rw [← Except.ok.inj h]
        exact isOverlong_ofDigits hds (Nat.le_of_not_lt hlen) negative

/-! ## Floating-point numbers

Rounding keeps the size of the significand: the exponent is guessed from the lengths of the two
numbers in bits, so the quotient has fifty-four bits at the most, and rounding adds one at the most.
The bound for the whole part is then far below the most digits. -/

namespace Binary64

/-- **A number of bounded size**: its significand has fifty-four bits at the most, and its exponent
is in its range. -/
def IsBounded : Binary64 → Prop
  | .finite _ m e => m ≤ 2 ^ 54 ∧ e ≤ maxExponent
  | _ => True

theorem roundHalfEven_le (num den : Nat) : roundHalfEven num den ≤ num / den + 1 := by
  rw [roundHalfEven]
  split
  · exact Nat.le_succ _
  · split
    · exact Nat.le_refl _
    · split
      · exact Nat.le_succ _
      · exact Nat.le_refl _

/-- At an exponent that is large enough, a fraction has a significand of fifty-four bits. -/
theorem scaled_lt (num : Nat) {den : Nat} (hden : den ≠ 0) {e : Int}
    (he : (num.log2 : Int) - den.log2 - 53 ≤ e) :
    num * (powTwo (-e)).1 / (den * (powTwo (-e)).2) < 2 ^ 54 := by
  have hup : (powTwo (-e)).1 = 2 ^ (-e).toNat := rfl
  have hdown : (powTwo (-e)).2 = 2 ^ (- -e).toNat := rfl
  have hexponent : num.log2 + 1 + (-e).toNat ≤ 54 + den.log2 + (- -e).toNat := by omega
  have hpos : 0 < den * (powTwo (-e)).2 :=
    Nat.mul_pos (Nat.pos_of_ne_zero hden) (hdown ▸ Nat.two_pow_pos _)
  rw [Nat.div_lt_iff_lt_mul hpos, hup, hdown]
  calc num * 2 ^ (-e).toNat
      < 2 ^ (num.log2 + 1) * 2 ^ (-e).toNat :=
        Nat.mul_lt_mul_of_pos_right Nat.lt_log2_self (Nat.two_pow_pos _)
    _ = 2 ^ (num.log2 + 1 + (-e).toNat) := (Nat.pow_add ..).symm
    _ ≤ 2 ^ (54 + den.log2 + (- -e).toNat) := Nat.pow_le_pow_right (by decide) hexponent
    _ = 2 ^ 54 * (2 ^ den.log2 * 2 ^ (- -e).toNat) := by
        rw [Nat.pow_add, Nat.pow_add, Nat.mul_assoc]
    _ ≤ 2 ^ 54 * (den * 2 ^ (- -e).toNat) :=
        Nat.mul_le_mul_left _ (Nat.mul_le_mul_right _ (Nat.log2_self_le hden))

/-- **The number nearest to a fraction** is bounded. -/
theorem isBounded_ofFraction (negative : Bool) (num : Nat) {den : Nat} (hden : den ≠ 0) :
    (ofFraction negative num den).IsBounded := by
  -- At any exponent from the guess on, the rounded quotient is small enough.
  have hround : ∀ e : Int, (num.log2 : Int) - den.log2 - 53 ≤ e →
      roundHalfEven (num * (powTwo (-e)).1) (den * (powTwo (-e)).2) ≤ 2 ^ 54 :=
    fun e he => (roundHalfEven_le _ _).trans (scaled_lt num hden he)
  have hlast : ∀ (m : Nat) (e : Int), m ≤ 2 ^ 54 →
      (if maxExponent < e then infinite negative else finite negative m e).IsBounded := by
    intro m e hm
    split
    · trivial
    · next he => exact ⟨hm, Int.not_lt.mp he⟩
  rw [ofFraction]
  dsimp only
  generalize hguess : max ((num.log2 : Int) - den.log2 - 53) minExponent = guess
  have hle : (num.log2 : Int) - den.log2 - 53 ≤ guess := hguess ▸ Int.le_max_left _ _
  -- one step up when the quotient at the guess is too long
  generalize hexponent :
    (if 2 * fullSignificand ≤ num * (powTwo (-guess)).1 / (den * (powTwo (-guess)).2)
      then guess + 1 else guess) = e
  have he : (num.log2 : Int) - den.log2 - 53 ≤ e := by
    rw [← hexponent]
    split <;> omega
  split
  · exact hlast _ _ (show fullSignificand ≤ 2 ^ 54 by decide)
  · exact hlast _ _ (hround e he)

/-- So is the number nearest to a decimal. -/
theorem isBounded_ofDecimal (negative : Bool) (coefficient : Nat) (exponent : Int) :
    (ofDecimal negative coefficient exponent).IsBounded := by
  have hzero : (zero negative).IsBounded := ⟨Nat.zero_le _, by decide⟩
  rw [ofDecimal]
  split
  · exact hzero
  · dsimp only
    split
    · trivial
    · split
      · exact hzero
      · exact isBounded_ofFraction negative _ (Nat.ne_of_gt (Nat.pow_pos (by decide)))

/-- **A number without its fraction** has few enough digits to be written. -/
theorem isOverlong_truncate {negative : Bool} {m : Nat} {e : Int}
    (h : (finite negative m e).IsBounded) : isOverlong (truncate negative m e) = false := by
  obtain ⟨hm, he⟩ := h
  have hup : (powTwo e).1 = 2 ^ e.toNat := rfl
  have hlt : m * (powTwo e).1 / (powTwo e).2 < 10 ^ maxDigits := by
    have hexponent : 54 + e.toNat < maxDigits := by
      rw [maxExponent] at he
      rw [maxDigits]
      omega
    calc m * (powTwo e).1 / (powTwo e).2
        ≤ m * 2 ^ e.toNat := Nat.div_le_self _ _
      _ ≤ 2 ^ 54 * 2 ^ e.toNat := Nat.mul_le_mul_right _ hm
      _ = 2 ^ (54 + e.toNat) := (Nat.pow_add ..).symm
      _ ≤ 10 ^ (54 + e.toNat) := Nat.pow_le_pow_left (by decide) _
      _ < 10 ^ maxDigits := Nat.pow_lt_pow_right (by decide) hexponent
  rw [isOverlong_eq_false_iff]
  cases negative with
  | true =>
    have htruncate : truncate true m e = -((m * (powTwo e).1 / (powTwo e).2 : Nat) : Int) := rfl
    rwa [htruncate, Int.natAbs_neg, Int.natAbs_natCast]
  | false =>
    have htruncate : truncate false m e = ((m * (powTwo e).1 / (powTwo e).2 : Nat) : Int) := rfl
    rwa [htruncate, Int.natAbs_natCast]

end Binary64

end AgentClient.Number
