import AgentClient.Text.Truncate
import AgentClient.Value.WireText
import Mathlib.Algebra.Order.BigOperators.Group.List
import Mathlib.Algebra.Order.Ring.Nat

/-!
# Proofs/Text/Widths — how much room a text takes between quotation marks

A code point takes ten characters at the most (`WireText.length_quoted_le`) and at least one
(`WireText.le_length_quoted`).  What stands between the marks is printable whatever the text is
(`WireText.arePrintable_quotedChars`), and **of printable characters none takes more than two**
(`Text.IsTerse.length_quoted_le`): to quote what is quoted already costs a factor of two, not of
ten. -/

namespace AgentClient

namespace Text

/-- A text of printable characters alone. -/
def ArePrintable (cs : List Char) : Prop :=
  ∀ c ∈ cs, isPrintable c = true

theorem ArePrintable.append {cs ds : List Char} (hc : ArePrintable cs) (hd : ArePrintable ds) :
    ArePrintable (cs ++ ds) :=
  List.forall_mem_append.mpr ⟨hc, hd⟩

theorem ArePrintable.cons {c : Char} {cs : List Char} (hc : isPrintable c = true)
    (h : ArePrintable cs) : ArePrintable (c :: cs) :=
  List.forall_mem_cons.mpr ⟨hc, h⟩

theorem isPrintable_of_isDigit {c : Char} (h : c.isDigit = true) : isPrintable c = true := by
  rw [Char.isDigit, Bool.and_eq_true, decide_eq_true_eq, decide_eq_true_eq] at h
  have hlow : 48 ≤ c.toNat := h.1
  have hhigh : c.toNat ≤ 57 := h.2
  rw [isPrintable, if_pos (by omega), decide_eq_true_eq]
  omega

theorem arePrintable_hexDigits (width n : Nat) : ArePrintable (hexDigits width n) := by
  have hdigit : ∀ d < 16, isPrintable (hexDigit d) = true := by decide
  induction width generalizing n with
  | zero => exact nofun
  | succ w ih =>
    exact (ih _).append (.cons (hdigit _ (Nat.mod_lt n (by decide))) nofun)

/-! ## One character

A character stands for itself or is escaped: with one backslash if it is printable or a usual
control, else with two, four or eight digits. -/

theorem isPrintable_quotationMark (cs : List Char) : isPrintable (quotationMark cs) = true := by
  rw [quotationMark]
  split <;> decide

variable (mark c : Char)

/-- The widest escape has eight digits. -/
theorem length_quotedChar : 1 ≤ (quotedChar mark c).length ∧ (quotedChar mark c).length ≤ 10 := by
  unfold quotedChar
  split_ifs <;> simp [length_hexDigits]

/-- What is printable is escaped by one backslash, if at all. -/
theorem length_quotedChar_of_isPrintable {c : Char} (h : isPrintable c = true) :
    (quotedChar mark c).length ≤ 2 := by
  have hne : ∀ d, isPrintable d = false → c ≠ d := by
    rintro d hd rfl
    exact Bool.eq_false_iff.mp hd h
  unfold quotedChar
  split_ifs with hmark htab hfeed hreturn
  · simp
  · exact absurd htab (hne _ (by decide))
  · exact absurd hfeed (hne _ (by decide))
  · exact absurd hreturn (hne _ (by decide))
  · simp

theorem arePrintable_quotedChar {mark : Char} (hmark : isPrintable mark = true) :
    ArePrintable (quotedChar mark c) := by
  have hslash : isPrintable '\\' = true := by decide
  unfold quotedChar
  split_ifs with hescaped htab hfeed hreturn hprintable
  · refine .cons hslash (.cons ?_ nofun)
    rw [Bool.or_eq_true, decide_eq_true_eq, decide_eq_true_eq] at hescaped
    rcases hescaped with rfl | rfl
    · exact hmark
    · exact hslash
  · exact .cons hslash (.cons (by decide) nofun)
  · exact .cons hslash (.cons (by decide) nofun)
  · exact .cons hslash (.cons (by decide) nofun)
  · exact .cons hprintable nofun
  all_goals exact .cons hslash (.cons (by decide) (arePrintable_hexDigits _ _))

end Text

/-! ## Texts

Both kinds of text are quoted one code point after another between two marks, so their lengths are
sums, bounded by the widest escape on one side and by one character each on the other. -/

namespace WireText

open Text

theorem quotedPoint_toNat (mark c : Char) : quotedPoint mark c.toNat = quotedChar mark c := by
  rw [quotedPoint, charOf?_toNat]

theorem length_quotedPoint (mark : Char) (n : Nat) :
    1 ≤ (quotedPoint mark n).length ∧ (quotedPoint mark n).length ≤ 10 := by
  rw [quotedPoint]
  cases charOf? n with
  | some c => exact length_quotedChar mark c
  | none => simp [length_hexDigits]

theorem arePrintable_quotedPoint {mark : Char} (hmark : isPrintable mark = true) (n : Nat) :
    ArePrintable (quotedPoint mark n) := by
  rw [quotedPoint]
  cases charOf? n with
  | some c => exact arePrintable_quotedChar c hmark
  | none => exact .cons (by decide) (.cons (by decide) (arePrintable_hexDigits _ _))

/-- Both kinds of texts are quoted point by point. -/
theorem exists_quotedChars_eq (t : WireText) : ∃ mark, isPrintable mark = true
    ∧ t.quotedChars = mark :: t.points.flatMap (quotedPoint mark) ++ [mark] := by
  cases t with
  | plain s =>
    refine ⟨_, isPrintable_quotationMark s.toList, ?_⟩
    rw [points, List.flatMap_map]
    simp only [quotedPoint_toNat]
    rfl
  | broken points => exact ⟨_, isPrintable_quotationMark _, rfl⟩

/-- **What stands between quotation marks** is printable. -/
theorem arePrintable_quotedChars (t : WireText) : ArePrintable t.quotedChars := by
  obtain ⟨mark, hmark, hquoted⟩ := t.exists_quotedChars_eq
  rw [hquoted]
  refine (ArePrintable.cons hmark fun c hc => ?_).append (.cons hmark nofun)
  obtain ⟨n, -, hc⟩ := List.mem_flatMap.mp hc
  exact arePrintable_quotedPoint hmark n c hc

/-- Quoting is a matter of the length of what each point becomes. -/
theorem length_quotedChars_le {t : WireText} {k : Nat}
    (h : ∀ mark, ∀ n ∈ t.points, (quotedPoint mark n).length ≤ k) :
    t.quotedChars.length ≤ k * t.points.length + 2 := by
  obtain ⟨mark, -, hquoted⟩ := t.exists_quotedChars_eq
  have hsum := List.sum_le_card_nsmul (t.points.map fun n => (quotedPoint mark n).length) k
    (List.forall_mem_map.mpr (h mark))
  rw [List.length_map, Nat.nsmul_eq_mul, Nat.mul_comm] at hsum
  simp only [hquoted, List.length_append, List.length_cons, List.length_nil, List.length_flatMap]
  omega

/-- **A text in quotation marks** is at most ten times as long, and the marks. -/
theorem length_quoted_le (t : WireText) : t.quoted.length ≤ 10 * t.points.length + 2 := by
  rw [quoted, String.length_ofList]
  exact length_quotedChars_le fun mark n _ => (length_quotedPoint mark n).2

/-- Nothing of a text is left out. -/
theorem le_length_quoted (t : WireText) : t.points.length + 2 ≤ t.quoted.length := by
  obtain ⟨mark, -, hquoted⟩ := t.exists_quotedChars_eq
  have hsum := List.length_le_sum_of_one_le (t.points.map fun n => (quotedPoint mark n).length)
    (List.forall_mem_map.mpr fun n _ => (length_quotedPoint mark n).1)
  rw [List.length_map] at hsum
  simp only [quoted, String.length_ofList, hquoted, List.length_append, List.length_cons,
    List.length_nil, List.length_flatMap]
  omega

theorem length_points_plain (s : String) : (WireText.plain s).points.length = s.length := by
  rw [points, List.length_map, String.length_toList]

end WireText

namespace Text

theorem quoted_eq (s : String) : quoted s = (WireText.plain s).quoted :=
  rfl

/-- The text of a string is quoted as the string is. -/
theorem length_quoted_le (s : String) : (quoted s).length ≤ 10 * s.length + 2 := by
  rw [quoted_eq, ← WireText.length_points_plain s]
  exact (WireText.plain s).length_quoted_le

theorem le_length_quoted (s : String) : s.length + 2 ≤ (quoted s).length := by
  rw [quoted_eq, ← WireText.length_points_plain s]
  exact (WireText.plain s).le_length_quoted

/-- A text that is cut is as long as the limit and the three points. -/
theorem length_truncate_le (limit : Nat) (s : String) :
    (truncate limit s).length ≤ limit + 3 := by
  rw [truncate]
  split
  · rw [front, if_pos (Int.natCast_nonneg _), String.length_ofList, List.length_append,
      List.length_take]
    exact Nat.add_le_add_right (Nat.min_le_left _ _) 3
  · next hshort =>
    rw [← String.length_toList]
    omega

/-! ## Terse texts

Texts that are put into messages are quoted a second time there. For these the bound of ten
characters would be far too wide, and printable is the property that makes two of it. -/

/-- A printable text of so many characters at the most. -/
structure IsTerse (limit : Nat) (s : String) : Prop where
  length_le : s.length ≤ limit
  arePrintable : ArePrintable s.toList

instance (cs : List Char) : Decidable (ArePrintable cs) :=
  List.decidableBAll (isPrintable · = true) cs

instance (limit : Nat) (s : String) : Decidable (IsTerse limit s) :=
  decidable_of_iff (s.length ≤ limit ∧ ArePrintable s.toList)
    ⟨fun h => ⟨h.1, h.2⟩, fun h => ⟨h.1, h.2⟩⟩

namespace IsTerse

variable {m n : Nat} {s t : String}

theorem mono (h : IsTerse m s) (hn : m ≤ n) : IsTerse n s :=
  ⟨h.length_le.trans hn, h.arePrintable⟩

theorem ofList {cs : List Char} (hn : cs.length ≤ n) (h : ArePrintable cs) :
    IsTerse n (String.ofList cs) :=
  ⟨by rwa [String.length_ofList], by rwa [String.toList_ofList]⟩

theorem append (hs : IsTerse m s) (ht : IsTerse n t) : IsTerse (m + n) (s ++ t) := by
  refine ⟨?_, ?_⟩
  · rw [String.length_append]
    exact Nat.add_le_add hs.length_le ht.length_le
  · rw [String.toList_append]
    exact hs.arePrintable.append ht.arePrintable

/-- **A terse text** is at most doubled, and the marks. -/
theorem length_quoted_le (h : IsTerse n s) : (quoted s).length ≤ 2 * n + 2 := by
  have hdouble : (quoted s).length ≤ 2 * (WireText.plain s).points.length + 2 := by
    rw [quoted_eq, WireText.quoted, String.length_ofList]
    refine WireText.length_quotedChars_le fun mark k hk => ?_
    obtain ⟨c, hc, rfl⟩ := List.mem_map.mp hk
    rw [WireText.quotedPoint_toNat]
    exact length_quotedChar_of_isPrintable mark (h.arePrintable c hc)
  have hlength := h.length_le
  rw [WireText.length_points_plain] at hdouble
  omega

end IsTerse

end Text

end AgentClient
