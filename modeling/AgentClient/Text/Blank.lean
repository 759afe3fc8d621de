/-!
# Text/Blank — blank characters, and text without them at its ends

Unicode's white space, together with the four information separators of ASCII. A line of blanks only
carries nothing: `strip` of it is empty.
-/

namespace AgentClient.Text

/-- The blank characters beyond ASCII. -/
def wideBlanks : List Nat :=
  [0x85, 0xA0, 0x1680, 0x2000, 0x2001, 0x2002, 0x2003, 0x2004, 0x2005, 0x2006, 0x2007, 0x2008,
   0x2009, 0x200A, 0x2028, 0x2029, 0x202F, 0x205F, 0x3000]

/-- The blank characters of ASCII that a number may be surrounded by: tab, line feed, vertical tab,
form feed, carriage return and space. -/
def isAsciiBlank (c : Char) : Bool :=
  c = ' ' || (0x09 ≤ c.toNat && c.toNat ≤ 0x0D)

/-- Whether a character is blank. -/
def isBlank (c : Char) : Bool :=
  isAsciiBlank c || (0x1C ≤ c.toNat && c.toNat ≤ 0x1F) || wideBlanks.contains c.toNat

/-- A list without its last elements as long as they satisfy `p`. -/
def dropEndWhile {α : Type} (p : α → Bool) (xs : List α) : List α :=
  (xs.reverse.dropWhile p).reverse

/-- A text without the characters of `p` at its two ends. -/
def trim (p : Char → Bool) (cs : List Char) : List Char :=
  dropEndWhile p (cs.dropWhile p)

/-- A text without the blanks at its two ends. -/
def strip (s : String) : String :=
  String.ofList (trim isBlank s.toList)

/-- Whether a text holds nothing but blanks. -/
def isBlankText (cs : List Char) : Bool :=
  cs.all isBlank

/-! ## What is left of a blank text -/

theorem dropWhile_eq_nil_iff {α : Type} {p : α → Bool} {xs : List α} :
    xs.dropWhile p = [] ↔ xs.all p = true := by
  induction xs with
  | nil => simp
  | cons x xs ih => by_cases h : p x <;> simp_all

theorem dropEndWhile_eq_nil_iff {α : Type} {p : α → Bool} {xs : List α} :
    dropEndWhile p xs = [] ↔ xs.all p = true := by
  rw [dropEndWhile, List.reverse_eq_nil_iff, dropWhile_eq_nil_iff, List.all_reverse]

theorem all_dropWhile {α : Type} (p : α → Bool) (xs : List α) :
    (xs.dropWhile p).all p = xs.all p := by
  induction xs with
  | nil => rfl
  | cons x xs ih => by_cases h : p x <;> simp_all

/-- **Blank texts are those that nothing is left of.** -/
theorem strip_eq_empty_iff (s : String) : strip s = "" ↔ isBlankText s.toList = true := by
  rw [strip, isBlankText, String.ofList_eq_empty_iff, trim, dropEndWhile_eq_nil_iff, all_dropWhile]

end AgentClient.Text
