/-!
# Text/Pieces — texts cut at a separator, and put together with one
-/

namespace AgentClient.Text

/-- The pieces of a text between the occurrences of a separator: one more than there are
separators. -/
def splitAt (sep : Char) : List Char → List (List Char)
  | [] => [[]]
  | c :: cs =>
    if c = sep then [] :: splitAt sep cs
    else match splitAt sep cs with
      | [] => [[c]]
      | piece :: pieces => (c :: piece) :: pieces

/-- The pieces of a string between the occurrences of a separator. -/
def split (sep : Char) (s : String) : List String :=
  (splitAt sep s.toList).map String.ofList

/-- The parts of a text before and after the first separator. -/
def cut? (sep : Char) : List Char → Option (List Char × List Char)
  | [] => none
  | c :: cs => if c = sep then some ([], cs) else (cut? sep cs).map fun (a, b) => (c :: a, b)

/-- Texts one after another with a separator between neighbours. -/
def join (sep : String) : List String → String
  | [] => ""
  | [s] => s
  | s :: t :: rest => s ++ sep ++ join sep (t :: rest)

/-! ## Facts about the pieces -/

theorem splitAt_ne_nil (sep : Char) (cs : List Char) : splitAt sep cs ≠ [] := by
  fun_induction splitAt sep cs <;> simp

/-- A text has one piece more than it has separators. -/
theorem length_splitAt (sep : Char) (cs : List Char) :
    (splitAt sep cs).length = cs.count sep + 1 := by
  induction cs with
  | nil => rfl
  | cons c cs ih =>
    by_cases h : c = sep
    · simp [splitAt, h, ih]
    · rw [splitAt, if_neg h, List.count_cons_of_ne h, ← ih]
      cases hs : splitAt sep cs with
      | nil => exact absurd hs (splitAt_ne_nil sep cs)
      | cons => simp

/-- **Nothing is lost**: the pieces with the separator between neighbours are the text. -/
theorem intercalate_splitAt (sep : Char) (cs : List Char) :
    [sep].intercalate (splitAt sep cs) = cs := by
  induction cs with
  | nil => rfl
  | cons c cs ih =>
    cases hs : splitAt sep cs with
    | nil => exact absurd hs (splitAt_ne_nil sep cs)
    | cons piece pieces =>
      rw [hs] at ih
      by_cases h : c = sep
      · subst h
        simp [splitAt, hs, List.intercalate] at ih ⊢
        exact ih
      · rw [splitAt, if_neg h, hs]
        cases pieces <;> simp_all [List.intercalate]

/-- No piece holds a separator. -/
theorem not_mem_of_mem_splitAt {sep : Char} {cs piece : List Char}
    (h : piece ∈ splitAt sep cs) : sep ∉ piece := by
  fun_induction splitAt sep cs generalizing piece <;> grind

/-- A text without separators is its only piece. -/
theorem splitAt_eq_singleton {sep : Char} {cs : List Char} (h : sep ∉ cs) :
    splitAt sep cs = [cs] := by
  induction cs with
  | nil => rfl
  | cons c cs ih =>
    rw [List.mem_cons, not_or] at h
    rw [splitAt, if_neg (Ne.symm h.1), ih h.2]

/-- A text up to the first separator is the first piece. -/
theorem splitAt_append_cons {sep : Char} {cs : List Char} (rest : List Char) (h : sep ∉ cs) :
    splitAt sep (cs ++ sep :: rest) = cs :: splitAt sep rest := by
  induction cs with
  | nil => simp [splitAt]
  | cons c cs ih =>
    rw [List.mem_cons, not_or] at h
    rw [List.cons_append, splitAt, if_neg (Ne.symm h.1), ih h.2]

/-- A text is cut at its first separator. -/
theorem cut?_append_cons {sep : Char} {cs : List Char} (rest : List Char) (h : sep ∉ cs) :
    cut? sep (cs ++ sep :: rest) = some (cs, rest) := by
  induction cs with
  | nil => rw [List.nil_append, cut?, if_pos rfl]
  | cons c cs ih =>
    rw [List.mem_cons, not_or] at h
    rw [List.cons_append, cut?, if_neg (Ne.symm h.1), ih h.2]
    rfl

/-- **What comes behind a text continues its last piece.** -/
theorem splitAt_append (sep : Char) (cs ds : List Char) :
    splitAt sep (cs ++ ds)
      = (splitAt sep cs).dropLast ++ splitAt sep ((splitAt sep cs).getLastD [] ++ ds) := by
  induction cs with
  | nil => rfl
  | cons c cs ih =>
    cases hs : splitAt sep cs with
    | nil => exact absurd hs (splitAt_ne_nil sep cs)
    | cons piece pieces =>
      rw [hs] at ih
      by_cases h : c = sep
      · simp [splitAt, h, hs, ih]
      · cases pieces <;> simp_all [splitAt]

/-- The last piece holds no separator. -/
theorem not_mem_getLastD_splitAt (sep : Char) (cs : List Char) :
    sep ∉ (splitAt sep cs).getLastD [] := by
  rw [List.getLastD_eq_getLast?, List.getLast?_eq_some_getLast (splitAt_ne_nil sep cs)]
  exact not_mem_of_mem_splitAt (List.getLast_mem _)

end AgentClient.Text
