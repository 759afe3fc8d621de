import AgentClient.Text.Pieces

/-!
# Proofs/Text/Joined — parts put together, one part after another

A reader takes the first part and goes on with what follows it: what stands behind the parts, or the
separator and the other parts (`toList_join_cons`).
-/

namespace AgentClient.Text

/-- What follows the first of some parts, with what stands behind all of them. -/
def following (sep : String) (texts : List String) (tail : List Char) : List Char :=
  if texts = [] then tail else sep.toList ++ ((join sep texts).toList ++ tail)

/-- With a comma and a blank between the parts. -/
theorem following_comma {texts : List String} (h : texts ≠ []) (tail : List Char) :
    following ", " texts tail = ',' :: ' ' :: ((join ", " texts).toList ++ tail) := by
  rw [following, if_neg h]
  rfl

section

variable (sep : String) (t : String) (ts : List String)

theorem toList_join_cons (tail : List Char) :
    (join sep (t :: ts)).toList ++ tail = t.toList ++ following sep ts tail := by
  cases ts with
  | nil => rfl
  | cons t' ts =>
    rw [join, String.toList_append, String.toList_append, following,
      if_neg (List.cons_ne_nil _ _), List.append_assoc, List.append_assoc]

theorem length_join_cons :
    t.toList.length + (join sep ts).toList.length ≤ (join sep (t :: ts)).toList.length ∧
      (ts ≠ [] → t.toList.length + (join sep ts).toList.length + sep.toList.length
        = (join sep (t :: ts)).toList.length) := by
  cases ts with
  | nil => exact ⟨Nat.le_of_eq (by rfl), fun h => absurd rfl h⟩
  | cons t' ts =>
    have hlen : (join sep (t :: t' :: ts)).toList.length
        = t.toList.length + sep.toList.length + (join sep (t' :: ts)).toList.length := by
      rw [join, String.toList_append, String.toList_append, List.length_append,
        List.length_append]
    exact ⟨by omega, fun _ => by omega⟩

end

/-- The separators count the parts. -/
theorem length_le_join {sep : String} (hsep : 0 < sep.toList.length) (texts : List String) :
    texts.length ≤ (join sep texts).toList.length + 1 := by
  induction texts with
  | nil => exact Nat.zero_le _
  | cons t ts ih =>
    have hlen := (length_join_cons sep t ts).2
    rw [List.length_cons]
    by_cases hts : ts = []
    · subst hts
      exact Nat.le_add_left 1 _
    · have := hlen hts
      omega

end AgentClient.Text
