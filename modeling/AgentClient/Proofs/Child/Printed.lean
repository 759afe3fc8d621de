import AgentClient.Proofs.Child.Lines

/-!
# Proofs/Child/Printed — the lines that a child has printed

`Prints` says in which texts lines may be printed: a line feed ends each of them, perhaps with a
carriage return before it and perhaps not the last one, and blank lines stand anywhere.  Cutting
such a text gives the lines back, apart from carriage returns at their ends
(`Prints.forall₂_carrying`), and so does a child that writes it, in whatever portions
(`PrintsLines.exists_ofScript_eq`). -/

namespace AgentClient

open Text

/-! ## Printed lines

A child may end its lines as it likes and put blank lines between them. `Prints` has one constructor
for each way in which a text may go on, and the proofs about it follow these. -/

/-- A line, or the same line with a carriage return at its end. -/
def MayReturn (line line' : String) : Prop :=
  line' = line ∨ line' = line ++ "\r"

/-- A line that carries something. -/
structure IsWireLine (line : String) : Prop where
  newline_not_mem : '\n' ∉ line.toList
  not_blank : isBlankText line.toList = false

/-- **The texts in which lines are printed.** -/
inductive Prints : List String → List Char → Prop
  /-- The text may end in a blank line that is not ended, or in an empty one. -/
  | lastBlank {gap : List Char} (hblank : isBlankText gap = true) (hnewline : '\n' ∉ gap) :
    Prints [] gap
  /-- A blank line. -/
  | blank {gap : List Char} (hblank : isBlankText gap = true) (hnewline : '\n' ∉ gap)
      {lines : List String} {text : List Char} (h : Prints lines text) :
    Prints lines (gap ++ '\n' :: text)
  /-- The last line may not be ended. -/
  | last {line : String} (hline : IsWireLine line) : Prints [line] line.toList
  /-- A line with its end. -/
  | line {line line' : String} (hline : IsWireLine line) (hreturn : MayReturn line line')
      {lines : List String} {text : List Char} (h : Prints lines text) :
    Prints (line :: lines) (line'.toList ++ '\n' :: text)

/-- With a carriage return, a line that carries something still does. -/
theorem IsWireLine.of_mayReturn {line line' : String} (h : IsWireLine line)
    (hreturn : MayReturn line line') : IsWireLine line' := by
  obtain ⟨hnewline, hblank⟩ := h
  rcases hreturn with rfl | rfl
  · exact ⟨hnewline, hblank⟩
  · have hend : (line ++ "\r").toList = line.toList ++ ['\r'] := String.toList_append
    refine ⟨?_, ?_⟩
    · rw [hend, List.mem_append, not_or]
      exact ⟨hnewline, by decide⟩
    · rw [hend, isBlankText, List.all_append, ← isBlankText, hblank, Bool.false_and]

namespace Framing

theorem carrying_cons_of_blank {l : List Char} (h : isBlankText l = true) (ls : List (List Char)) :
    carrying (l :: ls) = carrying ls := by
  rw [carrying, List.filter_cons, h]
  rfl

theorem carrying_cons_of_isWireLine {line : String} (h : IsWireLine line) (ls : List (List Char)) :
    carrying (line.toList :: ls) = line :: carrying ls := by
  rw [carrying, List.filter_cons, h.not_blank]
  exact congrArg (· :: carrying ls) String.ofList_toList

end Framing

/-- **Cutting a text in which lines are printed** gives the lines, apart from carriage returns at
their ends. -/
theorem Prints.forall₂_carrying {lines : List String} {text : List Char} (h : Prints lines text) :
    List.Forall₂ MayReturn lines (Framing.carrying (splitAt '\n' text)) := by
  induction h with
  | lastBlank hblank hnewline =>
    rw [splitAt_eq_singleton hnewline, Framing.carrying_cons_of_blank hblank]
    exact .nil
  | blank hblank hnewline h ih =>
    rw [splitAt_append_cons _ hnewline, Framing.carrying_cons_of_blank hblank]
    exact ih
  | last hline =>
    rw [splitAt_eq_singleton hline.newline_not_mem, Framing.carrying_cons_of_isWireLine hline]
    exact .cons (.inl rfl) .nil
  | line hline hreturn h ih =>
    have hline' := hline.of_mayReturn hreturn
    rw [splitAt_append_cons _ hline'.newline_not_mem, Framing.carrying_cons_of_isWireLine hline']
    exact .cons hreturn ih

/-! ## A child that prints lines

Such a child writes the text as UTF-8, cut into portions anywhere, also inside a character. -/

/-- An encoded text is read back. -/
theorem Text.Utf8.decode_encode (text : List Char) :
    decode (text.flatMap String.utf8EncodeChar) = text := by
  induction text with
  | nil => rfl
  | cons c text ih => rw [List.flatMap_cons, decode_encode_append, ih]

/-- **A child that prints lines** and exits with code 0: it comes up, does not keep its parent
waiting, and writes an encoded text in which the lines are printed. -/
structure Script.PrintsLines (s : Script) (lines : List String) : Prop where
  refusal_eq : s.refusal = none
  answersPrompt : s.AnswersPrompt
  exists_output : ∃ (portions : List (List UInt8)) (text : List Char),
    s.output = portions.map .bytes ∧ portions.flatten = text.flatMap String.utf8EncodeChar ∧
      Prints lines text
  exits : s.exits = true
  code_eq : s.code = 0

/-- **What the parent gets** are the lines, apart from carriage returns at their ends, and no
failure. -/
theorem Script.PrintsLines.exists_ofScript_eq {s : Script} {lines : List String}
    (h : s.PrintsLines lines) (executable : String) (timeout : Value) (deadline : Deadline) :
    ∃ lines', List.Forall₂ MayReturn lines lines' ∧
      Delivery.ofScript executable timeout deadline s = ⟨lines', none, true⟩ := by
  obtain ⟨portions, text, hout, hbytes, hprints⟩ := h.exists_output
  have hlines : ({} : Framing).lines s.output
      = (Framing.carrying (splitAt '\n' (Utf8.decode portions.flatten)), true) := by
    rw [hout, Framing.lines_bytes List.not_mem_nil]
    rfl
  rw [hbytes, Utf8.decode_encode] at hlines
  refine ⟨_, hprints.forall₂_carrying, ?_⟩
  rw [h.answersPrompt.ofScript_eq, hlines, h.exits, Delivery.exitFailure, if_pos h.code_eq]
  rfl

end AgentClient
