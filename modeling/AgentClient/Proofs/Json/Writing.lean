import AgentClient.Json.Writer
import AgentClient.Proofs.Json.Documents
import AgentClient.Proofs.Number.Numerals

/-!
# Proofs/Json/Writing — what is written, and that documents can be

A document that is written on one line is printable ASCII, whatever the value is that it was written
of (`writesAscii`).  A value that a document may hold can be written as one, whatever the spacing
(`exists_writeAt`). -/

namespace AgentClient.Json

open Number

/-! ## Printable ASCII

The writer escapes every character that is none of these, so the predicate is closed under all that
it does. A line break is not among them, which is why one line is one line. -/

/-- A text of characters from the space to the tilde. -/
def IsAscii (cs : List Char) : Prop :=
  ∀ c ∈ cs, isAsciiPlain c = true

instance (cs : List Char) : Decidable (IsAscii cs) :=
  decidable_of_iff (cs.all isAsciiPlain = true) List.all_eq_true

theorem IsAscii.append {xs ys : List Char} (hx : IsAscii xs) (hy : IsAscii ys) :
    IsAscii (xs ++ ys) :=
  List.forall_mem_append.mpr ⟨hx, hy⟩

theorem IsAscii.cons {c : Char} {cs : List Char} (hc : isAsciiPlain c = true) (h : IsAscii cs) :
    IsAscii (c :: cs) :=
  List.forall_mem_cons.mpr ⟨hc, h⟩

/-- There is one line of it. -/
theorem IsAscii.not_mem_newline {cs : List Char} (h : IsAscii cs) : '\n' ∉ cs :=
  fun hmem => absurd (h '\n' hmem) (by decide)

/-- What is written for each part is ASCII, so it is for all of them. -/
theorem isAscii_flatMap {α : Type} {f : α → List Char} (h : ∀ a, IsAscii (f a)) (xs : List α) :
    IsAscii (xs.flatMap f) := by
  intro c hc
  obtain ⟨a, -, ha⟩ := List.mem_flatMap.mp hc
  exact h a c ha

/-! ### Texts

An escape is a backslash with letters and digits; any other character is written only if it is
plain. -/

/-- Digits of base sixteen are ASCII. -/
theorem isAscii_hexDigits (width n : Nat) : IsAscii (Text.hexDigits width n) := by
  have hdigit : ∀ d < 16, isAsciiPlain (Text.hexDigit d) = true := by decide
  induction width generalizing n with
  | zero => exact fun c hc => absurd hc List.not_mem_nil
  | succ width ih =>
    rw [Text.hexDigits]
    exact (ih _).append (List.forall_mem_singleton.mpr (hdigit _ (Nat.mod_lt n (by decide))))

theorem isAscii_unitEscape (u : Nat) : IsAscii (unitEscape u) :=
  .cons (by decide) (.cons (by decide) (isAscii_hexDigits 4 u))

/-- An escape is made of digits, one or two times. -/
theorem isAscii_codeEscape (c : Char) : IsAscii (codeEscape c) := by
  rw [codeEscape]
  split
  · exact isAscii_unitEscape _
  · exact (isAscii_unitEscape _).append (isAscii_unitEscape _)

/-- The letters of short escapes are ASCII. -/
theorem isAsciiPlain_of_letter {c letter : Char} (h : shortEscapeLetter? c = some letter) :
    isAsciiPlain letter = true := by
  revert h
  rw [shortEscapeLetter?]
  split
  · next hc =>
    rintro ⟨⟩
    rw [Bool.or_eq_true, decide_eq_true_eq, decide_eq_true_eq] at hc
    rcases hc with rfl | rfl <;> decide
  repeat' split
  all_goals rintro ⟨⟩ <;> decide

/-- Whatever a character is, it is written in ASCII. -/
theorem isAscii_textChar (c : Char) : IsAscii (textChar isAsciiPlain c) := by
  have hnil : IsAscii [] := fun _ h => absurd h List.not_mem_nil
  rw [textChar]
  cases hletter : shortEscapeLetter? c with
  | some letter => exact .cons (by decide) (.cons (isAsciiPlain_of_letter hletter) hnil)
  | none =>
    dsimp only
    split
    · next hc => exact .cons hc hnil
    · exact isAscii_codeEscape c

/-- A code point that is no character is written as an escape. -/
theorem isAscii_asciiPoint (n : Nat) : IsAscii (asciiPoint n) := by
  rw [asciiPoint]
  split
  · exact isAscii_textChar _
  · exact isAscii_unitEscape n

/-- **Texts are written in ASCII**, whatever characters they have. -/
theorem isAscii_asciiText (t : WireText) : IsAscii (asciiText t).toList := by
  have hmarked : ∀ {cs : List Char}, IsAscii cs → IsAscii ('"' :: cs ++ ['"']) :=
    fun h => (IsAscii.cons (by decide) h).append (.cons (by decide) nofun)
  cases t with
  | plain s =>
    rw [asciiText, String.toList_ofList]
    exact hmarked (isAscii_flatMap isAscii_textChar _)
  | broken points =>
    rw [asciiText, String.toList_ofList]
    exact hmarked (isAscii_flatMap isAscii_asciiPoint _)

/-! ### Numbers

Digits are plain characters, and so are the point, the signs and the letter of an exponent. -/

/-- Digits are ASCII. -/
theorem isAscii_of_areDigits {cs : List Char} (h : AreDigits cs) : IsAscii cs := by
  intro c hc
  have hdigit := h c hc
  rw [Char.isDigit, Bool.and_eq_true, decide_eq_true_eq, decide_eq_true_eq, ge_iff_le,
    UInt32.le_iff_toNat_le, UInt32.le_iff_toNat_le] at hdigit
  have hlow : 48 ≤ c.toNat := hdigit.1
  have hhigh : c.toNat ≤ 57 := hdigit.2
  rw [isAsciiPlain, Bool.and_eq_true, decide_eq_true_eq, decide_eq_true_eq]
  omega

/-- Whole numbers are written in digits, with a minus or without. -/
theorem isAscii_intText (n : Int) : IsAscii (intText n).toList := by
  cases n with
  | ofNat m =>
    rw [intText, String.toList_ofList]
    exact isAscii_of_areDigits (areDigits_digits m)
  | negSucc m =>
    rw [intText, String.toList_ofList]
    exact .cons (by decide) (isAscii_of_areDigits (areDigits_digits (m + 1)))

/-- A number with a fraction or an exponent is made of digits, a point, a letter and a sign. -/
theorem isAscii_of_isPointed {cs : List Char} (h : IsPointed cs) : IsAscii cs := by
  cases h with
  | mk hw hp he _ =>
    refine (isAscii_of_areDigits hw.areDigits).append (IsAscii.append ?_ ?_)
    · cases hp with
      | absent => exact nofun
      | digits hds => exact .cons (by decide) (isAscii_of_areDigits hds)
    · cases he with
      | absent => exact nofun
      | digits hsign hds =>
        refine .cons (by decide) (.cons ?_ (isAscii_of_areDigits hds))
        rcases hsign with rfl | rfl <;> decide

/-- So are floating-point numbers; those that are not finite are words. -/
theorem isAscii_floatText (x : Binary64) : IsAscii (floatText x).toList := by
  cases x with
  | nan => exact by decide
  | infinite negative => cases negative <;> exact by decide
  | finite negative m e =>
    obtain ⟨negative', body, htext, hbody⟩ := exists_shortText (x := .finite negative m e) rfl
    rw [floatText, htext]
    · refine IsAscii.append ?_ (isAscii_of_isPointed hbody)
      cases negative' with
      | true => exact .cons (by decide) nofun
      | false => exact nofun
    all_goals exact nofun

theorem isAscii_intDocument {n : Int} {text : String} (h : intDocument n = .ok text) :
    IsAscii text.toList := by
  revert h
  rw [intDocument]
  split
  · rintro ⟨⟩
  · rintro ⟨⟩
    exact isAscii_intText n

/-! ### Parts

Parts are joined with a comma and a blank and enclosed in brackets, all of which are plain. -/

/-- Parts in ASCII are so with a separator between them. -/
theorem isAscii_join {sep : String} (hsep : IsAscii sep.toList) {parts : List String}
    (h : ∀ part ∈ parts, IsAscii part.toList) : IsAscii (Text.join sep parts).toList := by
  induction parts with
  | nil => exact nofun
  | cons part parts ih =>
    rw [List.forall_mem_cons] at h
    cases parts with
    | nil => exact h.1
    | cons next parts =>
      rw [Text.join, String.toList_append, String.toList_append]
      exact (h.1.append hsep).append (ih h.2)

/-- Parts between two marks on one line are ASCII if the marks are. -/
theorem isAscii_enclose {level : Nat} {left right : String} (hleft : IsAscii left.toList)
    (hright : IsAscii right.toList) {parts : List String}
    (h : ∀ part ∈ parts, IsAscii part.toList) :
    IsAscii (Spacing.oneLine.enclose level left right parts).toList := by
  have hedge : IsAscii "".toList := nofun
  have hsep : IsAscii ", ".toList := by decide
  rw [Spacing.enclose]
  split
  · rw [String.toList_append]
    exact hleft.append hright
  · simp only [String.toList_append]
    exact (((hleft.append hedge).append (isAscii_join hsep h)).append hedge).append hright

/-! ## Documents

The writer goes through the value, its items and its entries, and fails with the first part that
cannot be written. So whatever was written has parts that were, and the property of the whole
follows from theirs by recursion along the same lines. -/

section

variable {s : Spacing} {level : Nat} {text : String} {texts : List String}

/-- A list that is written is the texts of its members between brackets. -/
theorem exists_of_writeAt_list {items : List Value} (h : writeAt s level (.list items) = .ok text) :
    ∃ parts, writeItems s (level + 1) items = .ok parts ∧ text = s.enclose level "[" "]" parts := by
  rw [writeAt] at h
  obtain ⟨parts, hparts, h⟩ := exists_of_bind_eq_ok h
  exact ⟨parts, hparts, (Except.ok.inj h).symm⟩

/-- A table that is written is the texts of its entries between braces. -/
theorem exists_of_writeAt_table {entries : List (Value × Value)}
    (h : writeAt s level (.table entries) = .ok text) :
    ∃ parts, writeEntries s (level + 1) entries = .ok parts ∧
      text = s.enclose level "\x7b" "\x7d" parts := by
  rw [writeAt] at h
  obtain ⟨parts, hparts, h⟩ := exists_of_bind_eq_ok h
  exact ⟨parts, hparts, (Except.ok.inj h).symm⟩

/-- The members are written one after another. -/
theorem exists_of_writeItems_cons {v : Value} {vs : List Value}
    (h : writeItems s level (v :: vs) = .ok texts) :
    ∃ t ts, writeAt s level v = .ok t ∧ writeItems s level vs = .ok ts ∧ texts = t :: ts := by
  rw [writeItems] at h
  obtain ⟨t, ht, h⟩ := exists_of_bind_eq_ok h
  obtain ⟨ts, hts, h⟩ := exists_of_bind_eq_ok h
  exact ⟨t, ts, ht, hts, (Except.ok.inj h).symm⟩

/-- The entries are written one after another, each with its key, a colon and its value. -/
theorem exists_of_writeEntries_cons {key v : Value} {entries : List (Value × Value)}
    (h : writeEntries s level ((key, v) :: entries) = .ok texts) :
    ∃ k t ts, keyText key = .ok k ∧ writeAt s level v = .ok t ∧
      writeEntries s level entries = .ok ts ∧ texts = (asciiText k ++ ": " ++ t) :: ts := by
  rw [writeEntries] at h
  obtain ⟨k, hk, h⟩ := exists_of_bind_eq_ok h
  obtain ⟨t, ht, h⟩ := exists_of_bind_eq_ok h
  obtain ⟨ts, hts, h⟩ := exists_of_bind_eq_ok h
  exact ⟨k, t, ts, hk, ht, hts, (Except.ok.inj h).symm⟩

end

/-- A value that is written in ASCII on one line, if it is written. -/
def WritesAscii (v : Value) : Prop :=
  ∀ ⦃level : Nat⦄ ⦃text : String⦄, writeAt .oneLine level v = .ok text → IsAscii text.toList

theorem writesAscii_int (n : Int) : WritesAscii (.int n) := by
  intro level text h
  rw [writeAt] at h
  exact isAscii_intDocument h

theorem writesAscii_bool (b : Bool) : WritesAscii (.bool b) := by
  cases b <;> exact fun _ _ h => Except.ok.inj h ▸ by decide

mutual

/-- **A document that is written on one line** is printable ASCII. -/
theorem writesAscii : ∀ v : Value, WritesAscii v
  | .null => fun _ _ h => Except.ok.inj h ▸ by decide
  | .bool b => writesAscii_bool b
  | .int n => writesAscii_int n
  | .float x => fun _ _ h => Except.ok.inj h ▸ isAscii_floatText x
  | .str s => fun _ _ h => Except.ok.inj h ▸ isAscii_asciiText (.plain s)
  | .broken points => fun _ _ h => Except.ok.inj h ▸ isAscii_asciiText (.broken points)
  | .list items | .tuple items => fun _ _ h => by
    obtain ⟨parts, hparts, rfl⟩ := exists_of_writeAt_list h
    exact isAscii_enclose (by decide) (by decide) (writesAscii_items items hparts)
  | .table entries => fun _ _ h => by
    obtain ⟨parts, hparts, rfl⟩ := exists_of_writeAt_table h
    exact isAscii_enclose (by decide) (by decide) (writesAscii_entries entries hparts)
  | .model _ | .foreign _ => fun _ _ h => absurd h nofun

theorem writesAscii_items : ∀ (vs : List Value) ⦃level : Nat⦄ ⦃texts : List String⦄,
    writeItems .oneLine level vs = .ok texts → ∀ text ∈ texts, IsAscii text.toList
  | [] => fun _ _ h => Except.ok.inj h ▸ nofun
  | v :: vs => fun _ _ h => by
    obtain ⟨t, ts, ht, hts, rfl⟩ := exists_of_writeItems_cons h
    exact List.forall_mem_cons.mpr ⟨writesAscii v ht, writesAscii_items vs hts⟩

theorem writesAscii_entries : ∀ (entries : List (Value × Value)) ⦃level : Nat⦄
    ⦃texts : List String⦄,
    writeEntries .oneLine level entries = .ok texts → ∀ text ∈ texts, IsAscii text.toList
  | [] => fun _ _ h => Except.ok.inj h ▸ nofun
  | (key, v) :: entries => fun _ _ h => by
    obtain ⟨k, t, ts, -, ht, hts, rfl⟩ := exists_of_writeEntries_cons h
    refine List.forall_mem_cons.mpr ⟨?_, writesAscii_entries entries hts⟩
    rw [String.toList_append, String.toList_append]
    exact ((isAscii_asciiText k).append (by decide)).append (writesAscii v ht)

end

/-! ## Documents can be written

Only a whole number that is too long, an unwritable key, or something that no document holds is
refused. None of them occurs in a value that a document may hold, at any level of indentation. -/

/-- The key that a text is stands as that text. -/
theorem keyText_toValue (t : WireText) : keyText t.toValue = .ok t := by
  cases t <;> rfl

section

variable {s : Spacing}

/-- Members that can be written can be so one after another. -/
theorem exists_writeItems {vs : List Value} (h : ∀ v ∈ vs, ∀ level, ∃ t, writeAt s level v = .ok t)
    (level : Nat) : ∃ ts, writeItems s level vs = .ok ts := by
  induction vs with
  | nil => exact ⟨[], rfl⟩
  | cons v vs ih =>
    rw [List.forall_mem_cons] at h
    obtain ⟨t, ht⟩ := h.1 level
    obtain ⟨ts, hts⟩ := ih h.2
    rw [writeItems, ht, hts]
    exact ⟨_, rfl⟩

/-- Entries with texts for keys can be written if their values can. -/
theorem exists_writeEntries {entries : Table} (hkeys : entries.HasTextKeys)
    (h : ∀ e ∈ entries, ∀ level, ∃ t, writeAt s level e.2 = .ok t) (level : Nat) :
    ∃ ts, writeEntries s level entries = .ok ts := by
  induction entries with
  | nil => exact ⟨[], rfl⟩
  | cons e entries ih =>
    obtain ⟨key, v⟩ := e
    rw [Table.HasTextKeys, List.forall_mem_cons] at hkeys
    rw [List.forall_mem_cons] at h
    obtain ⟨⟨k, -, rfl⟩, hkeys⟩ := hkeys
    obtain ⟨t, ht⟩ := h.1 level
    obtain ⟨ts, hts⟩ := ih hkeys h.2
    rw [writeEntries, keyText_toValue, ht, hts]
    exact ⟨_, rfl⟩

/-- **A value that a document may hold** can be written as one. -/
theorem exists_writeAt {depth : Nat} {v : Value} (h : v.IsDocument depth) (level : Nat) :
    ∃ text, writeAt s level v = .ok text := by
  -- On the document: whole numbers are short enough, keys are texts, and nothing else can fail.
  induction h generalizing level with
  | null => exact ⟨_, rfl⟩
  | bool b => cases b <;> exact ⟨_, rfl⟩
  | int hn =>
    rw [writeAt, intDocument, hn]
    exact ⟨_, rfl⟩
  | float hx => exact ⟨_, rfl⟩
  | @text _ t _ => cases t <;> exact ⟨_, rfl⟩
  | list _ ih =>
    obtain ⟨ts, hts⟩ := exists_writeItems ih (level + 1)
    rw [writeAt, hts]
    exact ⟨_, rfl⟩
  | table hkeys _ _ ih =>
    obtain ⟨ts, hts⟩ := exists_writeEntries hkeys ih (level + 1)
    rw [writeAt, hts]
    exact ⟨_, rfl⟩

end

end AgentClient.Json
