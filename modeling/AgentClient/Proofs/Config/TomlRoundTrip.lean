import AgentClient.Proofs.Config.TomlScalars
import AgentClient.Proofs.Text.Joined

/-!
# Proofs/Config/TomlRoundTrip — a value written as TOML reads back, and exactly when

A value that can be written reads back as itself, its tuples as lists, unless a table inside it has
a key that is bare but for a line feed at its end; the text is then no TOML at all
(`read_toml_iff`).  The induction is over values, members and entries at once (`readsBack`).  It
carries whatever follows in the text, which a number must be told apart from, and any fuel that is
no less than the length of what was written.

Half of a surrogate pair stands in no TOML text, so values with one are left out (`isFaithful`).
-/

namespace AgentClient

open Number Config

namespace Value

/-! ## What is to be read

A tuple is written as an array and so read as a list. A value is faithful if its text can stand for
it: the parts about texts and keys are conditions on the value, the one about numbers says that a
floating-point number is the one that its own text is read as. -/

mutual

/-- A value with lists in the place of its tuples. -/
def untupled : Value → Value
  | .list items | .tuple items => .list (untupledItems items)
  | .table entries => .table (untupledEntries entries)
  | v => v

/-- Members with lists in the place of their tuples. -/
def untupledItems : List Value → List Value
  | [] => []
  | v :: vs => v.untupled :: untupledItems vs

/-- Entries with lists in the place of the tuples in their values. -/
def untupledEntries : List (Value × Value) → List (Value × Value)
  | [] => []
  | (key, v) :: rest => (key, v.untupled) :: untupledEntries rest

end

mutual

/-- Whether a table inside a value has a key that is bare but for a line feed at its end. -/
def hasLineKey : Value → Bool
  | .list items | .tuple items => anyLineKey items
  | .table entries => entriesLineKey entries
  | _ => false

/-- Whether a table inside one of some values has such a key. -/
def anyLineKey : List Value → Bool
  | [] => false
  | v :: vs => v.hasLineKey || anyLineKey vs

/-- Whether one of some entries has such a key, or a table inside its value has one. -/
def entriesLineKey : List (Value × Value) → Bool
  | [] => false
  | (key, v) :: rest =>
    (match key with | .str name => Toml.isLineKey name | _ => false) || v.hasLineKey
      || entriesLineKey rest

end

mutual

/-- Whether a value is one that a text can stand for: its texts are strings of characters, its
tables name no key twice, and its floating-point numbers are those that their texts stand for. -/
def isFaithful : Value → Bool
  | .broken _ => false
  | .float x => readFloat? x.shortText = some x
  | .list items | .tuple items => allFaithful items
  | .table entries => (entries.map Prod.fst).Nodup && entriesFaithful entries
  | _ => true

/-- Whether all of some values are. -/
def allFaithful : List Value → Bool
  | [] => true
  | v :: vs => v.isFaithful && allFaithful vs

/-- Whether all of some entries are, keys and values. -/
def entriesFaithful : List (Value × Value) → Bool
  | [] => true
  | (key, v) :: rest => key.isFaithful && v.isFaithful && entriesFaithful rest

end

/-- Keys stay as they are. -/
theorem map_fst_untupledEntries (entries : List (Value × Value)) :
    (untupledEntries entries).map Prod.fst = entries.map Prod.fst := by
  induction entries with
  | nil => rfl
  | cons e entries ih =>
    obtain ⟨key, v⟩ := e
    rw [untupledEntries, List.map_cons, List.map_cons, ih]

/-- A key that is none of some entries' is none of theirs without tuples. -/
theorem any_untupledEntries_eq_false {key : Value} {entries : List (Value × Value)}
    (hkey : key ∉ entries.map Prod.fst) :
    (untupledEntries entries).any (fun e => e.1 = key) = false := by
  rw [List.any_eq_false]
  intro e he hsame
  refine hkey ?_
  rw [← map_fst_untupledEntries, ← of_decide_eq_true hsame]
  exact List.mem_map_of_mem he

end Value

namespace Toml

open Text (following following_comma toList_join_cons length_join_cons)

/-! ## How what is written begins

A reader decides by the first character what it reads, and skips blanks before it looks. So for each
kind of text that is written it is enough to know the characters that it can begin with. -/

/-- The characters that written numbers begin with. -/
def isNumberOpening (c : Char) : Bool :=
  c = '-' || c.isDigit

/-- The characters that written values begin with. -/
def isOpening (c : Char) : Bool :=
  c = '"' || c = '[' || c = '\x7b' || c = 't' || c = 'f' || isNumberOpening c

/-- A character of a kind is none that is not of it. -/
theorem ne_of_class {p : Char → Bool} {c d : Char} (hc : p c = true) (hd : p d = false) :
    c ≠ d := by
  rintro rfl
  exact absurd (hd.symm.trans hc) Bool.false_ne_true

/-- A text that begins with a character of this kind. -/
def BeginsWith (p : Char → Bool) (cs : List Char) : Prop :=
  ∃ c rest, cs = c :: rest ∧ p c = true

namespace BeginsWith

variable {p : Char → Bool} {cs : List Char}

theorem append (h : BeginsWith p cs) (more : List Char) : BeginsWith p (cs ++ more) := by
  obtain ⟨c, rest, rfl, hc⟩ := h
  exact ⟨c, rest ++ more, rfl, hc⟩

/-- A number begins like a value. -/
theorem isOpening_of_isNumberOpening (h : BeginsWith isNumberOpening cs) :
    BeginsWith isOpening cs := by
  obtain ⟨c, rest, rfl, hc⟩ := h
  exact ⟨c, rest, rfl, by rw [isOpening, hc, Bool.or_true]⟩

theorem ne_cons (h : BeginsWith p cs) {d : Char} (hd : p d = false) (rest : List Char) :
    cs ≠ d :: rest := by
  obtain ⟨c, more, rfl, hc⟩ := h
  exact fun hcons => ne_of_class hc hd (List.cons.inj hcons).1

/-- No blank is skipped where none may stand. -/
theorem skipBlanks_eq (h : BeginsWith p cs) (hspace : p ' ' = false) (htab : p '\t' = false) :
    skipBlanks cs = cs := by
  obtain ⟨c, rest, rfl, hc⟩ := h
  rw [skipBlanks, List.dropWhile_cons, if_neg]
  simp [ne_of_class hc hspace, ne_of_class hc htab]

/-- Nothing is skipped in front of a value. -/
theorem skipLines_eq (h : BeginsWith isOpening cs) : skipLines cs = cs := by
  obtain ⟨c, rest, rfl, hc⟩ := h
  have hne : ∀ d, isOpening d = false → c ≠ d := fun d hd => ne_of_class hc hd
  have hspace := hne ' ' (by decide)
  have htab := hne '\t' (by decide)
  have hline := hne '\n' (by decide)
  have hreturn := hne '\r' (by decide)
  rw [skipLines.eq_def]
  simp [hspace, htab, hline, hreturn]

theorem skipBlanks_space (h : BeginsWith isOpening cs) : skipBlanks (' ' :: cs) = cs :=
  h.skipBlanks_eq (by decide) (by decide)

end BeginsWith

theorem beginsWith_digits (n : Nat) : BeginsWith isNumberOpening (digits n) := by
  obtain ⟨c, cs, hcs⟩ := List.exists_cons_of_ne_nil (digits_ne_nil n)
  refine ⟨c, cs, hcs, ?_⟩
  rw [isNumberOpening, areDigits_digits n c (hcs ▸ List.mem_cons_self), Bool.or_true]

theorem beginsWith_intText (n : Int) : BeginsWith isNumberOpening (intText n).toList := by
  cases n with
  | ofNat m =>
    rw [intText, String.toList_ofList]
    exact beginsWith_digits m
  | negSucc m =>
    rw [intText, String.toList_ofList]
    exact ⟨'-', _, rfl, rfl⟩

/-- A floating-point number begins with a minus or a digit. -/
theorem beginsWith_shortText {x : Binary64} (hx : x.isFinite = true) :
    BeginsWith isNumberOpening x.shortText.toList := by
  obtain ⟨negative, body, htext, hbody⟩ := exists_shortText hx
  rw [htext]
  cases negative with
  | true => exact ⟨'-', _, rfl, rfl⟩
  | false =>
    cases hbody with
    | @mk whole part exponent hw =>
      obtain ⟨c, cs, rfl⟩ := List.exists_cons_of_ne_nil hw.ne_nil
      refine ⟨c, cs ++ (part ++ exponent), rfl, ?_⟩
      rw [isNumberOpening, hw.areDigits c List.mem_cons_self, Bool.or_true]

/-- What is written of a sequence stands between brackets. -/
theorem exists_items_of_toml {path text : String} {items : List Value}
    (h : (do return "[" ++ Text.join ", " (← tomlItems path 0 items) ++ "]") = Except.ok text) :
    ∃ texts, tomlItems path 0 items = .ok texts ∧
      text.toList = '[' :: ((Text.join ", " texts).toList ++ [']']) := by
  revert h
  cases tomlItems path 0 items with
  | error f => rintro ⟨⟩
  | ok texts =>
    rintro ⟨⟩
    refine ⟨texts, rfl, ?_⟩
    rw [String.toList_append, String.toList_append]
    rfl

/-- What is written of a table stands between braces. -/
theorem exists_entries_of_toml {path text : String} {entries : List (Value × Value)}
    (h : toml path (.table entries) = .ok text) :
    ∃ texts, tomlEntries path entries = .ok texts ∧
      text.toList = '\x7b' :: ((Text.join ", " texts).toList ++ ['\x7d']) := by
  revert h
  rw [toml]
  cases tomlEntries path entries with
  | error f => rintro ⟨⟩
  | ok texts =>
    rintro ⟨⟩
    refine ⟨texts, rfl, ?_⟩
    rw [String.toList_append, String.toList_append]
    rfl

/-- **What is written of a value** begins like one. -/
theorem beginsWith_toml {path text : String} {v : Value} (h : toml path v = .ok text) :
    BeginsWith isOpening text.toList := by
  -- Each form begins with a mark of its own, which is how the reader tells them apart.
  cases v with
  | str s =>
    obtain rfl := Except.ok.inj h
    exact ⟨'"', _, toList_tomlText s, rfl⟩
  | broken points =>
    obtain rfl := Except.ok.inj h
    exact ⟨'"', _, toList_tomlText _, rfl⟩
  | bool b =>
    cases b with
    | true => exact Except.ok.inj h ▸ ⟨'t', _, rfl, rfl⟩
    | false => exact Except.ok.inj h ▸ ⟨'f', _, rfl, rfl⟩
  | int n =>
    revert h
    rw [toml]
    split
    · rintro ⟨⟩
    · rintro ⟨⟩
      exact (beginsWith_intText n).isOpening_of_isNumberOpening
  | float x =>
    revert h
    rw [toml]
    split
    · next hx =>
      rintro ⟨⟩
      exact (beginsWith_shortText hx).isOpening_of_isNumberOpening
    · rintro ⟨⟩
  | list items | tuple items =>
    obtain ⟨texts, -, htext⟩ := exists_items_of_toml h
    exact ⟨'[', _, htext, rfl⟩
  | table entries =>
    obtain ⟨texts, -, htext⟩ := exists_entries_of_toml h
    exact ⟨'\x7b', _, htext, rfl⟩
  | null | model | foreign => exact absurd h nofun

/-! ## How the reader goes on

One equation for each way in which the reader can go on, with its fuel made explicit. The proofs
below use these and never unfold the reader. -/

/-- What begins with none of the marks is read as a number. -/
theorem readValue_number {c : Char} (hc : isNumberOpening c = true) (fuel : Nat) (cs : List Char) :
    readValue (fuel + 1) (c :: cs) = readNumber (c :: cs) := by
  have hne : ∀ d, isNumberOpening d = false → c ≠ d := fun d hd => ne_of_class hc hd
  rw [readValue, if_neg (hne '"' (by decide)), if_neg (hne '[' (by decide)),
    if_neg (hne '\x7b' (by decide)), if_neg (hne 't' (by decide)), if_neg (hne 'f' (by decide))]

section

variable {fuel : Nat} {cs rest : List Char} {v : Value}

theorem readItems_blank (fuel : Nat) (cs : List Char) :
    readItems fuel (' ' :: cs) = readItems fuel cs := by
  cases fuel with
  | zero => rfl
  | succ fuel =>
    rw [readItems, readItems]
    rfl

section

variable (hb : BeginsWith isOpening cs)

include hb

/-- A member is read before it is known whether it is the last. -/
theorem readItems_member (fuel : Nat) :
    readItems (fuel + 1) cs = (readValue fuel cs).bind fun (v, rest) =>
      match skipLines rest with
      | ']' :: rest => some ([v], rest)
      | ',' :: rest => (readItems fuel rest).map fun (vs, rest) => (v :: vs, rest)
      | _ => none := by
  rw [readItems, hb.skipLines_eq]
  split
  · next hclose => exact absurd rfl (hb.ne_cons (by decide) _)
  · rfl

theorem readItems_eq_none (h : readValue fuel cs = none) : readItems (fuel + 1) cs = none := by
  rw [readItems_member hb, h]
  rfl

theorem readItems_last (h : readValue fuel cs = some (v, ']' :: rest)) :
    readItems (fuel + 1) cs = some ([v], rest) := by
  rw [readItems_member hb, h]
  rfl

theorem readItems_next (h : readValue fuel cs = some (v, ',' :: rest)) :
    readItems (fuel + 1) cs = (readItems fuel rest).map fun (vs, rest) => (v :: vs, rest) := by
  rw [readItems_member hb, h]
  rfl

end

/-- An entry with a key that is bare but for a line feed is no entry: the key ends before the line
feed, and that is neither a blank nor the sign behind a key. -/
theorem readEntries_lineKey {name : String} (h : isLineKey name = true) (fuel : Nat)
    (rest : List Char) : readEntries (fuel + 1) ((tomlKey name).toList ++ rest) = none := by
  obtain ⟨key, hkey⟩ := readKey_lineKey h rest
  rw [readEntries, hkey]
  rfl

section

variable {key : String} {more : List Char} (hb : BeginsWith isOpening more)
  (hkey : readKey cs = some (key, ' ' :: '=' :: ' ' :: more))

include hb hkey

/-- The value of an entry is read before it is known whether the entry is the last. -/
theorem readEntries_value (fuel : Nat) :
    readEntries (fuel + 1) cs = (readValue fuel more).bind fun (v, rest) =>
      match skipBlanks rest with
      | '\x7d' :: rest => some ([(.str key, v)], rest)
      | ',' :: rest => (readEntries fuel (skipBlanks rest)).bind fun (entries, rest) =>
        if entries.any fun e => e.1 = .str key then none
        else some ((.str key, v) :: entries, rest)
      | _ => none := by
  rw [readEntries, hkey]
  change (readValue fuel (skipBlanks (' ' :: more)) >>= _) = _
  rw [hb.skipBlanks_space]
  rfl

theorem readEntries_value_eq_none (h : readValue fuel more = none) :
    readEntries (fuel + 1) cs = none := by
  rw [readEntries_value hb hkey, h]
  rfl

theorem readEntries_last (h : readValue fuel more = some (v, '\x7d' :: rest)) :
    readEntries (fuel + 1) cs = some ([(.str key, v)], rest) := by
  rw [readEntries_value hb hkey, h]
  rfl

/-- An entry before others is read if they are, and if its key is none of theirs. -/
theorem readEntries_next {entries : List (Value × Value)} {tail : List Char} {line : Bool}
    (h : readValue fuel more = some (v, ',' :: ' ' :: tail)) (htail : skipBlanks tail = tail)
    (hrest : readEntries fuel tail
      = if line then none else some (Value.untupledEntries entries, rest))
    (hfresh : .str key ∉ entries.map Prod.fst) :
    readEntries (fuel + 1) cs
      = if line then none else some ((.str key, v) :: Value.untupledEntries entries, rest) := by
  have hnext : skipBlanks (' ' :: tail) = tail := htail
  -- Behind the comma and the blank stands the next key; it may not be the one that has just been
  -- read.
  rw [readEntries_value hb hkey, h]
  change (readEntries fuel (skipBlanks (' ' :: tail))).bind _ = _
  rw [hnext, hrest]
  cases line with
  | true => rfl
  | false =>
    rw [if_neg Bool.false_ne_true, Option.bind_some]
    dsimp only
    rw [Value.any_untupledEntries_eq_false hfresh]

end

end

/-! ## Scalars

A scalar costs one unit of fuel. -/

section

variable (fuel : Nat) {rest : List Char}

theorem readValue_tomlText (s : String) (rest : List Char) :
    readValue (fuel + 1) ((tomlText s).toList ++ rest) = some (.str s, rest) := by
  rw [toList_tomlText, List.cons_append, List.append_assoc, List.singleton_append, readValue,
    if_pos rfl, readText_textChars, Option.map_some]
  dsimp only
  rw [String.ofList_toList]

theorem readValue_bool (b : Bool) (rest : List Char) :
    readValue (fuel + 1) ((if b then "true" else "false").toList ++ rest)
      = some (.bool b, rest) := by
  cases b <;> rfl

/-- A number that is read by itself is read as a value. -/
theorem readValue_token {token : List Char} {v : Value} (hb : BeginsWith isNumberOpening token)
    (htoken : ∀ c ∈ token, isNumberChar c = true) (hv : number? token = some v)
    (hrest : EndsNumber rest) : readValue (fuel + 1) (token ++ rest) = some (v, rest) := by
  have hread := readNumber_append htoken hrest
  obtain ⟨c, cs, rfl, hc⟩ := hb
  rw [List.cons_append] at hread ⊢
  rw [readValue_number hc, hread, hv]
  rfl

end

/-! ## Parts

What is written of a sequence or a table are its parts with a comma between them. The cases are that
a part is the last and that another follows; a number ends in both. -/

/-- A number ends before the next part. -/
theorem endsNumber_following {close : Char} (hclose : isNumberChar close = false)
    (texts : List String) (rest : List Char) :
    EndsNumber (following ", " texts (close :: rest)) := by
  rw [following]
  split
  · exact fun c hc => Option.some.inj hc ▸ hclose
  · exact fun c hc => Option.some.inj hc ▸ by decide

/-- The texts of some items: that of the first, and those of the others, whose places are counted
on. -/
theorem exists_of_tomlItems_cons {path : String} {i : Nat} {v : Value} {vs : List Value}
    {texts : List String} (h : tomlItems path i (v :: vs) = .ok texts) :
    ∃ t ts, toml (itemPath path i) v = .ok t ∧ tomlItems path (i + 1) vs = .ok ts ∧
      texts = t :: ts := by
  revert h
  rw [tomlItems]
  cases toml (itemPath path i) v with
  | error f => rintro ⟨⟩
  | ok t =>
    cases tomlItems path (i + 1) vs with
    | error f => rintro ⟨⟩
    | ok ts =>
      rintro ⟨⟩
      exact ⟨t, ts, rfl, rfl, rfl⟩

/-- There are as many parts as members. -/
theorem eq_nil_iff_of_tomlItems {path : String} {i : Nat} {vs : List Value} {texts : List String}
    (h : tomlItems path i vs = .ok texts) : texts = [] ↔ vs = [] := by
  cases vs with
  | nil =>
    obtain rfl := Except.ok.inj h
    exact iff_of_true rfl rfl
  | cons v vs =>
    obtain ⟨t, ts, -, -, rfl⟩ := exists_of_tomlItems_cons h
    exact iff_of_false (List.cons_ne_nil _ _) (List.cons_ne_nil _ _)

/-- The texts of some entries: the key and the value of the first, and the others. -/
theorem exists_of_tomlEntries_cons {path : String} {key v : Value} {entries : List (Value × Value)}
    {texts : List String} (h : tomlEntries path ((key, v) :: entries) = .ok texts) :
    ∃ name t ts, keyName? key = some name ∧ toml (entryPath path name) v = .ok t ∧
      tomlEntries path entries = .ok ts ∧ texts = (tomlKey name ++ " = " ++ t) :: ts := by
  revert h
  rw [tomlEntries, keyName]
  -- The key is looked at first, then the value, then the entries behind it; the first of these that
  -- fails is the failure.
  cases keyName? key with
  | none => rintro ⟨⟩
  | some name =>
    cases hv : toml (entryPath path name) v with
    | error f =>
      intro h
      simp only [bind, Except.bind, hv] at h
      exact absurd h nofun
    | ok t =>
      cases tomlEntries path entries with
      | error f =>
        intro h
        simp only [bind, Except.bind, hv] at h
        exact absurd h nofun
      | ok ts =>
        intro h
        simp only [bind, Except.bind, hv, pure, Except.pure] at h
        exact ⟨name, t, ts, rfl, hv, rfl, (Except.ok.inj h).symm⟩

/-- A key that is a string of characters is the name that is written. -/
theorem eq_str_of_keyName? {key : Value} {name : String} (h : keyName? key = some name)
    (hkey : key.isFaithful = true) : key = .str name := by
  revert h
  cases key with
  | str s =>
    rw [keyName?]
    split
    · rintro ⟨⟩
    · rintro ⟨⟩
      rfl
  | broken points => exact absurd hkey Bool.false_ne_true
  | _ => rintro ⟨⟩

/-- There are as many parts as entries. -/
theorem eq_nil_iff_of_tomlEntries {path : String} {entries : List (Value × Value)}
    {texts : List String} (h : tomlEntries path entries = .ok texts) :
    texts = [] ↔ entries = [] := by
  cases entries with
  | nil =>
    obtain rfl := Except.ok.inj h
    exact iff_of_true rfl rfl
  | cons e entries =>
    obtain ⟨name, t, ts, -, -, -, rfl⟩ := exists_of_tomlEntries_cons h
    exact iff_of_false (List.cons_ne_nil _ _) (List.cons_ne_nil _ _)

/-- The text of an entry: its key, the sign and its value. -/
theorem toList_join_entry (name t : String) (ts : List String) (close : Char) (rest : List Char) :
    (Text.join ", " ((tomlKey name ++ " = " ++ t) :: ts)).toList ++ close :: rest
      = (tomlKey name).toList
          ++ ' ' :: '=' :: ' ' :: (t.toList ++ following ", " ts (close :: rest)) := by
  rw [toList_join_cons, String.toList_append, String.toList_append, List.append_assoc,
    List.append_assoc]
  rfl

/-- Any other key is read up to the blank behind it. -/
theorem readKey_entry {name : String} (h : isLineKey name = false) (more : List Char) :
    readKey ((tomlKey name).toList ++ ' ' :: '=' :: ' ' :: more)
      = some (name, ' ' :: '=' :: ' ' :: more) :=
  readKey_tomlKey h fun _ hc => Option.some.inj hc ▸ by decide

/-- The characters that written keys begin with. -/
def isKeyOpening (c : Char) : Bool :=
  c = '"' || isKeyChar c

/-- A key begins with a character that may stand in it bare, or with a quotation mark. -/
theorem beginsWith_tomlKey (name : String) : BeginsWith isKeyOpening (tomlKey name).toList := by
  have hbare : ∀ {cs : List Char}, cs ≠ [] → (∀ c ∈ cs, isKeyChar c = true) →
      BeginsWith isKeyOpening cs := by
    intro cs hne hcs
    obtain ⟨c, more, rfl⟩ := List.exists_cons_of_ne_nil hne
    exact ⟨c, more, rfl, by rw [isKeyOpening, hcs c List.mem_cons_self, Bool.or_true]⟩
  -- Bare but for a line feed at its end, bare, or in marks.
  rcases tomlKey_cases name with ⟨hline, hkey⟩ | ⟨-, hkey, hne, hname⟩ | ⟨-, hkey⟩
  · obtain ⟨body, hne, hbody, hname⟩ := isLineKey_iff.mp hline
    rw [hkey, hname]
    exact (hbare hne hbody).append _
  · rw [hkey]
    exact hbare hne hname
  · exact ⟨'"', _, by rw [hkey, toList_tomlText], rfl⟩

/-- Entries that are written begin with a key. -/
theorem beginsWith_entries {path : String} {entries : List (Value × Value)} {texts : List String}
    (h : tomlEntries path entries = .ok texts) (hne : entries ≠ []) (close : Char)
    (rest : List Char) :
    BeginsWith isKeyOpening ((Text.join ", " texts).toList ++ close :: rest) := by
  obtain ⟨⟨key, v⟩, entries, rfl⟩ := List.exists_cons_of_ne_nil hne
  obtain ⟨name, t, ts, -, -, -, rfl⟩ := exists_of_tomlEntries_cons h
  rw [toList_join_entry]
  exact (beginsWith_tomlKey name).append _

/-! ## The round trip

The statement of the induction is stronger than the result in two ways: it is about a text in front
of any other, and about any fuel that is enough. It covers values with a line key too, for which
nothing is read at all; without that case the induction would not go through a list that holds one.
-/

/-- A value whose text is read back, whatever follows it: not at all if a table inside it has a key
that is bare but for a line feed, and else as the value. -/
def ReadsBack (v : Value) : Prop :=
  ∀ ⦃path text : String⦄ ⦃fuel : Nat⦄, toml path v = .ok text → v.isFaithful = true →
    text.toList.length ≤ fuel → ∀ rest, EndsNumber rest →
      readValue fuel (text.toList ++ rest)
        = if v.hasLineKey then none else some (v.untupled, rest)

/-- Members whose texts are read back, up to the closing bracket. -/
def ItemsReadBack (vs : List Value) : Prop :=
  ∀ ⦃path : String⦄ ⦃i : Nat⦄ ⦃texts : List String⦄ ⦃fuel : Nat⦄,
    tomlItems path i vs = .ok texts → Value.allFaithful vs = true →
    (Text.join ", " texts).toList.length < fuel → ∀ rest,
      readItems fuel ((Text.join ", " texts).toList ++ ']' :: rest)
        = if Value.anyLineKey vs then none else some (Value.untupledItems vs, rest)

/-- Entries whose texts are read back, up to the closing brace. -/
def EntriesReadBack (entries : List (Value × Value)) : Prop :=
  ∀ ⦃path : String⦄ ⦃texts : List String⦄ ⦃fuel : Nat⦄,
    tomlEntries path entries = .ok texts → entries ≠ [] → (entries.map Prod.fst).Nodup →
    Value.entriesFaithful entries = true → (Text.join ", " texts).toList.length < fuel → ∀ rest,
      readEntries fuel ((Text.join ", " texts).toList ++ '\x7d' :: rest)
        = if Value.entriesLineKey entries then none
          else some (Value.untupledEntries entries, rest)

/-- A text that is written is not empty. -/
theorem exists_fuel {path text : String} {v : Value} {fuel : Nat} (h : toml path v = .ok text)
    (hfuel : text.toList.length ≤ fuel) : ∃ k, fuel = k + 1 := by
  obtain ⟨c, cs, hcs, -⟩ := beginsWith_toml h
  rw [hcs, List.length_cons] at hfuel
  exact ⟨fuel - 1, by omega⟩

theorem readsBack_str (s : String) : ReadsBack (.str s) := by
  intro path text fuel h _ hfuel rest _
  obtain ⟨fuel, rfl⟩ := exists_fuel h hfuel
  rw [← Except.ok.inj h]
  exact readValue_tomlText fuel s rest

theorem readsBack_bool (b : Bool) : ReadsBack (.bool b) := by
  intro path text fuel h _ hfuel rest _
  obtain ⟨fuel, rfl⟩ := exists_fuel h hfuel
  have htext : (if b then "true" else "false") = text := by
    cases b <;> exact Except.ok.inj h
  rw [← htext]
  exact readValue_bool fuel b rest

/-- A whole number is read back; one of too many digits has no text. -/
theorem readsBack_int (n : Int) : ReadsBack (.int n) := by
  intro path text fuel h _ hfuel rest hrest
  obtain ⟨fuel, rfl⟩ := exists_fuel h hfuel
  have htext : intText n = text := by
    revert h
    rw [toml]
    split
    · exact nofun
    · exact Except.ok.inj
  rw [← htext]
  exact readValue_token fuel (beginsWith_intText n) (isNumberChar_of_mem_intText n)
    (number?_intText n) hrest

/-- A floating-point number is read back to the same bits; one that is not finite has no text. -/
theorem readsBack_float (x : Binary64) : ReadsBack (.float x) := by
  intro path text fuel h hx hfuel rest hrest
  obtain ⟨fuel, rfl⟩ := exists_fuel h hfuel
  have htext : x.isFinite = true ∧ x.shortText = text := by
    revert h
    rw [toml]
    split
    · next hfin => exact fun h => ⟨hfin, Except.ok.inj h⟩
    · exact nofun
  obtain ⟨hfin, rfl⟩ := htext
  exact readValue_token fuel (beginsWith_shortText hfin) (isNumberChar_of_mem_shortText hfin)
    (number?_shortText hfin (of_decide_eq_true hx)) hrest

/-- A sequence reads back if its members do. -/
theorem readValue_items {items : List Value} (hitems : ItemsReadBack items) {path : String}
    {texts : List String} (htexts : tomlItems path 0 items = .ok texts)
    (hv : Value.allFaithful items = true) {fuel : Nat}
    (hfuel : ('[' :: ((Text.join ", " texts).toList ++ [']'])).length ≤ fuel) (rest : List Char) :
    readValue fuel (('[' :: ((Text.join ", " texts).toList ++ [']'])) ++ rest)
      = if Value.anyLineKey items then none
        else some (.list (Value.untupledItems items), rest) := by
  -- The brackets use up one unit of fuel, and the items have two characters less.
  rw [List.length_cons, List.length_append, List.length_singleton] at hfuel
  obtain ⟨fuel, rfl⟩ : ∃ k, fuel = k + 1 := ⟨fuel - 1, by omega⟩
  have hread := hitems htexts hv (Nat.lt_of_succ_le (Nat.le_of_succ_le_succ hfuel)) rest
  rw [List.cons_append, List.append_assoc, List.singleton_append, readValue, if_neg (by decide),
    if_pos rfl, hread]
  cases Value.anyLineKey items <;> rfl

/-- **A list is read back** if its items are. -/
theorem readsBack_list {items : List Value} (hitems : ItemsReadBack items) :
    ReadsBack (.list items) := by
  intro path text fuel h hv hfuel rest _
  obtain ⟨texts, htexts, htext⟩ := exists_items_of_toml h
  rw [htext] at hfuel ⊢
  exact readValue_items hitems htexts hv hfuel rest

/-- A tuple has the text of a list, and comes back as one. -/
theorem readsBack_tuple {items : List Value} (hitems : ItemsReadBack items) :
    ReadsBack (.tuple items) := by
  intro path text fuel h hv hfuel rest _
  obtain ⟨texts, htexts, htext⟩ := exists_items_of_toml h
  rw [htext] at hfuel ⊢
  exact readValue_items hitems htexts hv hfuel rest

theorem itemsReadBack_nil : ItemsReadBack [] := by
  intro path i texts fuel h _ hfuel rest
  rw [← Except.ok.inj h] at hfuel ⊢
  obtain ⟨fuel, rfl⟩ : ∃ k, fuel = k + 1 := ⟨fuel - 1, by omega⟩
  rfl

/-- **Items are read back** one after another: all of them, or none if one has a key that cannot be
read. -/
theorem itemsReadBack_cons {v : Value} {vs : List Value} (hv : ReadsBack v)
    (hvs : ItemsReadBack vs) : ItemsReadBack (v :: vs) := by
  intro path i texts fuel h hfaithful hfuel rest
  obtain ⟨t, ts, ht, hts, rfl⟩ := exists_of_tomlItems_cons h
  obtain ⟨fuel, rfl⟩ : ∃ k, fuel = k + 1 := ⟨fuel - 1, by omega⟩
  rw [Value.allFaithful, Bool.and_eq_true] at hfaithful
  obtain ⟨hle, hlt⟩ := length_join_cons ", " t ts
  rw [toList_join_cons]
  have hfirst := hv ht hfaithful.1 (show t.toList.length ≤ fuel by omega) _
    (endsNumber_following (show isNumberChar ']' = false by decide) ts rest)
  have hb := (beginsWith_toml ht).append (following ", " ts (']' :: rest))
  rw [Value.anyLineKey, Value.untupledItems]
  -- If the first item cannot be read, nothing can; else the reader goes on behind it, at a comma or
  -- at the end.
  cases hline : v.hasLineKey with
  | true =>
    rw [hline] at hfirst
    exact readItems_eq_none hb hfirst
  | false =>
    rw [hline, if_neg Bool.false_ne_true] at hfirst
    rw [Bool.false_or]
    by_cases hnil : ts = []
    · obtain rfl := (eq_nil_iff_of_tomlItems hts).mp hnil
      rw [following, if_pos hnil] at hb hfirst ⊢
      exact readItems_last hb hfirst
    · have hlength : (Text.join ", " ts).toList.length < fuel := by
        have hcomma : ", ".toList.length = 2 := rfl
        have := hlt hnil
        omega
      have hrest := hvs hts hfaithful.2 hlength rest
      rw [following_comma hnil] at hb hfirst ⊢
      rw [readItems_next hb hfirst, readItems_blank, hrest]
      cases Value.anyLineKey vs <;> rfl

/-- A table reads back if its entries do. -/
theorem readsBack_table {entries : List (Value × Value)} (hentries : EntriesReadBack entries) :
    ReadsBack (.table entries) := by
  intro path text fuel h hv hfuel rest _
  obtain ⟨texts, htexts, htext⟩ := exists_entries_of_toml h
  rw [htext, List.length_cons, List.length_append, List.length_singleton] at hfuel
  rw [htext]
  obtain ⟨fuel, rfl⟩ : ∃ k, fuel = k + 1 := ⟨fuel - 1, by omega⟩
  rw [Value.isFaithful, Bool.and_eq_true, decide_eq_true_eq] at hv
  rw [List.cons_append, List.append_assoc, List.singleton_append, readValue, if_neg (by decide),
    if_neg (by decide), if_pos rfl, Value.hasLineKey, Value.untupled]
  -- An empty table is closed at once, which no key does.
  cases entries with
  | nil =>
    rw [← Except.ok.inj htexts]
    rfl
  | cons e entries =>
    have hread := hentries htexts (List.cons_ne_nil _ _) hv.1 hv.2
      (Nat.lt_of_succ_le (Nat.le_of_succ_le_succ hfuel)) rest
    have hb := beginsWith_entries htexts (List.cons_ne_nil _ _) '\x7d' rest
    rw [hb.skipBlanks_eq (by decide) (by decide)]
    split
    · next hclose => exact absurd hclose (hb.ne_cons (by decide) _)
    · rw [hread]
      cases Value.entriesLineKey (e :: entries) <;> rfl

/-- **Entries are read back** one after another: all of them, or none if one has a key that cannot
be read, at any depth. -/
theorem entriesReadBack_cons {key v : Value} {entries : List (Value × Value)} (hv : ReadsBack v)
    (hentries : entries ≠ [] → EntriesReadBack entries) :
    EntriesReadBack ((key, v) :: entries) := by
  intro path texts fuel h _ hnodup hfaithful hfuel rest
  obtain ⟨name, t, ts, hname, ht, hts, rfl⟩ := exists_of_tomlEntries_cons h
  obtain ⟨fuel, rfl⟩ : ∃ k, fuel = k + 1 := ⟨fuel - 1, by omega⟩
  rw [Value.entriesFaithful, Bool.and_eq_true, Bool.and_eq_true] at hfaithful
  obtain ⟨⟨hkey, hvalue⟩, hmore⟩ := hfaithful
  obtain rfl := eq_str_of_keyName? hname hkey
  obtain ⟨hle, hlt⟩ := length_join_cons ", " (tomlKey name ++ " = " ++ t) ts
  rw [String.toList_append, List.length_append] at hle hlt
  rw [toList_join_entry, Value.entriesLineKey, Value.untupledEntries]
  have hb := (beginsWith_toml ht).append (following ", " ts ('\x7d' :: rest))
  have hfirst := hv ht hvalue (show t.toList.length ≤ fuel by omega) _
    (endsNumber_following (show isNumberChar '\x7d' = false by decide) ts rest)
  -- The key may be one that cannot be read, or the value may hold one; else the reader goes on
  -- behind the value.
  cases hline : isLineKey name with
  | true => exact readEntries_lineKey hline fuel _
  | false =>
    have hread := readKey_entry hline (t.toList ++ following ", " ts ('\x7d' :: rest))
    rw [Bool.false_or]
    cases hvline : v.hasLineKey with
    | true =>
      rw [hvline] at hfirst
      exact readEntries_value_eq_none hb hread hfirst
    | false =>
      rw [hvline, if_neg Bool.false_ne_true] at hfirst
      rw [Bool.false_or]
      by_cases hnil : ts = []
      · obtain rfl := (eq_nil_iff_of_tomlEntries hts).mp hnil
        rw [following, if_pos hnil] at hb hread hfirst ⊢
        exact readEntries_last hb hread hfirst
      · have hne : entries ≠ [] := fun h => hnil ((eq_nil_iff_of_tomlEntries hts).mpr h)
        have hlength : (Text.join ", " ts).toList.length < fuel := by
          have hcomma : ", ".toList.length = 2 := rfl
          have := hlt hnil
          omega
        rw [List.map_cons, List.nodup_cons] at hnodup
        have hrest := hentries hne hts hne hnodup.2 hmore hlength rest
        have hskip := (beginsWith_entries hts hne '\x7d' rest).skipBlanks_eq (by decide) (by decide)
        rw [following_comma hnil] at hb hread hfirst ⊢
        exact readEntries_next hb hread hfirst hskip hrest hnodup.1

mutual

/-- **Every value reads back** as far as it can. -/
theorem readsBack : ∀ v : Value, ReadsBack v
  | .str s => readsBack_str s
  | .broken _ => fun _ _ _ _ hv => absurd hv Bool.false_ne_true
  | .bool b => readsBack_bool b
  | .int n => readsBack_int n
  | .float x => readsBack_float x
  | .list items => readsBack_list (itemsReadBack items)
  | .tuple items => readsBack_tuple (itemsReadBack items)
  | .table entries => readsBack_table (entriesReadBack entries)
  | .null | .model _ | .foreign _ => fun _ _ _ h => absurd h nofun

theorem itemsReadBack : ∀ vs : List Value, ItemsReadBack vs
  | [] => itemsReadBack_nil
  | v :: vs => itemsReadBack_cons (readsBack v) (itemsReadBack vs)

theorem entriesReadBack : ∀ entries : List (Value × Value), EntriesReadBack entries
  | [] => fun _ _ _ _ hne => absurd rfl hne
  | (_, v) :: entries => entriesReadBack_cons (readsBack v) fun _ => entriesReadBack entries

end

/-- **A written value reads back as itself**, its tuples as lists and nothing left over, exactly if
no table inside it has a key that is bare but for a line feed at its end.  Else nothing is read,
however much fuel there is. -/
theorem read_toml_iff {path text : String} {v : Value} (h : toml path v = .ok text)
    (hv : v.isFaithful = true) :
    (read text = some v.untupled ↔ v.hasLineKey = false) ∧
      ∀ fuel, text.length ≤ fuel →
        readValue fuel text.toList = if v.hasLineKey then none else some (v.untupled, []) := by
  have hread : ∀ fuel, text.length ≤ fuel →
      readValue fuel text.toList = if v.hasLineKey then none else some (v.untupled, []) := by
    intro fuel hfuel
    have hback := readsBack v h hv (String.length_toList.trans_le hfuel) [] nofun
    rwa [List.append_nil] at hback
  refine ⟨?_, hread⟩
  -- Without such a key the value comes back whole; with one the reader stops before it has any.
  rw [read, hread _ le_rfl]
  cases v.hasLineKey with
  | true => exact iff_of_false (Option.some_ne_none _).symm Bool.false_ne_true.symm
  | false => exact iff_of_true rfl rfl

/-- A table with a key in marks, a tuple of scalars of each type and an empty table. -/
def writtenTable : Value :=
  .table [
    (.str "a key",
      .tuple [.bool true, .int 1, .float (.finite false 7205759403792794 (-55)), .str "\"\x7F"]),
    (.str "empty", .table [])]

/-- A list that holds a table with a key that is written across two lines. -/
def writtenAcross : Value :=
  .list [.table [(.str "key\n", .int 1)]]

/-- The table reads back, and the list does not. -/
theorem read_writtenTable :
    (∃ text, toml "p" writtenTable = .ok text ∧ read text = some writtenTable.untupled) ∧
      ∃ text, toml "p" writtenAcross = .ok text ∧ read text ≠ some writtenAcross.untupled := by
  have htable : toml "p" writtenTable
      = .ok "\x7b\"a key\" = [true, 1, 0.2, \"\\\"\\u007f\"], empty = \x7b\x7d\x7d" := by
    decide +kernel
  have hacross : toml "p" writtenAcross = .ok "[\x7bkey\n = 1\x7d]" := by decide +kernel
  refine ⟨⟨_, htable, ?_⟩, _, hacross, fun hread => ?_⟩
  · exact (read_toml_iff htable (by decide +kernel)).1.mpr (by decide +kernel)
  · have hline := (read_toml_iff hacross (by decide +kernel)).1.mp hread
    exact absurd hline (by decide +kernel)

end Toml

end AgentClient
