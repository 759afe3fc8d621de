import AgentClient.Proofs.Wire.BriefFaults
import AgentClient.Proofs.Wire.Unread

/-!
# Proofs/Wire/MessageLengths — how long the message of a refused line is

Under what is wrong with it a message shows the beginning of the line only, so it is as long as what
is wrong takes (`ClientError.length_message_malformed`).  A line that is no JSON is complained about
in a few words and three numbers, and a fault in a wire object is brief.  The exception is a type
without a meaning, which is shown as a whole: a number has its digits counted by the reader, but **a
text is as long as the line lets it be** (`Event.length_message_of_parse`). -/

namespace AgentClient

open Number Text

/-! ## The parts of a message

A message has what is wrong in it and an excerpt of the line, which is cut before it is quoted. For
a line that is no JSON, what is wrong is a few words and the place, whose numbers are no greater
than the length of the line. -/

namespace ClientError

/-- An excerpt is cut before it is quoted, and a quoted character takes at most ten. -/
theorem length_excerpt_le (s : String) : (excerpt s).length ≤ 2032 := by
  have hcut : (truncate messageLimit s).length ≤ 203 :=
    length_truncate_le (Int.toNat messageLimit) s
  calc (excerpt s).length ≤ 10 * (truncate messageLimit s).length + 2 := length_quoted_le _
    _ ≤ 10 * 203 + 2 := Nat.add_le_add_right (Nat.mul_le_mul_left 10 hcut) 2

theorem le_length_excerpt (s : String) : 2 ≤ (excerpt s).length :=
  (Nat.le_add_left 2 _).trans (le_length_quoted _)

/-- A message has what has gone wrong, a heading of nine characters, and the excerpt of the line. -/
theorem length_message_protocol (cause : ProtocolCause) (line : String) :
    (protocol cause (some line)).message.length
      = cause.message.length + 9 + (excerpt line).length := by
  have hmessage : (protocol cause (some line)).message
      = cause.message ++ "\n  Line: " ++ excerpt line := rfl
  have hlabel : "\n  Line: ".length = 9 := by decide
  rw [hmessage, String.length_append, String.length_append, hlabel]

/-- **The line adds a bounded number of characters** to what is wrong with it. -/
theorem length_message_protocol_le {cause : ProtocolCause} {n : Nat} (h : cause.message.length ≤ n)
    (line : String) : (protocol cause (some line)).message.length ≤ n + 2041 := by
  rw [length_message_protocol]
  calc cause.message.length + 9 + (excerpt line).length ≤ n + 9 + 2032 :=
        Nat.add_le_add (Nat.add_le_add_right h 9) (length_excerpt_le line)
    _ = n + 2041 := Nat.add_assoc n 9 2032

/-- A message is longer than what it says has gone wrong. -/
theorem le_length_message_protocol {cause : ProtocolCause} {n : Nat} (h : n ≤ cause.message.length)
    (line : String) : n + 11 ≤ (protocol cause (some line)).message.length := by
  rw [length_message_protocol]
  calc n + 11 = n + 9 + 2 := rfl
    _ ≤ cause.message.length + 9 + (excerpt line).length :=
        Nat.add_le_add (Nat.add_le_add_right h 9) (le_length_excerpt line)

end ClientError

namespace ProtocolCause

/-- A malformed event has its fault in quotation marks, with the name of its kind. -/
theorem length_message_malformed (f : Fault) :
    (malformed f).message.length = 19 + f.kind.label.length + (quoted f.text).length := by
  have hmessage : (malformed f).message
      = "Malformed event: " ++ (f.kind.label ++ "(" ++ quoted f.text ++ ")") := rfl
  have hopening : "Malformed event: ".length = 17 := by decide
  have hbrackets : "(".length = 1 ∧ ")".length = 1 := by decide
  rw [hmessage, String.length_append, String.length_append, String.length_append,
    String.length_append, hopening, hbrackets.1, hbrackets.2]
  generalize (quoted f.text).length = quotedLength
  omega

/-- The four kinds of faults that a line is rejected for have short names. -/
theorem length_label_le {f : Fault} (h : Event.isMalformed f = true) :
    f.kind.label.length ≤ 15 := by
  rw [Event.isMalformed] at h
  split at h
  · next hkind => rw [hkind]; decide
  · next hkind => rw [hkind]; decide
  · next hkind => rw [hkind]; decide
  · next hkind => rw [hkind]; decide
  · exact absurd h Bool.false_ne_true

theorem length_message_of_isBrief {f : Fault} (hf : Event.isMalformed f = true) (h : f.IsBrief) :
    (malformed f).message.length ≤ 516 := by
  rw [length_message_malformed]
  exact Nat.add_le_add (Nat.add_le_add_left (length_label_le hf) 19) h

end ProtocolCause

namespace Json

/-- The place of a complaint is in the text. -/
theorem exists_after_of_read {d : Dialect} {s : String} {what : Complaint} {place : Place}
    (h : read d s = .error (.malformed what place)) :
    ∃ cs, cs.length ≤ s.length ∧ place = .after cs := by
  rw [read] at h
  cases hdocument : readDocument d s.toList with
  | ok v =>
    rw [hdocument] at h
    cases h
  | error stop =>
    rw [hdocument] at h
    -- A complaint of the reader has the text left at its place, which is turned into the text
    -- before it.
    cases stop with
    | malformed what rest =>
      refine ⟨s.toList.take (s.toList.length - rest.length), ?_,
        (Fault.malformed.inj (Except.error.inj h)).2.symm⟩
      rw [List.length_take, String.length_toList]
      omega
    | tooDeep | tooManyDigits => cases h

/-- **A complaint** is made of a few words and three numbers. -/
theorem length_message_after_le (what : Complaint) {cs : List Char} (h : cs.length ≤ 10 ^ 9) :
    (Fault.malformed what (.after cs)).message.length ≤ 110 := by
  have hnumber : ∀ n ≤ 10 ^ 9 + 1, (toString n).length ≤ 10 := fun n hn =>
    (isTerse_toString (by decide) (Nat.lt_of_le_of_lt hn (by decide))).length_le
  have hcount : cs.count '\n' ≤ cs.length := List.count_le_length
  have hlast : (cs.reverse.takeWhile (· ≠ '\n')).length ≤ cs.length :=
    (List.takeWhile_prefix _).length_le.trans_eq List.length_reverse
  -- All that varies is the place: three numbers, each no larger than the text.
  have hwords : what.words.length ≤ 49 := by
    cases what <;> decide
  have hline := hnumber (Place.after cs).line (Nat.succ_le_succ (hcount.trans h))
  have hcolumn := hnumber (Place.after cs).column (Nat.succ_le_succ (hlast.trans h))
  have hoffset := hnumber (Place.after cs).offset (Nat.le_succ_of_le h)
  generalize Place.after cs = place at hline hcolumn hoffset ⊢
  have hmessage : (Fault.malformed what place).message = what.words ++ ": line "
      ++ toString place.line ++ " column " ++ toString place.column ++ " (char "
      ++ toString place.offset ++ ")" := rfl
  simp only [hmessage, String.length_append, show ": line ".length = 7 by decide,
    show " column ".length = 8 by decide, show " (char ".length = 7 by decide,
    show ")".length = 1 by decide]
  omega

end Json

/-- So is the message about a text that cannot be read. -/
theorem ProtocolCause.length_message_unreadable_le (what : Json.Complaint) {cs : List Char}
    (h : cs.length ≤ 10 ^ 9) : (unreadable (.malformed what (.after cs))).message.length ≤ 133 := by
  have hmessage : (unreadable (.malformed what (.after cs))).message
      = "Failed to parse event: " ++ (Json.Fault.malformed what (.after cs)).message := rfl
  have hopening : "Failed to parse event: ".length = 23 := by decide
  rw [hmessage, String.length_append, hopening]
  exact Nat.add_le_add_left (Json.length_message_after_le what h) 23

/-! ## Types without a meaning

The type is shown as it would be written, and the whole fault is quoted once more. So a text in it
takes up to twenty times its length, and never less than its length; a number has as many digits as
the reader allows. -/

namespace Event

/-- A line with a wire object whose type is looked up in vain. -/
structure HasUnknownType (line : String) (v : Value) : Prop where
  exists_table : ∃ t : Table, Json.read .wire line = .ok (.table t) ∧ t.getD "type" .null = v
  isKey : v.keyObstacle? = none
  not_mem : v ∉ types.map Value.str

variable {line : String} {v : Value} {t : Table}

theorem holdsDocuments_of_read (h : Json.read .wire line = .ok (.table t)) :
    ∃ depth, t.HoldsDocuments depth := by
  obtain ⟨depth, -, -, -, hvalues⟩ := (Json.isDocument_read h).parts
  exact ⟨depth, hvalues⟩

namespace HasUnknownType

theorem exists_isDocument (h : HasUnknownType line v) : ∃ depth, v.IsDocument depth := by
  obtain ⟨t, hread, rfl⟩ := h.exists_table
  obtain ⟨depth, ht⟩ := holdsDocuments_of_read hread
  exact ⟨depth, ht.getD "type" .null⟩

/-- **The whole type** is in the fault. -/
theorem parse_eq (h : HasUnknownType line v) :
    parse line = refusal line (.unknownEvent v.display) := by
  obtain ⟨depth, hdocument⟩ := h.exists_isDocument
  obtain ⟨t, hread, hv⟩ := h.exists_table
  refine parse_of_ofTable_eq_error hread ?_ rfl
  rw [ofTable, hv]
  exact ofMembers_eq_unknownEvent hdocument h.not_mem h.isKey

/-- A floating-point number was rounded when it was read. -/
theorem length_display_float_le {x : Binary64} (h : HasUnknownType line (.float x)) :
    (Value.float x).display.length ≤ 26 := by
  obtain ⟨depth, hdocument⟩ := h.exists_isDocument
  obtain ⟨t, hread, hv⟩ := h.exists_table
  have hmem := Table.mem_of_get?_eq_some (get?_of_getD hv nofun)
  exact Binary64.length_shortText_le hdocument.parts (Json.isRounded_of_read hread _ hmem x rfl)

end HasUnknownType

/-- What is said of an unknown type is how the type is shown, and some words. -/
theorem length_text_unknownEvent (shown : String) :
    (Fault.unknownEvent shown).text.length = 19 + shown.length := by
  have htext : (Fault.unknownEvent shown).text = "unknown event type " ++ shown := rfl
  have hopening : "unknown event type ".length = 19 := by decide
  rw [htext, String.length_append, hopening]

/-- In a message that text is quoted again. -/
theorem length_message_unknownEvent (shown : String) :
    (ProtocolCause.malformed (.unknownEvent shown)).message.length
      = 29 + (quoted (Fault.unknownEvent shown).text).length := by
  have hlabel : (Fault.unknownEvent shown).kind.label = "ValueError" := rfl
  have hlength : "ValueError".length = 10 := by decide
  rw [ProtocolCause.length_message_malformed, hlabel, hlength]

/-- A type that is neither a number of many digits nor a text is shown in a few characters. -/
theorem HasUnknownType.isBrief_or (h : HasUnknownType line v) :
    (Fault.unknownEvent v.display).IsBrief
      ∨ (∃ n, v = .int n) ∨ ∃ text : WireText, v = text.toValue := by
  have hshort : ∀ {s : String}, s.length ≤ 26 → (Fault.unknownEvent s).IsBrief := by
    intro s hs
    refine Fault.isBrief_of_length_le ?_
    rw [length_text_unknownEvent]
    omega
  obtain ⟨depth, hdocument⟩ := h.exists_isDocument
  have hkey := h.isKey
  -- Null, truth values and floating-point numbers are shown briefly; whole numbers and texts are
  -- not.
  cases v with
  | null => exact .inl (hshort (by decide))
  | bool b => exact .inl (hshort (by cases b <;> decide))
  | int n => exact .inr (.inl ⟨n, rfl⟩)
  | float x => exact .inl (hshort h.length_display_float_le)
  | str s => exact .inr (.inr ⟨.plain s, rfl⟩)
  | broken points => exact .inr (.inr ⟨.broken points, rfl⟩)
  | list | table => exact absurd hkey nofun
  | tuple | model | foreign => exact hdocument.parts.elim

/-- A type that is shown in few printable characters makes no long message. -/
theorem length_message_unknownEvent_le {shown : String} {n : Nat} (h : IsTerse n shown)
    (line : String) :
    (ClientError.protocol (.malformed (.unknownEvent shown)) (some line)).message.length
      ≤ 2 * n + 2110 := by
  have hterse : IsTerse (19 + n) (Fault.unknownEvent shown).text := .append (by decide) h
  have hcause : (ProtocolCause.malformed (.unknownEvent shown)).message.length
      ≤ 29 + (2 * (19 + n) + 2) := by
    rw [length_message_unknownEvent]
    exact Nat.add_le_add_left hterse.length_quoted_le 29
  exact (ClientError.length_message_protocol_le hcause line).trans (by omega)

/-- Nothing of a type is left out. -/
theorem le_length_message_unknownEvent (shown line : String) :
    shown.length + 61 ≤
      (ClientError.protocol (.malformed (.unknownEvent shown)) (some line)).message.length := by
  have hcause : 29 + (19 + shown.length + 2)
      ≤ (ProtocolCause.malformed (.unknownEvent shown)).message.length := by
    rw [length_message_unknownEvent, ← length_text_unknownEvent]
    exact Nat.add_le_add_left (le_length_quoted _) 29
  exact (by omega : _ ≤ 29 + (19 + shown.length + 2) + 11).trans
    (ClientError.le_length_message_protocol hcause line)

theorem display_toValue (text : WireText) : text.toValue.display = text.quoted := by
  cases text <;> rfl

/-! ## Long types

To show that there is no bound, a line is made for each length: an object with that type and nothing
else, of a letter that is written as itself, so that the lengths can be computed. -/

/-- An object with a type and no other member. -/
def typeLine (type : String) : String :=
  "\x7b\"type\":" ++ Json.asciiText (.plain type) ++ "\x7d"

/-- The spelling of that object. -/
def typeText (type : String) : Json.Placed (Json.ValueText .wire) :=
  { part := .object .none [plainMember "type" (plainText type)] }

/-- The line that has nothing but a type, as the text of an object. -/
theorem typeLine_eq (type : String) : typeLine type = Json.ValueText.line (typeText type) := by
  have hname : "type".toList.flatMap (Json.textChar Json.isAsciiPlain) = "type".toList := by decide
  rw [← String.toList_inj]
  simp only [typeLine, Json.asciiText, Json.textChars, Json.ValueText.line, String.toList_append,
    String.toList_ofList, typeText, Json.ValueText.object, Json.enclosed, Json.behind, plainMember,
    plainText, Json.MemberText.chars, Json.ValueText.quoted, Json.ValueText.scalar,
    Json.QuotedText.ofString, Json.Gap.none, hname]
  simp

/-- **Any text** but the eight that have a meaning may be an unknown type. -/
theorem hasUnknownType_typeLine {type : String} (h : type ∉ types) :
    HasUnknownType (typeLine type) (.str type) where
  exists_table :=
    ⟨[(.str "type", .str type)], typeLine_eq type ▸ Json.ValueText.read_line (typeText type), rfl⟩
  isKey := rfl
  not_mem := by
    rw [List.mem_map]
    rintro ⟨known, hknown, heq⟩
    exact h (Value.str.inj heq ▸ hknown)

/-- A type of so many equal letters. -/
def longType (n : Nat) : String :=
  String.ofList (List.replicate n 'x')

theorem length_longType (n : Nat) : (longType n).length = n := by
  rw [longType, String.length_ofList, List.length_replicate]

/-- A type of many letters x is none of the known ones. -/
theorem longType_not_mem (n : Nat) : longType n ∉ types := by
  have hother : ∀ type ∈ types, type.toList.all (· = 'x') = false := by decide
  intro hmem
  have hsame := hother _ hmem
  rw [longType, String.toList_ofList, List.all_replicate] at hsame
  cases n <;> exact absurd hsame nofun

/-- Its line is eleven characters longer than the type. -/
theorem length_typeLine_longType (n : Nat) : (typeLine (longType n)).length = n + 11 := by
  have hopening : "\x7b\"type\":".length = 8 := by decide
  have hclosing : "\x7d".length = 1 := by decide
  have hletter : (Json.textChar Json.isAsciiPlain 'x').length = 1 := by decide
  have htype : (Json.asciiText (.plain (longType n))).length = n + 2 := by
    rw [Json.asciiText, String.length_ofList, Json.textChars, longType, String.toList_ofList,
      List.length_append, List.length_cons, List.length_flatMap, List.map_replicate,
      List.sum_replicate_nat, hletter, Nat.mul_one]
    rfl
  rw [typeLine, String.length_append, String.length_append, hopening, hclosing, htype]
  omega

/-- **No number bounds the messages**: for each there is a line of a few characters more whose
message is longer. -/
theorem exists_lt_length_message (n : Nat) :
    ∃ line cause, line.length = n + 11 ∧ parse line = .error (.client (.protocol cause (some line)))
      ∧ n < (ClientError.protocol cause (some line)).message.length := by
  have hunknown := hasUnknownType_typeLine (longType_not_mem n)
  have hleast := le_length_message_unknownEvent (quoted (longType n)) (typeLine (longType n))
  have hquoted := le_length_quoted (longType n)
  rw [length_longType] at hquoted
  exact ⟨_, _, length_typeLine_longType n, hunknown.parse_eq, by
    calc n < (quoted (longType n)).length + 61 := by omega
      _ ≤ _ := hleast⟩

/-! ## All refused lines

A line is refused by the reader, for its wire object, or because it holds none. For each of these
the message was bounded above, with the type without a meaning as the one way out. -/

/-- A wire object is refused in a short message, or for its type. -/
theorem length_message_of_ofTable {f : Fault} (hline : line.length ≤ 10 ^ 9)
    (hread : Json.read .wire line = .ok (.table t)) (hf : ofTable t = .error f)
    (hmalformed : isMalformed f = true) :
    (ClientError.protocol (.malformed f) (some line)).message.length ≤ 2600
      ∨ ∃ v, HasUnknownType line v ∧ ((∃ n, v = .int n) ∨ ∃ text : WireText, v = text.toValue) := by
  have hshort : f.IsBrief →
      (ClientError.protocol (.malformed f) (some line)).message.length ≤ 2600 := fun hbrief =>
    (ClientError.length_message_protocol_le
      (ProtocolCause.length_message_of_isBrief hmalformed hbrief) line).trans (by decide)
  obtain ⟨depth, ht⟩ := holdsDocuments_of_read hread
  have hsize := (Json.textSize_le_of_read hread).trans hline
  -- What is wrong with a member is said briefly, so only a type that is not known may be shown at
  -- length.
  obtain hbrief | ⟨hmem, hkey, rfl⟩ := isBrief_or_unknown_of_ofTable ht hsize rfl hf
  · exact .inl (hshort hbrief)
  · have hunknown : HasUnknownType line (t.getD "type" .null) := ⟨⟨t, hread, rfl⟩, hkey, hmem⟩
    exact hunknown.isBrief_or.imp hshort fun hlong => ⟨_, hunknown, hlong⟩

/-- **Every refusal is short, types without a meaning apart**: of a line of a thousand million
characters at the most, the message of what is wrong takes at most 2600 characters, unless its type
is a whole number or a text that has no meaning.  With a whole number it is still bounded; with a
text it is never shorter than the text, and at most twenty times as long but for a constant. -/
theorem length_message_of_parse (hline : line.length ≤ 10 ^ 9) :
    (∀ error, parse line = .error (.client error) →
      error.message.length ≤ 2600
        ∨ ∃ v, HasUnknownType line v ∧ ((∃ n, v = .int n) ∨ ∃ text : WireText, v = text.toValue))
    ∧ (∀ n, HasUnknownType line (.int n) →
      ∃ error, parse line = .error (.client error) ∧ error.message.length ≤ 11000)
    ∧ ∀ text : WireText, HasUnknownType line text.toValue →
      ∃ error, parse line = .error (.client error)
        ∧ text.points.length + 60 ≤ error.message.length
        ∧ error.message.length ≤ 20 * text.points.length + 2200 := by
  refine ⟨fun error herror => ?_, fun n h => ?_, fun text h => ?_⟩
  -- By what is wrong with the line: it is no document, no event, or no object.
  · rw [parse.eq_def] at herror
    split at herror
    · next what place hread =>
      obtain rfl := Failure.client.inj (Except.error.inj herror)
      obtain ⟨cs, hcs, rfl⟩ := Json.exists_after_of_read hread
      have hcause := ProtocolCause.length_message_unreadable_le what (hcs.trans hline)
      exact .inl ((ClientError.length_message_protocol_le hcause line).trans (by decide))
    · cases herror
    · next t hread =>
      split at herror
      · cases herror
      · next f hf =>
        split at herror
        · next hmalformed =>
          obtain rfl := Failure.client.inj (Except.error.inj herror)
          exact length_message_of_ofTable hline hread hf hmalformed
        · cases herror
    · obtain rfl := Failure.client.inj (Except.error.inj herror)
      have hcause : ProtocolCause.notTable.message.length ≤ 27 := by decide
      exact .inl ((ClientError.length_message_protocol_le hcause line).trans (by decide))
  · obtain ⟨depth, hdocument⟩ := h.exists_isDocument
    have hterse : IsTerse 4301 (Value.int n).display := isTerse_intText hdocument.parts
    exact ⟨_, h.parse_eq, (length_message_unknownEvent_le hterse line).trans (by decide)⟩
  · have hterse : IsTerse (10 * text.points.length + 2) text.quoted :=
      .ofList (String.length_ofList ▸ text.length_quoted_le) text.arePrintable_quotedChars
    have hlow := text.le_length_quoted
    rw [← display_toValue] at hterse hlow
    have hleast := le_length_message_unknownEvent text.toValue.display line
    have hmost := length_message_unknownEvent_le hterse line
    exact ⟨_, h.parse_eq, by omega, by omega⟩

/-- A message of a line of five thousand characters and a few more. -/
theorem length_message_longType :
    ∃ error, parse (typeLine (longType 5000)) = .error (.client error)
      ∧ 5060 ≤ error.message.length ∧ error.message.length ≤ 102200 := by
  have hline : (typeLine (longType 5000)).length ≤ 10 ^ 9 := by
    rw [length_typeLine_longType]
    decide
  have hpoints : (WireText.plain (longType 5000)).points.length = 5000 := by
    rw [WireText.length_points_plain, length_longType]
  have hlong := (length_message_of_parse hline).2.2 (.plain (longType 5000))
    (hasUnknownType_typeLine (longType_not_mem 5000))
  rwa [hpoints] at hlong

/-- **Five thousand characters are no bound** for the messages of such lines. -/
theorem not_length_message_le :
    ¬ ∀ line cause, line.length ≤ 10 ^ 9 →
      parse line = .error (.client (.protocol cause (some line))) →
      (ClientError.protocol cause (some line)).message.length ≤ 5000 := by
  intro hbounded
  obtain ⟨line, cause, hline, hparse, hlong⟩ := exists_lt_length_message 5000
  have hshort := hbounded line cause (by omega) hparse
  exact Nat.not_lt.mpr hshort hlong

end Event

end AgentClient
