import AgentClient.Proofs.Json.RoundTrip
import AgentClient.Proofs.Json.TrailingReturn

/-!
# Proofs/Json/Spelling — the texts of values, however they are spelled

One value has many texts: its texts may be escaped, its numbers written in several ways, its parts
set apart by any gaps.  A `ValueText` is one of them, with what a reader makes of it wherever it
stands: the value, or the limit that it breaks (`ValueText.outcome`).  Arrays and objects of such
texts are such texts (`ValueText.array`, `ValueText.object`), and a whole document has the outcome
of its value (`ValueText.readDocument_line`). -/

namespace AgentClient.Json

/-! ## Parts

Gaps may stand before and behind each part. What is behind a part is spelled out as one text,
because a part that is a number has to know how that text begins. The reader of parts stops at the
first one that fails, and so does mapping the outcomes. -/

/-- Characters that may stand between the parts of a document. -/
structure Gap where
  chars : List Char
  areGaps : AreGaps chars

/-- No gap. -/
def Gap.none : Gap :=
  ⟨[], areGaps_nil⟩

/-- A part of an array or an object, with the gaps around it. -/
structure Placed (α : Type) where
  before : Gap := .none
  part : α
  after : Gap := .none

/-- A text that is taken for one part, or fails to be one, **whatever follows it**. -/
structure Spells {α : Type} (reader : PartReader α) (cs : List Char) (x : Except Stop α) :
    Prop where
  begins : BeginsValue cs
  reads : ∀ rest, EndsNumber rest → reader (cs ++ rest) = x.map (·, rest)

/-- What stands behind a part: a comma and another part, or the mark that closes them. -/
def behind {α : Type} (chars : α → List Char) (close : Char) (rest : List Char) :
    List (Placed α) → List Char
  | [] => close :: rest
  | p :: ps =>
    ',' :: (p.before.chars ++ (chars p.part ++ (p.after.chars ++ behind chars close rest ps)))

/-- What stands behind an opening mark: parts with commas between them, up to the mark that closes
them. -/
def enclosed {α : Type} (chars : α → List Char) (close : Char) (gap : Gap) (rest : List Char) :
    List (Placed α) → List Char
  | [] => gap.chars ++ close :: rest
  | p :: ps => p.before.chars ++ (chars p.part ++ (p.after.chars ++ behind chars close rest ps))

section

variable {α β : Type} {reader : PartReader β} {chars : α → List Char} {outcome : α → Except Stop β}
  {close : Char} {what : Complaint}

theorem behind_append (rest more : List Char) (ps : List (Placed α)) :
    behind chars close rest ps ++ more = behind chars close (rest ++ more) ps := by
  induction ps with
  | nil => rfl
  | cons p ps ih => simp only [behind, List.cons_append, List.append_assoc, ih]

theorem enclosed_append (gap : Gap) (rest more : List Char) (ps : List (Placed α)) :
    enclosed chars close gap rest ps ++ more = enclosed chars close gap (rest ++ more) ps := by
  cases ps with
  | nil => simp only [enclosed, List.append_assoc, List.cons_append]
  | cons p ps => simp only [enclosed, List.append_assoc, behind_append]

/-- A number ends before what stands behind a part. -/
theorem endsNumber_behind (hclose : close = ']' ∨ close = '\x7d') (gap : Gap) (rest : List Char)
    (ps : List (Placed α)) : EndsNumber (gap.chars ++ behind chars close rest ps) := by
  refine gap.areGaps.endsNumber_append fun c hc => ?_
  cases ps with
  | nil =>
    obtain rfl := Option.some.inj hc
    rcases hclose with rfl | rfl <;> decide
  | cons p ps =>
    obtain rfl := Option.some.inj hc
    decide

theorem length_behind (chars : α → List Char) (close : Char) (rest : List Char)
    (ps : List (Placed α)) :
    ps.length < (behind chars close rest ps).length := by
  induction ps with
  | nil => exact Nat.succ_pos _
  | cons p ps ih =>
    simp only [behind, List.length_cons, List.length_append]
    omega

section

variable {cs rest more : List Char} {b : β}

/-- The last of several parts. -/
theorem readParts_last (hclose : isGap close = false) (gap : Gap)
    (h : reader cs = .ok (b, gap.chars ++ close :: rest)) (n : Nat) :
    readParts reader close what (n + 1) cs = .ok ([b], rest) := by
  rw [readParts, h]
  dsimp only [bind, Except.bind]
  rw [gap.areGaps.skipGap_append hclose]
  exact if_pos rfl

/-- A part before others. -/
theorem readParts_next (hclose : ',' ≠ close) (gap gap' : Gap)
    (h : reader cs = .ok (b, gap.chars ++ ',' :: (gap'.chars ++ more))) (hmore : BeginsValue more)
    (n : Nat) :
    readParts reader close what (n + 1) cs
      = (readParts reader close what n more).map fun (bs, rest) => (b :: bs, rest) := by
  rw [readParts, h]
  dsimp only [bind, Except.bind]
  rw [gap.areGaps.skipGap_append (by decide)]
  dsimp only
  rw [if_neg hclose, if_pos rfl, hmore.skipGap_append gap'.areGaps]
  rfl

/-- A part that fails to be one. -/
theorem readParts_error {f : Stop} (h : reader cs = .error f) (n : Nat) :
    readParts reader close what (n + 1) cs = .error f := by
  rw [readParts, h]
  rfl

end

/-- **Parts are read one after another**, and the first that fails decides. -/
theorem readParts_behind (hclose : close = ']' ∨ close = '\x7d')
    {p : Placed α} {ps : List (Placed α)}
    (h : ∀ q ∈ p :: ps, Spells reader (chars q.part) (outcome q.part)) {n : Nat}
    (hn : ps.length < n) (rest : List Char) :
    readParts reader close what n (chars p.part ++ (p.after.chars ++ behind chars close rest ps))
      = ((p :: ps).mapM fun q => outcome q.part).map (·, rest) := by
  induction ps generalizing p n with
  | nil =>
    -- There is fuel for this part, since there is more of it than there are parts.
    obtain ⟨n, rfl⟩ : ∃ k, n = k + 1 := ⟨n - 1, by omega⟩
    have hends : EndsNumber (p.after.chars ++ behind chars close rest []) :=
      endsNumber_behind hclose p.after rest []
    have hread := (h p List.mem_cons_self).reads _ hends
    rw [List.mapM_cons, List.mapM_nil]
    cases hp : outcome p.part with
    | error f =>
      rw [hp] at hread
      exact readParts_error hread n
    | ok b =>
      rw [hp] at hread
      exact readParts_last (by rcases hclose with rfl | rfl <;> decide) p.after hread n
  | cons p' ps ih =>
    obtain ⟨n, rfl⟩ : ∃ k, n = k + 1 := ⟨n - 1, by omega⟩
    rw [List.forall_mem_cons] at h
    have hends : EndsNumber (p.after.chars ++ behind chars close rest (p' :: ps)) :=
      endsNumber_behind hclose p.after rest (p' :: ps)
    have hread := h.1.reads _ hends
    rw [List.mapM_cons]
    cases hp : outcome p.part with
    | error f =>
      rw [hp] at hread
      exact readParts_error hread n
    | ok b =>
      rw [hp] at hread
      have hbegins := (h.2 p' List.mem_cons_self).begins.append
        (p'.after.chars ++ behind chars close rest ps)
      have hne : ',' ≠ close := by rcases hclose with rfl | rfl <;> decide
      rw [readParts_next hne p.after p'.before hread hbegins, ih h.2 (Nat.lt_of_succ_lt_succ hn)]
      cases (p' :: ps).mapM fun q => outcome q.part <;> rfl

/-- What stands behind an opening mark, without the gap at its front. -/
theorem skipGap_enclosed_cons {p : Placed α} (h : BeginsValue (chars p.part)) (close : Char)
    (gap : Gap) (rest : List Char) (ps : List (Placed α)) :
    skipGap (enclosed chars close gap rest (p :: ps))
      = chars p.part ++ (p.after.chars ++ behind chars close rest ps) :=
  (h.append _).skipGap_append p.before.areGaps

/-- **Parts between two marks are read**, with as much fuel as there is text. -/
theorem readParts_enclosed (chars : α → List Char) (outcome : α → Except Stop β)
    (hclose : close = ']' ∨ close = '\x7d') {p : Placed α} {ps : List (Placed α)}
    (h : ∀ q ∈ p :: ps, Spells reader (chars q.part) (outcome q.part)) (gap : Gap)
    (rest : List Char) :
    readParts reader close what
        ((skipGap (enclosed chars close gap rest (p :: ps))).length + 1)
        (skipGap (enclosed chars close gap rest (p :: ps)))
      = ((p :: ps).mapM fun q => outcome q.part).map (·, rest) := by
  have hlength := length_behind chars close rest ps
  rw [skipGap_enclosed_cons (h p List.mem_cons_self).begins]
  refine readParts_behind hclose h ?_ rest
  simp only [List.length_append]
  omega

end

/-! ## Values

A text of a value carries the proof that a reader makes of it what its outcome says. Building one
array or object out of such texts is therefore the whole induction: no theorem has to go over all
values. -/

/-- **The text of a value**, with what a reader makes of it where so many more arrays and objects
may be nested: the value, or the limit that it breaks. -/
structure ValueText (d : Dialect) where
  chars : List Char
  outcome : Nat → Except Stop Value
  spells : ∀ depth, Spells (readValue d depth) chars (outcome depth)

/-- The characters of a text between its two marks and of the second mark, with what they stand for.
-/
structure QuotedText (d : Dialect) where
  text : WireText
  chars : List Char
  reads : ∀ rest, readText d ('"' :: (chars ++ rest)) (chars ++ rest) = .ok (text, rest)

/-- The text of a member: its name, the colon and its value, with gaps between them. -/
structure MemberText (d : Dialect) where
  label : QuotedText d
  beforeColon : Gap := .none
  afterColon : Gap := .none
  value : ValueText d

variable {d : Dialect}

namespace QuotedText

/-- A string with all but plain characters escaped. -/
def ofString (s : String) : QuotedText d where
  text := .plain s
  chars := s.toList.flatMap (textChar isAsciiPlain) ++ ['"']
  reads rest := by
    rw [List.append_assoc]
    exact readText_textChars _ le_toNat_of_isAsciiPlain d s rest

end QuotedText

namespace MemberText

/-- The name of a member. -/
def name (m : MemberText d) : WireText :=
  m.label.text

/-- The characters of a member. -/
def chars (m : MemberText d) : List Char :=
  '"' :: (m.label.chars ++ (m.beforeColon.chars ++ ':' :: (m.afterColon.chars ++ m.value.chars)))

/-- What a member is read as. -/
def outcome (depth : Nat) (m : MemberText d) : Except Stop (Value × Value) :=
  (m.value.outcome depth).map (m.name.toValue, ·)

theorem readName_append (m : MemberText d) (rest : List Char) :
    readName d (m.chars ++ rest) = .ok (m.name, m.value.chars ++ rest) := by
  have hbegins := (m.value.spells 0).begins.append rest
  simp only [chars, List.cons_append, List.append_assoc, readName, m.label.reads, bind, Except.bind]
  rw [m.beforeColon.areGaps.skipGap_append (by decide)]
  exact congrArg (fun more => Except.ok (m.name, more))
    (hbegins.skipGap_append m.afterColon.areGaps)

theorem spells (depth : Nat) (m : MemberText d) :
    Spells (readMember d (readValue d depth)) m.chars (m.outcome depth) where
  begins := beginsValue_mark _
  reads rest hrest := by
    rw [readMember, readName_append]
    show (readValue d depth (m.value.chars ++ rest) >>= _) = _
    rw [(m.value.spells depth).reads rest hrest, outcome]
    cases m.value.outcome depth <;> rfl

end MemberText

namespace ValueText

/-- The text of a scalar, which nothing is nested in. -/
def scalar (chars : List Char) (x : Except Stop Value)
    (h : ∀ inner?, Spells (readValueWith d inner?) chars x) : ValueText d where
  chars := chars
  outcome _ := x
  spells
    | 0 => h none
    | depth + 1 => h (some (readValue d depth))

/-- A text as a value. -/
def quoted (t : QuotedText d) : ValueText d :=
  scalar ('"' :: t.chars) (.ok t.text.toValue) fun inner? =>
    { begins := beginsValue_mark _
      reads := fun rest _ => by
        rw [List.cons_append, readValueWith, t.reads]
        rfl }

/-- The outcome of an array of such texts. -/
def arrayOutcome (elements : List (Placed (ValueText d))) : Nat → Except Stop Value
  | 0 => .error (.tooDeep .array)
  | depth + 1 =>
    (elements.mapM fun e : Placed (ValueText d) => e.part.outcome depth).map Value.list

/-- The outcome of an object of such members. -/
def objectOutcome (members : List (Placed (MemberText d))) : Nat → Except Stop Value
  | 0 => .error (.tooDeep .object)
  | depth + 1 =>
    (members.mapM fun m : Placed (MemberText d) => m.part.outcome depth).map
      fun pairs => .table (Table.ofPairs pairs)

theorem readArray_enclosed (gap : Gap) (elements : List (Placed (ValueText d))) (depth : Nat)
    (rest : List Char) :
    readArray (readValue d depth) (enclosed ValueText.chars ']' gap rest elements)
      = (elements.mapM fun e : Placed (ValueText d) => e.part.outcome depth).map (·, rest) := by
  cases elements with
  | nil => exact readArray_of_close _ (gap.areGaps.skipGap_append (by decide) rest)
  | cons e es =>
    have hbegins := (e.part.spells 0).begins
    rw [readArray_of_head?_ne]
    · exact readParts_enclosed ValueText.chars (fun x => x.outcome depth) (.inl rfl)
        (fun q _ => q.part.spells depth) gap rest
    · rw [skipGap_enclosed_cons hbegins]
      obtain ⟨c, more, hchars, -, hc, -⟩ := hbegins
      rw [hchars]
      exact fun h => hc (Option.some.inj h)

theorem readObject_enclosed (gap : Gap) (members : List (Placed (MemberText d))) (depth : Nat)
    (rest : List Char) :
    readObject d (readValue d depth) (enclosed MemberText.chars '\x7d' gap rest members)
      = (members.mapM fun m : Placed (MemberText d) => m.part.outcome depth).map
        fun pairs => (Table.ofPairs pairs, rest) := by
  cases members with
  | nil => exact readObject_of_close _ _ (gap.areGaps.skipGap_append (by decide) rest)
  | cons m ms =>
    rw [readObject_of_head?_ne, readParts_enclosed MemberText.chars (MemberText.outcome depth)
      (.inr rfl) fun q _ => q.part.spells depth]
    · cases (m :: ms).mapM fun m : Placed (MemberText d) => m.part.outcome depth <;> rfl
    · rw [skipGap_enclosed_cons (m.part.spells 0).begins]
      exact fun h => absurd (Option.some.inj h) (by decide)

/-- An array of texts of values. -/
def array (gap : Gap) (elements : List (Placed (ValueText d))) : ValueText d where
  chars := '[' :: enclosed ValueText.chars ']' gap [] elements
  outcome := arrayOutcome elements
  spells depth := {
    begins := ⟨'[', _, rfl, by decide, by decide, by decide⟩
    reads := fun rest _ => by
      rw [List.cons_append, enclosed_append, List.nil_append]
      -- With no level left the bracket itself is the limit, whatever is behind it.
      cases depth with
      | zero => rfl
      | succ depth =>
        show (readArray (readValue d depth) _ >>= _) = _
        rw [readArray_enclosed, arrayOutcome]
        cases elements.mapM fun e : Placed (ValueText d) => e.part.outcome depth <;> rfl }

/-- An object of texts of members. -/
def object (gap : Gap) (members : List (Placed (MemberText d))) : ValueText d where
  chars := '\x7b' :: enclosed MemberText.chars '\x7d' gap [] members
  outcome := objectOutcome members
  spells depth := {
    begins := ⟨'\x7b', _, rfl, by decide, by decide, by decide⟩
    reads := fun rest _ => by
      rw [List.cons_append, enclosed_append, List.nil_append]
      cases depth with
      | zero => rfl
      | succ depth =>
        show (readObject d (readValue d depth) _ >>= _) = _
        rw [readObject_enclosed, objectOutcome]
        cases members.mapM fun m : Placed (MemberText d) => m.part.outcome depth <;> rfl }

/-! ## Documents

A document is one value with gaps around it, and it must not begin with a byte order mark, which no
value and no gap does. -/

/-- A document with a value and gaps around it. -/
def line (x : Placed (ValueText d)) : String :=
  String.ofList (x.before.chars ++ (x.part.chars ++ x.after.chars))

/-- **A document is read as its value is**, wherever the gaps are. -/
theorem readDocument_line (x : Placed (ValueText d)) :
    readDocument d (line x).toList = x.part.outcome d.maxDepth := by
  have hbegins := (x.part.spells 0).begins.append x.after.chars
  have hhead : (x.before.chars ++ (x.part.chars ++ x.after.chars)).head?
      ≠ some (Char.ofNat 0xFEFF) := by
    cases hgap : x.before.chars with
    | nil => exact hbegins.head?_ne
    | cons c cs =>
      have hc := x.before.areGaps c (hgap ▸ List.mem_cons_self)
      rintro hhead
      obtain rfl := Option.some.inj hhead
      exact absurd hc (by decide)
  rw [line, String.toList_ofList, readDocument, if_neg hhead,
    hbegins.skipGap_append x.before.areGaps,
    (x.part.spells d.maxDepth).reads _ x.after.areGaps.endsNumber]
  cases x.part.outcome d.maxDepth with
  | error f => rfl
  | ok v =>
    simp only [Except.map, bind, Except.bind, x.after.areGaps.skipGap_eq_nil]
    rfl

theorem read_line (x : Placed (ValueText d)) :
    read d (line x) = (x.part.outcome d.maxDepth).mapError (·.fault (line x).toList) := by
  rw [read, readDocument_line]

end ValueText

end AgentClient.Json
