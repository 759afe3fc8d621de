import AgentClient.Proofs.Json.TextSizes
import AgentClient.Proofs.Wire.Readings

/-!
# Proofs/Wire/BriefFaults — what is wrong with a wire object is said in a few words

A fault names a member, the type of a value or a count of digits, and of a text that is no number it
shows the beginning only.  So whatever a wire object holds, a step that fails on the way to its
event fails **briefly** (`FailsBriefly`), with one exception: a type of no meaning is shown as a
whole (`Event.isBrief_or_unknown_of_ofTable`). -/

namespace AgentClient

open Number Wire Text

/-! ## Types of values of documents

A fault that shows a type shows one of seven names, as no other kind of value is ever read. -/

/-- The types that a value of a document may have. -/
def documentTypes : List String :=
  ["NoneType", "bool", "int", "float", "str", "list", "dict"]

namespace Value

variable {depth : Nat} {v : Value}

theorem IsDocument.typeName_mem (h : v.IsDocument depth) : v.typeName ∈ documentTypes := by
  cases v with
  | tuple | model | foreign => exact h.parts.elim
  | _ => simp [typeName, documentTypes]

theorem IsDocument.qualifiedTypeName_mem (h : v.IsDocument depth) :
    v.qualifiedTypeName ∈ documentTypes := by
  cases v with
  | tuple | model | foreign => exact h.parts.elim
  | _ => simp [qualifiedTypeName, typeName, documentTypes]

theorem IsDocument.keyObstacle_mem (h : v.IsDocument depth) {name : String}
    (hname : v.keyObstacle? = some name) : name ∈ documentTypes := by
  cases v with
  | list | table =>
    obtain rfl := Option.some.inj hname
    simp [documentTypes]
  | tuple | model | foreign => exact h.parts.elim
  | _ => exact absurd hname nofun

end Value

/-! ## Brief faults

The bound is on the fault between quotation marks, where a character may take ten. A fault that is
put together of printable words has at most two for each; one that holds other characters has to be
short from the start. -/

namespace Fault

/-- A fault whose text does not take much room between quotation marks. -/
def IsBrief (f : Fault) : Prop :=
  (quoted f.text).length ≤ 482

variable {f : Fault}

theorem isBrief_of_isTerse (h : IsTerse 240 f.text) : f.IsBrief :=
  h.length_quoted_le

/-- A text that is short enough may hold any characters. -/
theorem isBrief_of_length_le (h : f.text.length ≤ 48) : f.IsBrief :=
  (length_quoted_le f.text).trans (by omega)

/-- The faults of a value that is not of the type it should be. -/
def ofType (typeName : String) : List Fault :=
  [.itemNotTable typeName, .memberNotTable "usage" typeName, .memberNotTable "error" typeName,
    .notIndexable typeName, .notIterable typeName, .notHashable typeName, .notNumeric typeName]

/-- **A fault about a type** is brief. -/
theorem isBrief_ofType {typeName : String} (h : typeName ∈ documentTypes) :
    ∀ f ∈ ofType typeName, f.IsBrief := by
  have hterse : ∀ name ∈ documentTypes, IsTerse 8 name := by decide
  have hindexable : ∀ name ∈ documentTypes, IsTerse 240 (notIndexable name).text := by decide
  have hmark : IsTerse 1 "'" := by decide
  have hname := hterse typeName h
  have hmember : ∀ {member}, IsTerse 7 (quoted member) → (memberNotTable member typeName).IsBrief :=
    fun hm => isBrief_of_isTerse (((hm.append (n := 24) (by decide)).append hname).mono (by decide))
  simp only [ofType, List.forall_mem_cons]
  refine ⟨isBrief_of_isTerse ?_, hmember (by decide), hmember (by decide),
    isBrief_of_isTerse (hindexable typeName h), isBrief_of_isTerse ?_, isBrief_of_isTerse ?_,
    isBrief_of_isTerse ?_, nofun⟩
  · exact (IsTerse.append (m := 28) (by decide) hname).mono (by decide)
  · exact ((hmark.append hname).append (n := 24) (by decide)).mono (by decide)
  · exact ((IsTerse.append (m := 18) (by decide) hname).append hmark).mono (by decide)
  · exact ((IsTerse.append (m := 77) (by decide) hname).append hmark).mono (by decide)

/-- The words for too many digits are plain. -/
theorem isTerse_digitLimit {k : Nat} {detail : String} (h : IsTerse k detail) :
    IsTerse (62 + k + 57) (digitLimit detail) :=
  (IsTerse.append (by decide) h).append (by decide)

theorem isBrief_overlongInt : overlongInt.IsBrief :=
  isBrief_of_isTerse ((isTerse_digitLimit (k := 0) (by decide)).mono (by decide))

theorem isBrief_overlongText {count : Nat} (h : count ≤ 10 ^ 9) : (overlongText count).IsBrief := by
  have hcount : IsTerse 10 (toString count) := isTerse_toString (by decide) (by omega)
  have hdetail := (IsTerse.append (s := ": value has ") (m := 12) (by decide) hcount).append
    (t := " digits") (n := 7) (by decide)
  exact isBrief_of_isTerse ((isTerse_digitLimit hdetail).mono (by decide))

/-- Of a text that is no number only the beginning is shown. -/
theorem isBrief_notInteger (t : WireText) : (notInteger t).IsBrief := by
  refine isBrief_of_isTerse (IsTerse.append (m := 40) (n := 200) (by decide) (.ofList ?_ ?_))
  · rw [List.length_take]
    exact Nat.min_le_left _ _
  · exact fun c hc => t.arePrintable_quotedChars c (List.mem_of_mem_take hc)

end Fault

/-- A computation that fails with brief faults alone. -/
abbrev FailsBriefly {α : Type} (x : Except Fault α) : Prop :=
  FailsWith Fault.IsBrief x

/-! ## Coercions

The conversions to tables, lists and texts fail with the type of the value. Only the conversion to a
whole number looks at a text, and shows its first two hundred characters or the count of its digits.
-/

namespace Wire

variable {depth : Nat} {v : Value}

theorem failsBriefly_require (t : Table) {name : String} (hname : name.length ≤ 48) :
    FailsBriefly (require t name) := by
  rw [require]
  cases t.get? name with
  | some v => exact .ok v
  | none => exact .error (Fault.isBrief_of_length_le hname)

/-- A value that is shown as a text fails only at the limit of digits. -/
theorem failsBriefly_textOf (v : Value) : FailsBriefly (textOf v) := by
  rw [textOf]
  split
  · exact .ok _
  · split
    · exact .error Fault.isBrief_overlongInt
    · exact .ok _

theorem failsBriefly_tableOf (hv : v.IsDocument depth) : FailsBriefly (tableOf v) := by
  have hbrief := Fault.isBrief_ofType hv.qualifiedTypeName_mem
  cases v with
  | table entries => exact .ok entries
  | _ => exact .error (hbrief _ (by simp [Fault.ofType]))

theorem failsBriefly_membersOf (hv : v.IsDocument depth) : FailsBriefly (membersOf v) := by
  have hbrief := Fault.isBrief_ofType hv.qualifiedTypeName_mem
  cases v with
  | list | tuple | str | broken | table => exact .ok _
  | _ => exact .error (hbrief _ (by simp [Fault.ofType]))

/-- A text is repeated in its message, cut if it is long; the count of its digits has at most ten.
-/
theorem failsBriefly_intOfText {t : WireText} (ht : t.points.length ≤ 10 ^ 9) :
    FailsBriefly (intOfText t) := by
  have hstring : t.toString.length = t.points.length := by
    cases t with
    | plain s => exact (WireText.length_points_plain s).symm
    | broken points =>
      rw [WireText.toString, String.length_ofList, List.length_map, WireText.points]
  rw [intOfText]
  split
  · exact .ok _
  · exact .error (Fault.isBrief_notInteger t)
  · next count hcount =>
    have hle := le_length_of_readInt hcount
    exact .error (Fault.isBrief_overlongText (by omega))

/-- A number is read from a boolean, a number or a text. -/
theorem failsBriefly_intOf (hv : v.IsDocument depth) (hsize : v.textSize ≤ 10 ^ 9) :
    FailsBriefly (intOf v) := by
  have hbrief := Fault.isBrief_ofType hv.qualifiedTypeName_mem
  cases v with
  | bool | int => exact .ok _
  | float x =>
    cases x with
    | finite => exact .ok _
    | infinite => exact .error (Fault.isBrief_of_length_le (by decide))
    | nan => exact .error (Fault.isBrief_of_length_le (by decide))
  | str s =>
    refine failsBriefly_intOfText (t := .plain s) ?_
    rwa [WireText.length_points_plain]
  | broken points => exact failsBriefly_intOfText (t := .broken points) hsize
  | _ => exact .error (hbrief _ (by simp [Fault.ofType]))

end Wire

/-! ## Items

The proofs follow the model step by step. What they carry along is that every value met on the way
is of a document, which gives the names of types, and for the parts of a list that their members
are. -/

namespace Item

variable {depth : Nat} {t : Table} {v : Value}

theorem failsBriefly_changeOf (hv : v.IsDocument depth) : FailsBriefly (changeOf v) :=
  (failsBriefly_tableOf hv).bind fun t _ =>
    (failsBriefly_require t (by decide)).bind fun _ _ =>
      (failsBriefly_require t (by decide)).bind fun _ _ => .ok _

theorem failsBriefly_todoOf (hv : v.IsDocument depth) : FailsBriefly (todoOf v) :=
  (failsBriefly_tableOf hv).bind fun t _ =>
    (failsBriefly_require t (by decide)).bind fun _ _ => .ok _

/-- Each member is taken for a part, and is of a document as all of them are. -/
theorem failsBriefly_parts {α β : Type} {part : Value → Except Fault α}
    (hv : v.IsDocument (depth + 1))
    (hpart : ∀ m : Value, m.IsDocument depth → FailsBriefly (part m)) (make : List α → β) :
    FailsBriefly (do
      let members ← membersOf v
      let parts ← members.mapM part
      return make parts) :=
  (failsBriefly_membersOf hv).bind fun _ hmembers =>
    (FailsWith.mapM fun m hm => hpart m (isDocument_membersOf hv hmembers m hm)).bind
      fun _ _ => .ok _

/-- Making an item fails with nothing longer than a name. -/
theorem failsBriefly_ofMembers (ht : t.HoldsDocuments (depth + 1)) (id : WireText) (type : Value) :
    FailsBriefly (ofMembers t id type) := by
  have hlist : ∀ name, (t.getD name (.list [])).IsDocument (depth + 1) :=
    fun name => ht.getD name .nil
  -- the types with a meaning in their order, and any other one last
  rw [ofMembers.eq_def]
  split
  · exact .ok _
  · exact .ok _
  · exact (failsBriefly_require t (by decide)).bind fun _ _ => .ok _
  · exact failsBriefly_parts (hlist _) (fun _ => failsBriefly_changeOf) _
  · exact (failsBriefly_require t (by decide)).bind fun _ _ =>
      (failsBriefly_require t (by decide)).bind fun _ _ => .ok _
  · exact .ok _
  · exact failsBriefly_parts (hlist _) (fun _ => failsBriefly_todoOf) _
  · exact .ok _
  · exact (failsBriefly_textOf _).bind fun _ _ => .ok _

/-- **An item** fails briefly. -/
theorem failsBriefly_parse (hv : v.IsDocument depth) : FailsBriefly (parse v) := by
  have hbrief := Fault.isBrief_ofType hv.typeName_mem
  cases v with
  | table t =>
    obtain ⟨k, -, -, -, hvalues⟩ := hv.parts
    have ht : Table.HoldsDocuments (k + 1) t := fun e he => (hvalues e he).mono (Nat.le_succ k)
    exact (failsBriefly_require t (by decide)).bind fun type _ =>
      (failsBriefly_require t (by decide)).bind fun idValue _ =>
        (failsBriefly_textOf idValue).bind fun id _ => failsBriefly_ofMembers ht id type
  | _ => exact .error (hbrief _ (by simp [Fault.ofType]))

end Item

/-! ## Events

For the counts of tokens the size of the texts has to be carried along as well: a text is no longer
than the line, so the count of its digits is a number of few digits. A type without a meaning is the
one fault that is left out, and is told apart by where it is made. -/

namespace Event

variable {depth : Nat} {t : Table} {f : Fault} {v : Value}

/-- A member that has to be a table is named with its type where it is none. -/
theorem failsBriefly_tableMember (ht : t.HoldsDocuments depth) {name : String}
    (hname : name = "usage" ∨ name = "error") : FailsBriefly (tableMember t name) := by
  have hbrief := Fault.isBrief_ofType (ht.getD name .null).typeName_mem
  rw [tableMember]
  split
  · split
    · exact .ok _
    · refine .error (hbrief _ ?_)
      rcases hname with rfl | rfl <;> simp [Fault.ofType]
  · exact .ok _

/-- What is found under a name has no more texts than the table. -/
theorem textSize_getD_le {name : String} {default : Value} (hdefault : default.textSize = 0) :
    (t.getD name default).textSize ≤ (Value.table t).textSize := by
  rw [Table.getD]
  cases hget : t.get? name with
  | none => exact hdefault ▸ Nat.zero_le _
  | some v => exact Value.textSize_le_of_mem (Table.mem_of_get?_eq_some hget)

/-- A member that is a table is part of its event. -/
theorem textSize_le_of_tableMember {name : String} {entries : Table}
    (h : tableMember t name = .ok entries) :
    (Value.table entries).textSize ≤ (Value.table t).textSize := by
  rw [tableMember] at h
  split at h
  · split at h
    · next hget =>
      obtain rfl := Except.ok.inj h
      exact hget ▸ textSize_getD_le rfl
    · cases h
  · obtain rfl := Except.ok.inj h
    exact Nat.zero_le _

theorem failsBriefly_tokenCount (ht : t.HoldsDocuments depth)
    (hsize : (Value.table t).textSize ≤ 10 ^ 9) (name : String) :
    FailsBriefly (tokenCount t name) :=
  failsBriefly_intOf (ht.getD name (.int (isOverlong_bool false)))
    ((textSize_getD_le rfl).trans hsize)

theorem failsBriefly_itemEvent (ht : t.HoldsDocuments depth) (stage : ItemStage) :
    FailsBriefly (itemEvent t stage) :=
  (failsBriefly_require t (by decide)).bind fun _ hv =>
    (Item.failsBriefly_parse (ht.require hv)).bind fun _ _ => .ok _

/-- **An event of a type with a meaning** fails briefly. -/
theorem failsBriefly_ofMembers (ht : t.HoldsDocuments depth)
    (hsize : (Value.table t).textSize ≤ 10 ^ 9) (hv : v ∈ types.map Value.str) :
    FailsBriefly (ofMembers t v) := by
  rw [ofMembers.eq_def]
  split
  · exact (failsBriefly_require t (by decide)).bind fun id _ =>
      (failsBriefly_textOf id).bind fun _ _ => .ok _
  · exact .ok _
  · refine (failsBriefly_tableMember ht (.inl rfl)).bind fun usage husage => ?_
    have hcount := failsBriefly_tokenCount (holdsDocuments_of_tableMember ht husage)
      ((textSize_le_of_tableMember husage).trans hsize)
    exact (hcount _).bind fun _ _ => (hcount _).bind fun _ _ => (hcount _).bind fun _ _ => .ok _
  · exact (failsBriefly_tableMember ht (.inr rfl)).bind fun _ _ =>
      (failsBriefly_textOf _).bind fun _ _ => .ok _
  · exact failsBriefly_itemEvent ht .started
  · exact failsBriefly_itemEvent ht .updated
  · exact failsBriefly_itemEvent ht .completed
  · exact (failsBriefly_textOf _).bind fun _ _ => .ok _
  · simp_all [types]

/-- A type of no meaning is looked up first, and shown then. -/
theorem ofMembers_eq_of_not_mem (hv : v ∉ types.map Value.str) :
    ofMembers t v = match v.keyObstacle? with
      | some typeName => .error (.notHashable typeName)
      | none => shownText v >>= fun shown => .error (.unknownEvent shown) := by
  rw [ofMembers.eq_def]
  split
  all_goals first
    | exact absurd (List.mem_map_of_mem (by simp [types])) hv
    | rfl

/-- What is wrong with an event whose type is a value without a meaning. -/
theorem ofMembers_eq_unknownEvent (hdocument : v.IsDocument depth) (hv : v ∉ types.map Value.str)
    (hkey : v.keyObstacle? = none) : ofMembers t v = .error (.unknownEvent v.display) := by
  rw [ofMembers_eq_of_not_mem hv, hkey, shownText, hdocument.hasOverlong_eq_false]
  rfl

/-- **An event fails briefly**, or its type has no meaning. -/
theorem isBrief_or_unknown_of_ofTable (ht : t.HoldsDocuments depth)
    (hsize : (Value.table t).textSize ≤ 10 ^ 9) (hv : t.getD "type" .null = v)
    (h : ofTable t = .error f) :
    f.IsBrief ∨ v ∉ types.map Value.str ∧ v.keyObstacle? = none ∧ f = .unknownEvent v.display := by
  have hdocument : v.IsDocument depth := hv ▸ ht.getD "type" .null
  rw [ofTable, hv] at h
  -- The type has a meaning, cannot be looked up at all, or is looked up in vain.
  by_cases hmem : v ∈ types.map Value.str
  · exact .inl (failsBriefly_ofMembers ht hsize hmem f h)
  · cases hkey : v.keyObstacle? with
    | some typeName =>
      rw [ofMembers_eq_of_not_mem hmem, hkey] at h
      obtain rfl := Except.error.inj h
      exact .inl (Fault.isBrief_ofType (hdocument.keyObstacle_mem hkey) _ (by simp [Fault.ofType]))
    | none =>
      rw [ofMembers_eq_unknownEvent hdocument hmem hkey] at h
      exact .inr ⟨hmem, rfl, (Except.error.inj h).symm⟩

end Event

end AgentClient
