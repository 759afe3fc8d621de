import AgentClient.Proofs.Json.Limits
import AgentClient.Proofs.Wire.EventLines

/-!
# Proofs/Wire/LetThrough — the three faults that a line lets through

Reading a line ends in an event, in a failure that names the line, or in a fault that is let
through. Whatever the members of a wire object hold, what goes wrong while the event is made of them
makes the line malformed (`OnlyMalformed`), one conversion apart: of an infinite number to a whole
one (`isMalformed_or_infinite_of_intOf`).  Only the counts of tokens are converted so, which leaves
three faults to let through — the two limits of the reader and an infinite count (`LetsThrough`),
and **each of them is let through, and nothing else** (`Event.parse_outcome`).
-/

namespace AgentClient

open Number Wire

/-! ## What computations fail with

Making an event is a chain of computations that may fail. A property of the faults is shown link by
link, and what follows a link may use what came of it. -/

/-- A computation that fails with errors of some kind alone. -/
def FailsWith {ε α : Type} (P : ε → Prop) (x : Except ε α) : Prop :=
  ∀ f, x = .error f → P f

namespace FailsWith

variable {ε α β : Type} {P : ε → Prop} {x : Except ε α}

theorem ok (a : α) : FailsWith P (.ok a) :=
  fun _ h => absurd h nofun

theorem error {f : ε} (h : P f) : FailsWith P (.error f : Except ε α) :=
  fun _ hf => Except.error.inj hf ▸ h

/-- What follows a computation may rely on what comes of it. -/
theorem bind (h : FailsWith P x) {g : α → Except ε β}
    (hg : ∀ a, x = .ok a → FailsWith P (g a)) : FailsWith P (x >>= g) := by
  cases x with
  | ok a => exact hg a rfl
  | error f => exact error (h f rfl)

theorem mapM {g : α → Except ε β} {as : List α} (hg : ∀ a ∈ as, FailsWith P (g a)) :
    FailsWith P (as.mapM g) := by
  induction as with
  | nil => exact ok []
  | cons a as ih =>
    rw [List.forall_mem_cons] at hg
    rw [List.mapM_cons]
    exact hg.1.bind fun b _ => (ih hg.2).bind fun bs _ => ok (b :: bs)

end FailsWith

/-! ## What makes a line malformed

Four kinds of faults are caught where a line is read, and turned into a failure that names the line.
For the links that need no result of the one before, the property is stated without it. -/

/-- A computation that fails with no fault but those that make a line malformed. -/
def OnlyMalformed {α : Type} (x : Except Fault α) : Prop :=
  ∀ f, x = .error f → Event.isMalformed f = true

namespace OnlyMalformed

variable {α β : Type} {x : Except Fault α}

theorem ok (a : α) : OnlyMalformed (.ok a) :=
  FailsWith.ok a

theorem error {f : Fault} (h : Event.isMalformed f = true) :
    OnlyMalformed (.error f : Except Fault α) :=
  FailsWith.error h

theorem bind (h : OnlyMalformed x) {g : α → Except Fault β} (hg : ∀ a, OnlyMalformed (g a)) :
    OnlyMalformed (x >>= g) :=
  FailsWith.bind h fun a _ => hg a

theorem mapM {g : α → Except Fault β} (hg : ∀ a, OnlyMalformed (g a)) (as : List α) :
    OnlyMalformed (as.mapM g) :=
  FailsWith.mapM fun a _ => hg a

end OnlyMalformed

/-! ## Coercions

All conversions but one fail with faults of these kinds, whatever the value is. The exception is the
conversion of an infinite number to a whole one, which is a fault of arithmetic. -/

namespace Wire

theorem onlyMalformed_require (t : Table) (name : String) : OnlyMalformed (require t name) := by
  rw [require]
  cases t.get? name with
  | some v => exact .ok v
  | none => exact .error rfl

theorem onlyMalformed_textOf (v : Value) : OnlyMalformed (textOf v) := by
  rw [textOf]
  split
  · exact .ok _
  · split
    · exact .error rfl
    · exact .ok _

theorem onlyMalformed_shownText (v : Value) : OnlyMalformed (shownText v) := by
  rw [shownText]
  split
  · exact .error rfl
  · exact .ok _

theorem onlyMalformed_tableOf (v : Value) : OnlyMalformed (tableOf v) := by
  cases v with
  | table entries => exact .ok entries
  | _ => exact .error rfl

theorem onlyMalformed_membersOf (v : Value) : OnlyMalformed (membersOf v) := by
  cases v with
  | list | tuple | str | broken | table => exact .ok _
  | _ => exact .error rfl

theorem onlyMalformed_intOfText (t : WireText) : OnlyMalformed (intOfText t) := by
  rw [intOfText]
  split
  · exact .ok _
  · exact .error rfl
  · exact .error rfl

/-- **An infinite number is the one value** whose conversion to a whole number fails otherwise. -/
theorem isMalformed_or_infinite_of_intOf {v : Value} {f : Fault} (h : intOf v = .error f) :
    Event.isMalformed f = true
      ∨ f = .wholeOfInfinity ∧ ∃ negative, v = .float (.infinite negative) := by
  -- Of the values that are no numbers none is converted; of the numbers it is the infinite ones.
  cases v with
  | bool | int => exact absurd h nofun
  | float x =>
    cases x with
    | finite => exact absurd h nofun
    | infinite negative => exact .inr ⟨(Except.error.inj h).symm, negative, rfl⟩
    | nan => exact .inl (Except.error.inj h ▸ rfl)
  | str s => exact .inl (onlyMalformed_intOfText _ f h)
  | broken points => exact .inl (onlyMalformed_intOfText _ f h)
  | _ => exact .inl (Except.error.inj h ▸ rfl)

section

variable {α β ε : Type} {f : α → Except ε β} {xs : List α} {e : ε}

/-- The first member fails, or it does not and one behind it does. -/
theorem mapM_cons_eq_error_iff {x : α} :
    (x :: xs).mapM f = .error e ↔ f x = .error e ∨ (∃ b, f x = .ok b) ∧ xs.mapM f = .error e := by
  rw [List.mapM_cons]
  cases f x with
  | error e' => simp [bind, Except.bind]
  | ok b => cases xs.mapM f <;> simp [bind, Except.bind, pure, Except.pure]

/-- The first of several computations that fails decides how all of them do. -/
theorem mapM_eq_error_iff :
    xs.mapM f = .error e ↔ ∃ before x after, xs = before ++ x :: after
      ∧ (∀ y ∈ before, ∃ b, f y = .ok b) ∧ f x = .error e := by
  induction xs with
  | nil =>
    refine ⟨fun h => absurd h nofun, ?_⟩
    rintro ⟨before, x, after, hxs, -⟩
    exact absurd hxs (List.append_ne_nil_of_right_ne_nil _ (List.cons_ne_nil _ _)).symm
  | cons x xs ih =>
    rw [mapM_cons_eq_error_iff, ih]
    -- The member that fails is the first one, or it is among the rest and the first one is in front
    -- of it.
    constructor
    · rintro (hx | ⟨hx, before, y, after, rfl, hbefore, hy⟩)
      · exact ⟨[], x, xs, rfl, nofun, hx⟩
      · exact ⟨x :: before, y, after, rfl, List.forall_mem_cons.mpr ⟨hx, hbefore⟩, hy⟩
    · rintro ⟨before, y, after, hxs, hbefore, hy⟩
      cases before with
      | nil => exact .inl ((List.cons.inj hxs).1 ▸ hy)
      | cons z before =>
        obtain ⟨rfl, rfl⟩ := List.cons.inj hxs
        rw [List.forall_mem_cons] at hbefore
        exact .inr ⟨hbefore.1, before, y, after, rfl, hbefore.2, hy⟩

end

end Wire

/-! ## Items

No count is read for an item, so every way in which one can fail is caught. -/

namespace Item

theorem onlyMalformed_changeOf (v : Value) : OnlyMalformed (changeOf v) :=
  (onlyMalformed_tableOf v).bind fun t => (onlyMalformed_require t "path").bind fun _ =>
    (onlyMalformed_require t "kind").bind fun _ => .ok _

theorem onlyMalformed_todoOf (v : Value) : OnlyMalformed (todoOf v) :=
  (onlyMalformed_tableOf v).bind fun t => (onlyMalformed_require t "text").bind fun _ => .ok _

/-- The members of an item make the line malformed, and nothing else. -/
theorem onlyMalformed_ofMembers (t : Table) (id : WireText) (type : Value) :
    OnlyMalformed (ofMembers t id type) := by
  -- the types with a meaning in their order, and any other one last
  rw [ofMembers.eq_def]
  split
  · exact .ok _
  · exact .ok _
  · exact (onlyMalformed_require t "command").bind fun _ => .ok _
  · exact (onlyMalformed_membersOf _).bind fun members =>
      (OnlyMalformed.mapM onlyMalformed_changeOf members).bind fun _ => .ok _
  · exact (onlyMalformed_require t "server").bind fun _ =>
      (onlyMalformed_require t "tool").bind fun _ => .ok _
  · exact .ok _
  · exact (onlyMalformed_membersOf _).bind fun members =>
      (OnlyMalformed.mapM onlyMalformed_todoOf members).bind fun _ => .ok _
  · exact .ok _
  · exact (onlyMalformed_textOf _).bind fun _ => .ok _

/-- **No value fails to be an item otherwise**, whatever it holds. -/
theorem onlyMalformed_parse (v : Value) : OnlyMalformed (parse v) := by
  cases v with
  | table t =>
    exact (onlyMalformed_require t "type").bind fun type =>
      (onlyMalformed_require t "id").bind fun idValue =>
        (onlyMalformed_textOf idValue).bind fun id => onlyMalformed_ofMembers t id type
  | _ => exact .error rfl

end Item

/-! ## Events

Of the eight types of events one reads counts. Its first count that fails decides, so an infinite
one is let through if the counts before it are taken; the two other faults come from the reader,
before there is an event. -/

namespace Event

variable {t : Table} {f : Fault}

theorem onlyMalformed_tableMember (t : Table) (name : String) :
    OnlyMalformed (tableMember t name) := by
  rw [tableMember]
  split
  · split
    · exact .ok _
    · exact .error rfl
  · exact .ok _

theorem onlyMalformed_itemEvent (t : Table) (stage : ItemStage) :
    OnlyMalformed (itemEvent t stage) :=
  (onlyMalformed_require t "item").bind fun v => (Item.onlyMalformed_parse v).bind fun _ => .ok _

/-- The names of the counts of tokens, in the order in which they are read. -/
def countNames : List String :=
  ["input_tokens", "cached_input_tokens", "output_tokens"]

/-- A usage whose first count that is no whole number is infinite. -/
def HasInfiniteCount (usage : Table) : Prop :=
  ∃ before name after, countNames = before ++ name :: after
    ∧ (∀ n ∈ before, ∃ count, tokenCount usage n = .ok count)
    ∧ ∃ negative, usage.get? name = some (.float (.infinite negative))

/-- A count is let through just if it is infinite. -/
theorem tokenCount_eq_wholeOfInfinity_iff {usage : Table} {name : String} :
    tokenCount usage name = .error .wholeOfInfinity
      ↔ ∃ negative, usage.get? name = some (.float (.infinite negative)) := by
  rw [tokenCount.eq_def, Table.getD.eq_def]
  cases usage.get? name with
  | none => exact ⟨nofun, nofun⟩
  | some v =>
    constructor
    · intro h
      rcases isMalformed_or_infinite_of_intOf h with h | ⟨-, negative, hv⟩
      · exact absurd h Bool.false_ne_true
      · exact ⟨negative, congrArg some hv⟩
    · rintro ⟨negative, hv⟩
      rw [Option.getD_some, Option.some.inj hv]
      rfl

/-- **An infinite count** is what the counts of tokens fail with otherwise. -/
theorem hasInfiniteCount_iff {usage : Table} :
    countNames.mapM (tokenCount usage) = .error .wholeOfInfinity ↔ HasInfiniteCount usage := by
  simp only [mapM_eq_error_iff, tokenCount_eq_wholeOfInfinity_iff, HasInfiniteCount]

theorem isMalformed_or_of_counts {usage : Table}
    (h : countNames.mapM (tokenCount usage) = .error f) :
    isMalformed f = true ∨ f = .wholeOfInfinity := by
  obtain ⟨before, name, after, -, -, hcount⟩ := mapM_eq_error_iff.mp h
  exact (isMalformed_or_infinite_of_intOf hcount).imp_right And.left

/-- A completed turn fails for its usage or for a count of it. -/
theorem ofMembers_turnCompleted_eq_error_iff :
    ofMembers t (.str "turn.completed") = .error f
      ↔ tableMember t "usage" = .error f
        ∨ ∃ usage, tableMember t "usage" = .ok usage
          ∧ countNames.mapM (tokenCount usage) = .error f := by
  rw [ofMembers]
  cases tableMember t "usage" with
  | error f' => simp [bind, Except.bind]
  | ok usage =>
    -- The three counts are read one after another, as the members of a list would be.
    have hcounts : ∀ g : Int → Int → Int → Event,
        ((do
          let input ← tokenCount usage "input_tokens"
          let cached ← tokenCount usage "cached_input_tokens"
          let output ← tokenCount usage "output_tokens"
          return g input cached output) : Except Fault Event) = .error f
          ↔ countNames.mapM (tokenCount usage) = .error f := by
      intro g
      simp only [countNames, List.mapM_cons, List.mapM_nil]
      cases tokenCount usage "input_tokens" <;> cases tokenCount usage "cached_input_tokens" <;>
        cases tokenCount usage "output_tokens" <;> simp [bind, Except.bind, pure, Except.pure]
    exact (hcounts fun i c o => .turnCompleted ⟨i, c, o⟩).trans (by simp)

/-- A member that is not what is taken for a missing one is there. -/
theorem get?_of_getD {name : String} {fallback v : Value} (h : t.getD name fallback = v)
    (hne : v ≠ fallback) : t.get? name = some v := by
  rw [Table.getD] at h
  cases hget : t.get? name with
  | none =>
    rw [hget] at h
    exact absurd h.symm hne
  | some w =>
    rw [hget] at h
    exact congrArg some h

/-- An infinite count is in a usage that is a table. -/
theorem get?_usage_of_hasInfiniteCount {usage : Table} (hread : tableMember t "usage" = .ok usage)
    (hcount : HasInfiniteCount usage) : t.get? "usage" = some (.table usage) := by
  rw [tableMember.eq_def] at hread
  dsimp only at hread
  split at hread
  · next htruthy =>
    split at hread
    · next entries hentries =>
      obtain rfl := Except.ok.inj hread
      exact get?_of_getD hentries nofun
    · exact absurd hread nofun
  · obtain rfl := Except.ok.inj hread
    obtain ⟨_, _, _, -, -, negative, hget⟩ := hcount
    exact absurd hget nofun

/-- **Making an event of a wire object fails otherwise for an infinite count alone.** -/
theorem isMalformed_or_infiniteCount_of_ofTable (h : ofTable t = .error f) :
    isMalformed f = true
      ∨ f = .wholeOfInfinity ∧ t.get? "type" = some (.str "turn.completed")
        ∧ ∃ usage, t.get? "usage" = some (.table usage) ∧ HasInfiniteCount usage := by
  have hmalformed : ∀ {x : Except Fault Event}, OnlyMalformed x → x = .error f →
      isMalformed f = true := fun hx h => hx f h
  unfold ofTable ofMembers at h
  split at h
  · exact .inl (hmalformed ((onlyMalformed_require t "thread_id").bind fun id =>
      (onlyMalformed_textOf id).bind fun _ => .ok _) h)
  · exact absurd h nofun
  · next htype =>
    -- Either the usage is no table, which is caught, or one of its counts fails.
    rcases ofMembers_turnCompleted_eq_error_iff.mp h with h | ⟨usage, husage, hcounts⟩
    · exact .inl (onlyMalformed_tableMember t "usage" f h)
    · rcases isMalformed_or_of_counts hcounts with h | rfl
      · exact .inl h
      · have hinfinite := hasInfiniteCount_iff.mp hcounts
        exact .inr ⟨rfl, get?_of_getD htype nofun, usage,
          get?_usage_of_hasInfiniteCount husage hinfinite, hinfinite⟩
  · exact .inl (hmalformed ((onlyMalformed_tableMember t "error").bind fun _ =>
      (onlyMalformed_textOf _).bind fun _ => .ok _) h)
  · exact .inl (onlyMalformed_itemEvent t .started f h)
  · exact .inl (onlyMalformed_itemEvent t .updated f h)
  · exact .inl (onlyMalformed_itemEvent t .completed f h)
  · exact .inl (hmalformed ((onlyMalformed_textOf _).bind fun _ => .ok _) h)
  · split at h
    · exact .inl (Except.error.inj h ▸ rfl)
    · exact .inl (hmalformed ((onlyMalformed_shownText _).bind fun _ => .error rfl) h)

/-- A line with such a count lets the fault through. -/
theorem ofTable_of_hasInfiniteCount {usage : Table}
    (htype : t.get? "type" = some (.str "turn.completed"))
    (husage : t.get? "usage" = some (.table usage)) (hcount : HasInfiniteCount usage) :
    ofTable t = .error .wholeOfInfinity := by
  have htable : tableMember t "usage" = .ok usage := by
    rw [tableMember.eq_def, Table.getD.eq_def, husage]
    obtain ⟨_, _, _, -, -, negative, hget⟩ := hcount
    cases usage with
    | nil => exact absurd hget nofun
    | cons e entries => rfl
  rw [ofTable.eq_def, Table.getD.eq_def, htype]
  exact ofMembers_turnCompleted_eq_error_iff.mpr
    (.inr ⟨usage, htable, hasInfiniteCount_iff.mpr hcount⟩)

/-- **The faults that a line lets through**, with their kinds: nesting that is too deep, a whole
number of too many digits, and a completed turn with an infinite count of tokens. -/
inductive LetsThrough (line : String) : FaultKind → Fault → Prop
  | tooDeep (nest : Json.Nest) (hread : Json.read .wire line = .error (.tooDeep nest))
    (hnests : Json.NestsBeyond Json.Dialect.wire.maxDepth (.outside 0) line.toList) :
    LetsThrough line .recursion (.json (.tooDeep nest))
  | tooManyDigits (count : Nat) (hread : Json.read .wire line = .error (.tooManyDigits count))
    (hmany : maxDigits < count) (hrun : Json.HasDigitRun count (.outside 0) line.toList) :
    LetsThrough line .value (.json (.tooManyDigits count))
  | infiniteCount (t usage : Table) (hread : Json.read .wire line = .ok (.table t))
    (htype : t.get? "type" = some (.str "turn.completed"))
    (husage : t.get? "usage" = some (.table usage)) (hcount : HasInfiniteCount usage) :
    LetsThrough line .overflow .wholeOfInfinity

theorem LetsThrough.kind_eq {line : String} {kind : FaultKind} (h : LetsThrough line kind f) :
    f.kind = kind := by
  cases h <;> rfl

theorem LetsThrough.parse_eq {line : String} {kind : FaultKind} (h : LetsThrough line kind f) :
    parse line = .error (.fault f) := by
  cases h with
  | tooDeep nest hread | tooManyDigits count hread => rw [parse, hread]
  | infiniteCount t usage hread htype husage hcount =>
    rw [parse, hread]
    dsimp only
    rw [ofTable_of_hasInfiniteCount htype husage hcount]
    rfl

/-- **Nothing else is let through.** -/
theorem letsThrough_of_parse {line : String} (h : parse line = .error (.fault f)) :
    LetsThrough line f.kind f := by
  rw [parse.eq_def] at h
  -- The reader has failed, or the value it gave is a table or is none.
  split at h
  · exact absurd h nofun
  · next f' hne hread =>
    obtain rfl := Failure.fault.inj (Except.error.inj h)
    have hmet := Json.isMet_of_read hread
    cases f' with
    | malformed what place => exact (hne what place rfl).elim
    | tooDeep nest => exact .tooDeep nest hread hmet
    | tooManyDigits count => exact .tooManyDigits count hread hmet.1 hmet.2
  · next t hread =>
    split at h
    · exact absurd h nofun
    · next f' hmake =>
      split at h
      · exact absurd h nofun
      · next hmalformed =>
        obtain rfl := Failure.fault.inj (Except.error.inj h)
        obtain ⟨rfl, htype, usage, husage, hcount⟩ :=
          (isMalformed_or_infiniteCount_of_ofTable hmake).resolve_left hmalformed
        exact .infiniteCount t usage hread htype husage hcount
  · exact absurd h nofun

/-- **What reading a line ends in**: an event, a failure that names the line, or one of the three
faults that it lets through; and it does end in such a fault wherever there is one. -/
theorem parse_outcome (line : String) :
    ((∃ e, parse line = .ok e)
      ∨ (∃ cause, parse line = .error (.client (.protocol cause (some line))))
      ∨ ∃ f, parse line = .error (.fault f))
    ∧ ∀ kind f, parse line = .error (.fault f) ∧ f.kind = kind ↔ LetsThrough line kind f := by
  refine ⟨?_, fun kind f => ⟨?_, fun h => ⟨h.parse_eq, h.kind_eq⟩⟩⟩
  · rw [parse]
    split
    · exact .inr (.inl ⟨_, rfl⟩)
    · exact .inr (.inr ⟨_, rfl⟩)
    · split
      · exact .inl ⟨_, rfl⟩
      · split
        · exact .inr (.inl ⟨_, rfl⟩)
        · exact .inr (.inr ⟨_, rfl⟩)
    · exact .inr (.inl ⟨_, rfl⟩)
  · rintro ⟨hparse, rfl⟩
    exact letsThrough_of_parse hparse

/-- One bracket too many is let through, whatever stands behind it. -/
theorem parse_replicate_bracket (cs : List Char) :
    parse (.ofList (List.replicate (Json.Dialect.wire.maxDepth + 1) '[' ++ cs))
      = .error (.fault (.json (.tooDeep .array))) := by
  rw [parse, Json.read_replicate_bracket]

/-- So is a number of too many digits. -/
theorem parse_digits {ds : List Char} (hds : AreDigits ds) (hhead : ds.head? ≠ some '0')
    (hmany : maxDigits < ds.length) :
    parse (.ofList ds) = .error (.fault (.json (.tooManyDigits ds.length))) := by
  rw [parse, Json.read_digits .wire hds hhead hmany]

example : parse "\x7b\"type\":\"turn.completed\",\"usage\":\x7b\"output_tokens\":-Infinity\x7d\x7d"
    = .error (.fault .wholeOfInfinity) := by
  decide +kernel

end Event

end AgentClient
