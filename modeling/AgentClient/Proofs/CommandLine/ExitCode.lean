import AgentClient.Proofs.CommandLine.StreamOutput

/-!
# Proofs/CommandLine/ExitCode — the exit code of one turn in the three formats

A turn that is run to its end fails with the first event that reports a failure; one whose events
are shown goes on behind it.  So the exit code with a text and with a document is 1 where an event
has reported a failure, and otherwise that of the end of the stream, while the code with the events
shown is that of the end of the stream, whatever the events have reported (`code_eq_code`).

What is left is the showing itself.  A result is made of what was read from lines
(`Turn.HoldsDocuments`), so it can be written; but a document shows it only if the machine copies
its items, and a text only if its final response has bytes (`Turn.showFault?`).  Where everything
can be shown, the code with a document is that with a text. -/

namespace AgentClient

/-! ## Results that can be shown

A result is made of members of the lines that were read. That they are values of documents is kept
by every event, and it is what makes writing them possible: keys are texts, and no number is too
long. -/

namespace Event

/-- Whether an event reports that the turn has failed. -/
def reportsFailure : Event → Bool
  | .turnFailed _ | .error _ => true
  | _ => false

/-- An event that reports no failure makes no turn fail. -/
theorem failure?_eq_none {e : Event} (h : e.reportsFailure = false) (id : Option WireText) :
    e.failure? id = none := by
  cases e with
  | turnFailed text | error text => exact absurd h.symm Bool.false_ne_true
  | _ => rfl

end Event

namespace Turn

/-- A result whose parts are values of documents. -/
structure HoldsDocuments (depth : Nat) (t : Turn) : Prop where
  items : ∀ i ∈ t.items, i.toValue.IsDocument depth
  finalResponse : t.finalResponse.IsDocument depth
  usage : ∀ u ∈ t.usage, u.toValue.IsDocument depth
  parsed : t.parsed = none

theorem holdsDocuments_empty (depth : Nat) : ({} : Turn).HoldsDocuments depth :=
  ⟨nofun, .str "", nofun, rfl⟩

/-- The text of a message is a value of a document if the message is. -/
theorem isDocument_messageOf? {depth : Nat} {i : Item} {v : Value} (h : messageOf? i = some v)
    (hi : i.toValue.IsDocument (depth + 1)) : v.IsDocument depth := by
  cases i with
  | agentMessage id text =>
    obtain rfl := Option.some.inj h
    exact hi.of_named ("text", text) (List.mem_cons_of_mem _ List.mem_cons_self)
  | _ => exact absurd h nofun

/-- An event that is a document keeps the result one. -/
theorem HoldsDocuments.add {depth : Nat} {t t' : Turn} (ht : t.HoldsDocuments (depth + 1))
    {e : Event}
    (he : e.toValue.IsDocument (depth + 2)) {id : Option WireText} (h : t.add id e = .ok t') :
    t'.HoldsDocuments (depth + 1) := by
  -- Only usage and finished items enter a turn. Both stand inside of the event, the item one level
  -- down and its text another one.
  cases e with
  | turnFailed text | error text => exact absurd h nofun
  | threadStarted id | turnStarted => exact Except.ok.inj h ▸ ht
  | turnCompleted usage =>
    obtain rfl := Except.ok.inj h
    refine { ht with usage := fun u hu => ?_ }
    obtain rfl := Option.some.inj hu
    exact he.of_named ("usage", usage.toValue) List.mem_cons_self
  | item stage i =>
    have hi : i.toValue.IsDocument (depth + 1) := he.of_named ("item", i.toValue) List.mem_cons_self
    cases stage with
    | started | updated => exact Except.ok.inj h ▸ ht
    | completed =>
      obtain rfl := Except.ok.inj h
      refine { ht with items := ?_, finalResponse := ?_ }
      · exact fun j hj => (List.mem_append.mp hj).elim (ht.items j)
          fun hj => List.mem_singleton.mp hj ▸ hi
      · dsimp only
        cases hm : messageOf? i with
        | none => exact ht.finalResponse
        | some v => exact (isDocument_messageOf? hm hi).mono (Nat.le_succ depth)

end Turn

/-- The id of a thread can be read, if it has one. -/
def Thread.HasReadableId (t : Thread) : Prop :=
  ∀ id ∈ t.id, id.IsJoined

/-! ## How a turn ends

Two receivers go over the same lines, one that collects the events and one that adds them up. The
first takes every event, the second stops at one that reports a failure. Either way the induction is
on the lines, and an event that is taken leaves the thread an id that can be read. -/

namespace Scene

variable {σ : Type}

/-- **A receiver that takes every event** leaves the turn to its own end. -/
theorem failure_deliver {receive : σ → Thread → Event → Except Failure σ}
    (h : ∀ {line e}, Event.parse line = .ok e → ∀ state thread, ∃ next,
      receive state thread e = .ok next)
    (t : LiveTurn) (lines : List String) (s : Scene) (state : σ) :
    (deliver receive t lines s state).1 = t.failureBehind lines := by
  -- The receiver takes every event of a line, so nothing but the lines and what comes behind them
  -- decides the end.
  induction lines generalizing s state with
  | nil =>
    rw [deliver, LiveTurn.failureBehind, finish]
    cases t.feed.failure <;> rfl
  | cons line rest ih =>
    rw [deliver, LiveTurn.failureBehind, takeLine]
    cases hp : Event.parse line with
    | error f => rfl
    | ok e =>
      obtain ⟨next, hnext⟩ := h hp state (s.notice e).thread
      dsimp only
      rw [hnext]
      exact ih (s.notice e) next

/-- The events of a turn are those of its first lines, up to the first line that is none. -/
theorem events_deliver_collectEvents (t : LiveTurn) (lines : List String) (s : Scene)
    (events : List Event) :
    (deliver Session.collectEvents t lines s events).2.1 = events ++ Event.ofFirstLines lines := by
  -- Along the lines, with the events so far in front.
  induction lines generalizing s events with
  | nil =>
    rw [deliver, finish]
    cases t.feed.failure <;> exact (List.append_nil events).symm
  | cons line rest ih =>
    rw [deliver, takeLine]
    cases hp : Event.parse line with
    | error f =>
      rw [Event.ofFirstLines_of_error hp]
      exact (List.append_nil events).symm
    | ok e =>
      rw [Event.ofFirstLines_cons hp, List.append_cons]
      exact ih (s.notice e) (events ++ [e])

/-- An id that an event announces has come out of a line, so it can be read as it stands. -/
theorem hasReadableId_notice {s : Scene} {line : String} {e : Event} (hp : Event.parse line = .ok e)
    (h : s.thread.HasReadableId) : (s.notice e).thread.HasReadableId := by
  cases e with
  | threadStarted id =>
    have hdoc : (Event.threadStarted id).toValue.IsDocument (999 + 1) :=
      Event.isDocument_of_parse hp
    have hid := hdoc.of_named ("thread_id", id.toValue) List.mem_cons_self
    exact fun _ hsome => Option.some.inj hsome ▸ hid.isJoined
  | turnStarted | turnCompleted | turnFailed | item | error => exact h

/-- The id of a thread goes on being one that can be read. -/
theorem hasReadableId_deliver (receive : σ → Thread → Event → Except Failure σ) (t : LiveTurn)
    (lines : List String) {s : Scene} (h : s.thread.HasReadableId) (state : σ) :
    (deliver receive t lines s state).2.2.thread.HasReadableId := by
  -- Along the lines: the id stays, or is announced by a line.
  induction lines generalizing s state with
  | nil =>
    rw [deliver, finish]
    cases t.feed.failure <;> exact h
  | cons line rest ih =>
    rw [deliver, takeLine]
    cases hp : Event.parse line with
    | error f => exact h
    | ok e =>
      have hnext := hasReadableId_notice hp h
      dsimp only
      cases receive state (s.notice e).thread e with
      | error f => exact hnext
      | ok state => exact ih hnext state

/-- The result of a turn goes on being one that can be shown. -/
theorem holdsDocuments_deliver_addTo (t : LiveTurn) (lines : List String) (s : Scene) {turn : Turn}
    (h : turn.HoldsDocuments Json.Dialect.wire.maxDepth) :
    (deliver addTo t lines s turn).2.1.HoldsDocuments Json.Dialect.wire.maxDepth := by
  induction lines generalizing s turn with
  | nil =>
    rw [deliver, finish]
    cases t.feed.failure <;> exact h
  | cons line rest ih =>
    rw [deliver, takeLine]
    cases hp : Event.parse line with
    | error f => exact h
    | ok e =>
      -- What a line may hold is one level less for an event of the first three types; the larger of
      -- the two depths serves for all.
      have hdoc : e.toValue.IsDocument (999 + 2) := by
        refine (Event.isDocument_of_parse hp).mono ?_
        split <;> decide
      dsimp only
      cases hadd : addTo turn (s.notice e).thread e with
      | error f => exact h
      | ok turn' => exact ih (s.notice e) (h.add hdoc hadd)

/-- **A turn that is gone through** adds up to a result that can be shown, under an id that can be.
-/
theorem holdsDocuments_drain_addTo {s : Scene} (h : s.thread.HasReadableId) (input : Input)
    (options : TurnOptions) :
    (s.drain addTo {} (.unstarted input options)).2.1.HoldsDocuments Json.Dialect.wire.maxDepth ∧
      (s.drain addTo {} (.unstarted input options)).2.2.thread.HasReadableId := by
  -- Starting a turn announces nothing, so the id is the one that the thread has had.
  have hstarted : (s.start input options).2.thread.HasReadableId := by
    obtain ⟨new, hstart⟩ := s.exists_advances_start input options
    have hid : (s.start input options).2.thread.id = s.thread.id := hstart.id_eq
    rwa [Thread.HasReadableId, hid]
  rw [drain]
  generalize s.start input options = started at hstarted ⊢
  obtain ⟨f | t, s'⟩ := started
  · exact ⟨Turn.holdsDocuments_empty _, hstarted⟩
  · exact ⟨holdsDocuments_deliver_addTo t _ s' (Turn.holdsDocuments_empty _),
      hasReadableId_deliver addTo t _ hstarted {}⟩

end Scene

namespace CommandLine

/-- The exit code of a turn that has failed so, or not at all. -/
def codeOf (failure : Option Failure) : Nat :=
  failure.elim 0 exitCodeOf

/-- A failure that an event reports has exit code 1. -/
theorem exists_failure_of_reportsFailure {e : Event} (h : e.reportsFailure = true)
    (id : Option WireText) : ∃ f, e.failure? id = some f ∧ exitCodeOf f = 1 := by
  cases e with
  | turnFailed text | error text => exact ⟨_, rfl, rfl⟩
  | _ => exact absurd h Bool.false_ne_true

/-- **A run ends with the first failure that is reported.** -/
theorem exists_failure_deliver_addTo (t : LiveTurn) (lines : List String) (s : Scene) (turn : Turn)
    (h : (Event.ofFirstLines lines).any Event.reportsFailure = true) :
    ∃ f, (Scene.deliver Scene.addTo t lines s turn).1 = some f ∧ exitCodeOf f = 1 := by
  -- The first of the events that report a failure is the end of the turn, and those before it only
  -- add to the turn.
  induction lines generalizing s turn with
  | nil => exact absurd h Bool.false_ne_true
  | cons line rest ih =>
    cases hp : Event.parse line with
    | error f =>
      rw [Event.ofFirstLines_of_error hp] at h
      exact absurd h Bool.false_ne_true
    | ok e =>
      rw [Event.ofFirstLines_cons hp, List.any_cons] at h
      rw [Scene.deliver, Scene.takeLine, hp]
      dsimp only [Scene.addTo]
      cases he : e.reportsFailure with
      | true =>
        obtain ⟨f, hf, hcode⟩ := exists_failure_of_reportsFailure he (s.notice e).thread.id
        rw [Turn.add_eq_error hf]
        exact ⟨f, rfl, hcode⟩
      | false =>
        rw [he, Bool.false_or] at h
        rw [Turn.add_eq (Event.failure?_eq_none he _)]
        exact ih (s.notice e) (turn.addAll [e]) h

/-- **A run without such a failure** ends like its stream, and has added up the events. -/
theorem deliver_addTo_of_not_reports (t : LiveTurn) (lines : List String) (s : Scene) (turn : Turn)
    (h : (Event.ofFirstLines lines).any Event.reportsFailure = false) :
    (Scene.deliver Scene.addTo t lines s turn).1 = t.failureBehind lines ∧
      (Scene.deliver Scene.addTo t lines s turn).2.1 = turn.addAll (Event.ofFirstLines lines) := by
  have hnone : turn.addAll [] = turn := by simp [Turn.addAll]
  -- Without such an event the turn takes all the events, so its end is that of the lines.
  induction lines generalizing s turn with
  | nil =>
    rw [Scene.deliver, Scene.finish, LiveTurn.failureBehind]
    cases t.feed.failure <;> exact ⟨rfl, hnone.symm⟩
  | cons line rest ih =>
    rw [Scene.deliver, Scene.takeLine, LiveTurn.failureBehind]
    cases hp : Event.parse line with
    | error f =>
      rw [Event.ofFirstLines_of_error hp, hnone]
      exact ⟨rfl, rfl⟩
    | ok e =>
      rw [Event.ofFirstLines_cons hp, List.any_cons, Bool.or_eq_false_iff] at h
      rw [Event.ofFirstLines_cons hp, Turn.addAll_cons]
      dsimp only [Scene.addTo]
      rw [Turn.add_eq (Event.failure?_eq_none h.1 _)]
      exact ih (s.notice e) (turn.addAll [e]) h.2 (by simp [Turn.addAll])

/-! ## The schema of a command line

A schema that is read from a file is a document, and no document is a record model. So the result of
a turn from the command line never has a record with it. -/

variable {w : World} {a : RunArguments}

/-- A schema from the command line is no record model. -/
theorem model_eq_none {v : Value} {client : Client} (h : prepare w a = .ok (v, client))
    (schema : OutputSchema) (hresolve : OutputSchema.resolve v = .ok schema) :
    schema.model = none := by
  have hread : schemaOf w a = .ok v := by
    obtain ⟨v', hv', h⟩ := Json.exists_of_bind_eq_ok h
    obtain ⟨options, -, h⟩ := Json.exists_of_bind_eq_ok h
    obtain ⟨c, -, h⟩ := Json.exists_of_bind_eq_ok h
    rw [hv', (Prod.mk.inj (Except.ok.inj h)).1]
  -- The schema of a command line comes out of a file, if there is one: it is what a document holds,
  -- and that is no model.
  have hv : v = .null ∨ v.IsDocument Json.Dialect.wire.maxDepth := by
    rw [schemaOf] at hread
    split at hread
    · split at hread
      · exact .inl (Except.ok.inj hread).symm
      · split at hread
        · exact absurd hread nofun
        · next text _ =>
          cases hdocument : Json.read .wire text with
          | error f =>
            rw [hdocument] at hread
            exact absurd hread nofun
          | ok v' =>
            rw [hdocument] at hread
            exact .inr (Except.ok.inj hread ▸ Json.isDocument_read hdocument)
    · exact .inl (Except.ok.inj hread).symm
  rcases hv with rfl | hv
  · rw [← Except.ok.inj hresolve]
  · cases v with
    | model m => exact hv.parts.elim
    | null | table entries => rw [← Except.ok.inj hresolve]
    | _ => exact absurd hresolve nofun

/-- An id from the command line is a string. -/
theorem hasReadableId_threadOf (a : RunArguments) : (threadOf a).HasReadableId := by
  intro id hid
  change id ∈ resumedId a.resume at hid
  revert hid
  rw [resumedId.eq_def]
  split
  · split
    · exact nofun
    · exact fun hid => Option.some.inj hid ▸ WireText.isJoined_plain _
  · exact nofun

/-! ## Showing a result

What may keep a result from being shown is read off the result (`showFault?`), and showing it fails
just for that. With a document it is an item that is not copied, with a text the final response.
-/

/-- What is told of a result: the final response, the items, the count of tokens and the id of the
thread. -/
def summary (t : Turn) (threadId : Option WireText) : Value :=
  .named [("final_response", t.finalResponse), ("items", .list (t.items.map Item.toValue)),
    ("usage", (t.usage.map Usage.toValue).getD .null),
    ("thread_id", (threadId.map WireText.toValue).getD .null)]

/-- The summary of such a turn is a document, two levels deeper than the values in it. -/
theorem isDocument_summary {depth : Nat} {t : Turn} (h : t.HoldsDocuments depth)
    {threadId : Option WireText} (hid : ∀ id ∈ threadId, id.IsJoined) :
    (summary t threadId).IsDocument (depth + 2) := by
  refine .named (by simp) (List.forall_mem_cons.mpr ⟨h.finalResponse.mono (Nat.le_succ depth),
    List.forall_mem_cons.mpr ⟨.list (List.forall_mem_map.mpr h.items),
      List.forall_mem_cons.mpr ⟨?_, List.forall_mem_singleton.mpr ?_⟩⟩⟩)
  · cases hu : t.usage with
    | none => exact .null
    | some u => exact (h.usage u hu).mono (Nat.le_succ depth)
  · cases threadId with
    | none => exact .null
    | some id => exact .text (hid id rfl)

/-- What keeps a final response from being shown as a text, if something does: it has no bytes. -/
def textFault? : Value → Option Fault
  | .broken points => some (encodingFault points)
  | _ => none

/-- **What keeps a result from being shown**, if something does: with a document an item that the
machine does not copy, with a text a final response that has no bytes. -/
def showFault? (limits : CopyLimits) : OutputFormat → Turn → Option Fault
  | .json, t => t.items.findSome? (copyFault? limits.item ·.toValue)
  | _, t => textFault? t.finalResponse

/-- Nothing keeps items from being shown in a document that are not nested too deep. -/
theorem showFault?_json_eq_none {limits : CopyLimits} {t : Turn}
    (h : ∀ i ∈ t.items, i.toValue.nesting ≤ limits.item.depth) :
    showFault? limits .json t = none :=
  List.findSome?_eq_none_iff.mpr fun i hi => copyFault?_of_le (h i hi)

/-- Items are copied if each of them is. -/
theorem mapM_copied (limit : CopyLimit) (items : List Item) :
    items.mapM (fun i => copied limit i.toValue)
      = match items.findSome? (copyFault? limit ·.toValue) with
        | none => .ok (items.map Item.toValue)
        | some f => .error (.fault f) := by
  -- The items are copied one after another, so the first that is not copied is what is met.
  induction items with
  | nil => rfl
  | cons i items ih =>
    rw [List.mapM_cons, List.findSome?_cons, ih, copied]
    cases copyFault? limit i.toValue with
    | some f => rfl
    | none => cases items.findSome? (copyFault? limit ·.toValue) <;> rfl

/-- A result without a record is told as its summary, if its items are copied. -/
theorem turnDocument_eq {t : Turn} (h : t.parsed = none) (limit : CopyLimit)
    (threadId : Option WireText) :
    turnDocument limit t threadId
      = match t.items.findSome? (copyFault? limit ·.toValue) with
        | none => .ok (summary t threadId)
        | some f => .error (.fault f) := by
  obtain ⟨items, finalResponse, usage, parsed⟩ := t
  obtain rfl : parsed = none := h
  rw [turnDocument.eq_def, mapM_copied]
  dsimp only
  cases items.findSome? (copyFault? limit ·.toValue) with
  | none => cases usage <;> cases threadId <;> rfl
  | some f => rfl

/-- A value is shown as a text, if that has bytes. -/
theorem textLine_asText (v : Value) :
    textLine v.asText = match textFault? v with
      | some f => .error (.fault f)
      | none => .ok (v.asText.toString ++ "\n") := by
  cases v <;> rfl

section

variable {limits : CopyLimits} {format : OutputFormat} {depth : Nat} {t : Turn}
    {threadId : Option WireText}

/-- Any other format than a document shows the final response and the id. -/
theorem showTurn_of_ne_json (h : format ≠ .json) : showTurn limits format t threadId = do
    return { stdout := ← textLine t.finalResponse.asText, stderr := threadLine threadId } := by
  cases format with
  | json => exact absurd rfl h
  | text | stream => rfl

/-- Any other format than a document fails only at the final response. -/
theorem showFault?_of_ne_json (h : format ≠ .json) :
    showFault? limits format t = textFault? t.finalResponse := by
  cases format with
  | json => exact absurd rfl h
  | text | stream => rfl

/-- **What keeps a result from being shown** is what showing it fails with. -/
theorem showTurn_of_showFault {f : Fault} (h : t.HoldsDocuments depth)
    (hf : showFault? limits format t = some f) :
    showTurn limits format t threadId = .error (.fault f) := by
  -- With a document it is the items that may be too deep; with a text it is the text that may have
  -- no bytes.
  by_cases hformat : format = .json
  · subst hformat
    rw [showFault?] at hf
    rw [showTurn, turnDocument_eq h.parsed, hf]
    rfl
  · rw [showFault?_of_ne_json hformat] at hf
    rw [showTurn_of_ne_json hformat, textLine_asText, hf]
    rfl

/-- **A result that nothing keeps from being shown is shown.** -/
theorem exists_showTurn (h : t.HoldsDocuments depth) (hid : ∀ id ∈ threadId, id.IsJoined)
    (hnone : showFault? limits format t = none) :
    ∃ shown, showTurn limits format t threadId = .ok shown := by
  by_cases hformat : format = .json
  · subst hformat
    -- Copying is all that can fail: a summary that is copied is written, for it is a document.
    obtain ⟨text, htext⟩ := Json.exists_writeAt (s := .indented 2) (isDocument_summary h hid) 0
    rw [showFault?] at hnone
    rw [showTurn, turnDocument_eq h.parsed, hnone]
    dsimp only [bind, Except.bind]
    rw [documentLine, Json.write, htext]
    exact ⟨_, rfl⟩
  · rw [showFault?_of_ne_json hformat] at hnone
    rw [showTurn_of_ne_json hformat, textLine_asText, hnone]
    exact ⟨_, rfl⟩

end

/-! ## The three formats

The code of a format is a function of the events of the turn and of how its stream ends
(`streamCode`, `wholeCode`). These do not depend on the format, which makes the formats comparable.
-/

section

variable {s s' : Scene} {input : Input} {options : TurnOptions}

/-- What a run has added up can be written, if its schema is no record model. -/
theorem holdsDocuments_run (hid : s.thread.HasReadableId)
    (hmodel : ∀ schema, OutputSchema.resolve options.outputSchema = .ok schema →
      schema.model = none) {t : Turn} (h : s.run input options = (.ok t, s')) :
    t.HoldsDocuments Json.Dialect.wire.maxDepth ∧ s'.thread.HasReadableId := by
  have hholds := Scene.holdsDocuments_drain_addTo hid input options
  cases hschema : OutputSchema.resolve options.outputSchema with
  | error f =>
    rw [Scene.run, hschema] at h
    cases h
  | ok schema =>
    -- Without a model there is nothing to check behind the end, so the turn is the one that the
    -- events have made.
    rw [Scene.run_of_resolve hschema, hmodel schema hschema] at h
    generalize s.drain Scene.addTo {} (.unstarted input options) = drained at h hholds
    obtain ⟨_ | f, turn, s''⟩ := drained
    · obtain ⟨hturn, rfl⟩ := Prod.mk.inj h
      exact Except.ok.inj hturn ▸ hholds
    · cases h

/-- A turn with a result shows it, if nothing keeps it from being shown. -/
theorem exists_wholeTurn_of_run (hid : s.thread.HasReadableId)
    (hmodel : ∀ schema, OutputSchema.resolve options.outputSchema = .ok schema →
      schema.model = none) {t : Turn} (h : s.run input options = (.ok t, s')) {limits : CopyLimits}
    {format : OutputFormat} (hnone : showFault? limits format t = none) :
    ∃ shown, showTurn limits format t s'.thread.id = .ok shown ∧
      wholeTurn limits format s input options = (none, shown, s') := by
  obtain ⟨hholds, hid'⟩ := holdsDocuments_run hid hmodel h
  obtain ⟨shown, hshown⟩ := exists_showTurn hholds hid' hnone
  refine ⟨shown, hshown, ?_⟩
  rw [wholeTurn, h]
  dsimp only
  rw [hshown]

/-- One that cannot show it fails for that. -/
theorem wholeTurn_of_showFault (hid : s.thread.HasReadableId)
    (hmodel : ∀ schema, OutputSchema.resolve options.outputSchema = .ok schema →
      schema.model = none) {t : Turn} (h : s.run input options = (.ok t, s')) {limits : CopyLimits}
    {format : OutputFormat} {f : Fault} (hf : showFault? limits format t = some f) :
    wholeTurn limits format s input options = (some (.fault f), {}, s') := by
  rw [wholeTurn, h]
  dsimp only
  rw [showTurn_of_showFault (holdsDocuments_run hid hmodel h).1 hf]

/-- A turn without a result shows nothing. -/
theorem wholeTurn_of_run_error {f : Failure} (h : s.run input options = (.error f, s'))
    (limits : CopyLimits) (format : OutputFormat) :
    wholeTurn limits format s input options = (some f, {}, s') := by
  rw [wholeTurn, h]

/-- **A turn that is shown as a whole** fails like its run, and otherwise with what keeps its result
from being shown. -/
theorem failure_wholeTurn (hidle : s.thread.running = false) (hid : s.thread.HasReadableId)
    (hmodel : ∀ schema, OutputSchema.resolve options.outputSchema = .ok schema →
      schema.model = none) (limits : CopyLimits) (format : OutputFormat) :
    (wholeTurn limits format s input options).1
      = (s.drain Scene.addTo {} (.unstarted input options)).1.or
          ((showFault? limits format (s.drain Scene.addTo {} (.unstarted input options)).2.1).map
            .fault) := by
  -- A schema that is refused is refused alike by the start of the stream, so both sides have its
  -- failure. Else the run ends as the stream does, and only a turn that has succeeded is shown.
  cases hschema : OutputSchema.resolve options.outputSchema with
  | error f =>
    have hstart : s.start input options = (.error f, s) := by
      rw [Scene.start, hidle, if_neg Bool.false_ne_true, hschema]
    have hrun : s.run input options = (.error f, s) := by rw [Scene.run, hschema]
    rw [wholeTurn_of_run_error hrun, Scene.drain, hstart]
    rfl
  | ok schema =>
    have hrun : s.run input options = _ := Scene.run_of_resolve hschema
    rw [hmodel schema hschema] at hrun
    generalize s.drain Scene.addTo {} (.unstarted input options) = drained at hrun ⊢
    obtain ⟨_ | f, turn, s''⟩ := drained
    · dsimp only
      cases hf : showFault? limits format turn with
      | none =>
        obtain ⟨shown, -, hwhole⟩ := exists_wholeTurn_of_run hid hmodel hrun hf
        rw [hwhole]
        rfl
      | some f =>
        rw [wholeTurn_of_showFault hid hmodel hrun hf]
        rfl
    · rw [wholeTurn_of_run_error hrun]
      rfl

/-- Only with the events shown is a turn no whole. -/
theorem shownTurn_of_ne_stream {limits : CopyLimits} {format : OutputFormat}
    (h : format ≠ .stream) :
    shownTurn limits format s input options = wholeTurn limits format s input options := by
  cases format with
  | stream => exact absurd rfl h
  | text | json => rfl

end

/-- **A turn on the command line**: how its stream ends when it is asked for all events, and the
events. -/
def streamed (w : World) (a : RunArguments) : Option Failure × List Event :=
  match prepare w a with
  | .error f => (some f, [])
  | .ok (schema, client) =>
    let (failure, events, _) :=
      (sceneOf client a).drain Session.collectEvents [] (streamOf w a schema)
    (failure, events)

section

variable {w : World} {words : List String} {a : RunArguments}

theorem streamed_of_prepare_error {f : Failure} (h : prepare w a = .error f) :
    streamed w a = (some f, []) := by
  rw [streamed, h]

/-- The stream of a turn that starts gives the events of its lines, up to the first that is none. -/
theorem streamed_of_prepare {schema : Value} {client : Client}
    (h : prepare w a = .ok (schema, client)) :
    streamed w a = match (sceneOf client a).start (inputOf w a) (turnOptionsOf a schema) with
      | (.error f, _) => (some f, [])
      | (.ok t, _) => (t.failureBehind t.feed.lines, Event.ofFirstLines t.feed.lines) := by
  rw [streamed, h]
  dsimp only [streamOf, Scene.drain]
  rcases (sceneOf client a).start (inputOf w a) (turnOptionsOf a schema) with ⟨f | t, s'⟩
  · rfl
  · refine Prod.ext ?_ (Scene.events_deliver_collectEvents t t.feed.lines s' [])
    exact Scene.failure_deliver (fun _ _ _ => ⟨_, rfl⟩) t t.feed.lines s' []

theorem code_of_prepare_error {f : Failure} (hwords : invocation words = .ok (.run a))
    (h : prepare w a = .error f) : (run w words).code = exitCodeOf f := by
  rw [run_of_prepare_error hwords h]
  rfl

/-- The exit code of a turn that could be prepared. -/
theorem code_of_prepare {schema : Value} {client : Client}
    (hwords : invocation words = .ok (.run a)) (h : prepare w a = .ok (schema, client)) :
    (run w words).code
      = codeOf (shownTurn w.surroundings.copyLimits a.output (sceneOf client a) (inputOf w a)
        (turnOptionsOf a schema)).1 := by
  rw [run_of_prepare hwords h rfl]
  rfl

/-- The exit code of a stream that is shown: that of its end, unless the machine does not copy an
event before it. -/
def streamCode (limits : CopyLimits) (streamed : Option Failure × List Event) : Nat :=
  codeOf (((streamed.2.findSome? (Event.copyFault? limits)).map .fault).or streamed.1)

/-- The exit code of a turn whose result is shown: 1 if an event has reported a failure, and
otherwise that of the end of the stream, or of what keeps the result from being shown. -/
def wholeCode (limits : CopyLimits) (format : OutputFormat)
    (streamed : Option Failure × List Event) : Nat :=
  if streamed.2.any Event.reportsFailure then 1
  else codeOf (streamed.1.or ((showFault? limits format (Turn.addAll {} streamed.2)).map .fault))

/-- With the events shown, the code is that of the stream. -/
theorem code_stream (hwords : invocation words = .ok (.run a)) (hformat : a.output = .stream) :
    (run w words).code = streamCode w.surroundings.copyLimits (streamed w a) := by
  cases hprepare : prepare w a with
  | error f => rw [code_of_prepare_error hwords hprepare, streamed_of_prepare_error hprepare]; rfl
  | ok p =>
    obtain ⟨schema, client⟩ := p
    -- What is printed on the way does not matter here; the end is that of the lines and of the
    -- events that are copied.
    rw [code_of_prepare hwords hprepare, hformat, streamed_of_prepare hprepare]
    dsimp only [shownTurn, streamTurn, Scene.drain]
    rcases (sceneOf client a).start (inputOf w a) (turnOptionsOf a schema) with ⟨f | t, s'⟩
    · rfl
    · obtain ⟨-, -, -, hfailure⟩ :=
        exists_deliver_showEvent w.surroundings.copyLimits t t.feed.lines s' ""
      exact congrArg codeOf hfailure

/-- With the result shown, a failure that is reported comes before the end of the stream, and what
keeps the result from being shown behind it. -/
theorem code_whole (hwords : invocation words = .ok (.run a)) (hformat : a.output ≠ .stream) :
    (run w words).code = wholeCode w.surroundings.copyLimits a.output (streamed w a) := by
  cases hprepare : prepare w a with
  | error f => rw [code_of_prepare_error hwords hprepare, streamed_of_prepare_error hprepare]; rfl
  | ok p =>
    obtain ⟨schema, client⟩ := p
    rw [code_of_prepare hwords hprepare, shownTurn_of_ne_stream hformat,
      failure_wholeTurn rfl (hasReadableId_threadOf a) (model_eq_none hprepare),
      streamed_of_prepare hprepare]
    dsimp only [Scene.drain]
    rcases hstart : (sceneOf client a).start (inputOf w a) (turnOptionsOf a schema) with ⟨f | t, s'⟩
    · rfl
    · rw [wholeCode]
      dsimp only
      -- An event that reports a failure decides the code, whatever comes behind it. Without one all
      -- events are added, and it is left to the end of the lines and to the result.
      cases hreports : (Event.ofFirstLines t.feed.lines).any Event.reportsFailure with
      | true =>
        obtain ⟨f, hf, hcode⟩ := exists_failure_deliver_addTo t t.feed.lines s' {} hreports
        rw [hf]
        exact hcode
      | false =>
        obtain ⟨hfailure, hturn⟩ := deliver_addTo_of_not_reports t t.feed.lines s' {} hreports
        rw [hfailure, hturn]
        rfl

/-- Whether everything that comes of events can be shown: each of them as it comes, and their result
as a document and as a text. -/
structure CanBeShown (limits : CopyLimits) (events : List Event) : Prop where
  events_eq : events.findSome? (Event.copyFault? limits) = none
  document_eq : showFault? limits .json (Turn.addAll {} events) = none
  text_eq : showFault? limits .text (Turn.addAll {} events) = none

/-- **The exit code in the three formats.**  With the events shown it is that of the end of the
stream, unless an event cannot be shown.  With the result shown it is 1 if an event has reported a
failure, and otherwise that of the end of the stream or of what keeps the result from being shown.
So where everything can be shown, the code with a document is that with a text, and all three agree
exactly if the stream ends with a failure of code 1 whenever an event has reported one. -/
theorem code_eq_code {words : OutputFormat → List String}
    (hwords : ∀ format, invocation (words format) = .ok (.run { a with output := format })) :
    (run w (words .stream)).code = streamCode w.surroundings.copyLimits (streamed w a) ∧
      (∀ format, format ≠ .stream →
        (run w (words format)).code = wholeCode w.surroundings.copyLimits format (streamed w a)) ∧
      (CanBeShown w.surroundings.copyLimits (streamed w a).2 →
        (run w (words .json)).code = (run w (words .text)).code ∧
        (run w (words .text)).code
          = (if (streamed w a).2.any Event.reportsFailure then 1
            else (run w (words .stream)).code) ∧
        ((run w (words .stream)).code = (run w (words .text)).code ↔
          ((streamed w a).2.any Event.reportsFailure = true → codeOf (streamed w a).1 = 1))) := by
  have hstreamed : ∀ format, streamed w { a with output := format } = streamed w a := fun _ => rfl
  have hstream := code_stream (w := w) (hwords .stream) rfl
  have hwhole : ∀ format, format ≠ .stream →
      (run w (words format)).code = wholeCode w.surroundings.copyLimits format (streamed w a) :=
    fun format h => hstreamed format ▸ code_whole (w := w) (hwords format) h
  rw [hstreamed] at hstream
  refine ⟨hstream, hwhole, fun hshown => ?_⟩
  rw [hstream, hwhole .json nofun, hwhole .text nofun, streamCode, wholeCode, wholeCode,
    hshown.events_eq, hshown.document_eq, hshown.text_eq, Option.map_none, Option.none_or,
    Option.or_none]
  refine ⟨rfl, rfl, ?_⟩
  -- The two codes for a whole result put 1 in the place of the end where a failure was reported; so
  -- they differ from that of the stream just if its end has another code.
  cases (streamed w a).2.any Event.reportsFailure with
  | true => exact ⟨fun h _ => h, fun h => h rfl⟩
  | false => exact ⟨fun _ h => absurd h Bool.false_ne_true, fun _ => rfl⟩

end

/-! ### A child that reports a failure

The child reports the failure and exits with code 0, so its stream ends without one. -/

/-- A child that writes that the turn has failed, and exits with code 0. -/
def reportingChild : Script :=
  let line := "\x7b\"type\":\"turn.failed\",\"error\":\x7b\"message\":\"boom\"\x7d\x7d\n"
  { output := [.bytes line.toUTF8.data.toList] }

/-- A host with an executable, whose process will do so. -/
def hostOfReportingChild : World :=
  { hostOfBrokenChild with scripts := [reportingChild] }

/-- A command line that differs in the format only. -/
def formatWords : OutputFormat → List String
  | .text => ["run", "-o", "text", "hi"]
  | .json => ["run", "-o", "json", "hi"]
  | .stream => ["run", "-o", "stream", "hi"]

/-- With the events shown, the program exits with 0, and otherwise with 1. -/
theorem code_reportingChild :
    (run hostOfReportingChild (formatWords .stream)).code = 0 ∧
      (run hostOfReportingChild (formatWords .text)).code = 1 ∧
      (run hostOfReportingChild (formatWords .json)).code = 1 := by
  decide +kernel

/-- A child that reports a failure and goes on: with a text the exit code is 1. -/
theorem formats_reportingChild :
    (∀ format,
      invocation (formatWords format) = .ok (.run { streamArguments with output := format })) ∧
      (streamed hostOfReportingChild streamArguments).2.any Event.reportsFailure = true ∧
      (run hostOfReportingChild (formatWords .text)).code = 1 := by
  have hwords : ∀ format, invocation (formatWords format)
      = .ok (.run { streamArguments with output := format }) := by
    intro format
    cases format <;> decide +kernel
  have hevents : (streamed hostOfReportingChild streamArguments).2.any Event.reportsFailure
      = true := by
    decide +kernel
  have htext := (code_eq_code (w := hostOfReportingChild) hwords).2.1 .text nofun
  rw [wholeCode, hevents, if_pos rfl] at htext
  exact ⟨hwords, hevents, htext⟩

end CommandLine

end AgentClient
