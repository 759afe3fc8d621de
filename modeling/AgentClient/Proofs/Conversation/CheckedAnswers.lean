import AgentClient.Proofs.Conversation.Accounts
import AgentClient.Proofs.Conversation.Rejected

/-!
# Proofs/Conversation/CheckedAnswers — a model of answers against its bare schema

All that a run knows of a model of answers is a schema, which it hands on, and a check, which it
makes when the turn is over and has released everything (`AnswerModel`, `Scene.runFor`).  A record
model is one such model (`Scene.run_model_eq_runFor`).  So a run for a model and a run for its
schema alone ask the same, take the same lines and leave the same behind, and **differ in nothing
but the check of the answer that the second returns** (`Scene.runFor_eq`).
-/

namespace AgentClient

/-- **A model of answers**, as far as a run is concerned: its name, the schema to hand on, and a
check that takes an answer for a record, or says why it is none. -/
structure AnswerModel (ρ : Type) where
  name : String
  schema : Table
  check : Value → Except MismatchCause ρ

namespace AnswerModel

/-- The failure of an answer that is no record. -/
def mismatch {ρ : Type} (m : AnswerModel ρ) (response : Value) (cause : MismatchCause) : Failure :=
  .client (.mismatch ("Final response does not match " ++ m.name) response (some cause))

/-- The record that an answer is, or the failure of one that is none. -/
def validate {ρ : Type} (m : AnswerModel ρ) (response : Value) : Except Failure ρ :=
  (m.check response).mapError (m.mismatch response)

/-- A record model as a model of answers. -/
def ofRecordModel (m : RecordModel) : AnswerModel Record where
  name := m.name
  schema := m.schema
  check response := (m.check response).mapError .found

theorem validate_ofRecordModel (m : RecordModel) (response : Value) :
    (ofRecordModel m).validate response = m.validate response := by
  rw [validate, RecordModel.validate, ofRecordModel]
  dsimp only
  cases m.check response <;> rfl

end AnswerModel

theorem Turn.parsed_of_add {turn turn' : Turn} {id : Option WireText} {e : Event}
    (h : turn.add id e = .ok turn') : turn'.parsed = turn.parsed := by
  rw [add.eq_def] at h
  split at h
  · rw [← Except.ok.inj h]
  · rw [← Except.ok.inj h]
  · cases h
  · cases h
  · rw [← Except.ok.inj h]

namespace Scene

/-! ## The lines that a run takes

A run stops at a line that is no event and at an event that fails the turn. What stands behind is
never taken, and so it cannot make a difference. -/

section

variable {σ : Type} (receive : σ → Thread → Event → Except Failure σ) (t : LiveTurn)

/-- The lines that are taken of those to come. -/
def linesTaken : List String → Scene → σ → List String
  | [], _, _ => []
  | line :: rest, s, state =>
    line :: match s.takeLine t line with
      | (.event e, s) =>
        match receive state s.thread e with
        | .ok state => linesTaken rest s state
        | .error _ => []
      | _ => []

/-- The lines that are taken are the first ones. -/
theorem linesTaken_prefix (lines : List String) (s : Scene) (state : σ) :
    linesTaken receive t lines s state <+: lines := by
  induction lines generalizing s state with
  | nil => exact List.prefix_rfl
  | cons line rest ih =>
    rw [linesTaken]
    refine List.cons_prefix_cons.mpr ⟨rfl, ?_⟩
    split
    · next e s' _ =>
      split
      · next state' _ => exact ih s' state'
      · exact List.nil_prefix
    · exact List.nil_prefix

/-- **Lines that are not taken make no difference.** -/
theorem deliver_linesTaken_append {lines : List String} {s : Scene} {state : σ}
    (h : linesTaken receive t lines s state ≠ lines) (more : List String) :
    deliver receive t (linesTaken receive t lines s state ++ more) s state
      = deliver receive t lines s state := by
  induction lines generalizing s state with
  | nil => exact absurd rfl h
  | cons line rest ih =>
    rw [linesTaken] at h ⊢
    rw [List.cons_append, deliver, deliver]
    -- Behind the line at which the turn ends nothing is taken, so what stands there is the same to
    -- it.
    rcases hline : s.takeLine t line with ⟨e | _ | f, s'⟩
    · rw [hline] at h
      dsimp only at h ⊢
      cases hreceive : receive state s'.thread e with
      | error f => rfl
      | ok state' =>
        rw [hreceive] at h
        exact ih fun hrest => h (congrArg (line :: ·) hrest)
    · rfl
    · rfl

end

/-- The lines that a turn takes once it has been started or has not. -/
def linesOf : Except Failure LiveTurn × Scene → List String
  | (.error _, _) => []
  | (.ok t, s) => linesTaken addTo t t.feed.lines s {}

/-! ## A run for a model of answers

The run itself is the same with any schema. The check is made on the result, behind the point where
the thread has been released, so a failed check leaves the thread just as a passed one does. -/

/-- Start a turn with a schema that needs no looking at. -/
def startGiven (s : Scene) (input : Input) (schema : Table) (timeout : Value) :
    Except Failure LiveTurn × Scene :=
  if s.thread.running then (.error (.client .busy), s)
  else
    match input.normalize with
    | .error f => (.error f, s)
    | .ok (prompt, images) => s.occupy prompt images (some schema) timeout

/-- **Run a turn for a model of answers**: with its schema, and with its check at the end. -/
def runFor {ρ : Type} (s : Scene) (m : AnswerModel ρ) (input : Input) (timeout : Value) :
    Except Failure (Turn × ρ) × Scene :=
  match s.startGiven input m.schema timeout with
  | (.error f, s) => (.error f, s)
  | (.ok t, s) =>
    match deliver addTo t t.feed.lines s {} with
    | (some f, _, s) => (.error f, s)
    | (none, turn, s) => ((m.validate turn.finalResponse).map (turn, ·), s)

variable {s : Scene} {input : Input} {options : TurnOptions} {schema : Table} {timeout : Value}

theorem start_eq_startGiven {model : Option RecordModel}
    (h : OutputSchema.resolve options.outputSchema = .ok ⟨some schema, model⟩) :
    s.start input options = s.startGiven input schema options.timeout := by
  rw [start, h]
  rfl

/-- A run with a schema goes through its turn and checks the result. -/
theorem run_eq_of_resolve {model : Option RecordModel}
    (h : OutputSchema.resolve options.outputSchema = .ok ⟨some schema, model⟩) :
    s.run input options
      = match s.startGiven input schema options.timeout with
        | (.error f, s) => (.error f, s)
        | (.ok t, s) =>
          match deliver addTo t t.feed.lines s {} with
          | (some f, _, s) => (.error f, s)
          | (none, turn, s) => (turn.check model, s) := by
  rw [run_of_resolve h, drain, start_eq_startGiven h]
  rcases s.startGiven input schema options.timeout with ⟨f | t, s'⟩ <;> rfl

/-- What is added up of events has not been checked. -/
theorem parsed_of_deliver {t : LiveTurn} {lines : List String} {turn turn' : Turn} {s' : Scene}
    (hparsed : turn.parsed = none) (h : deliver addTo t lines s turn = (none, turn', s')) :
    turn'.parsed = none := by
  -- An event that is added sets no answer of a model, and neither does the end of the lines.
  induction lines generalizing s turn with
  | nil =>
    rw [deliver, finish] at h
    cases hfailure : t.feed.failure with
    | none =>
      rw [hfailure] at h
      exact (Prod.mk.inj (Prod.mk.inj h).2).1 ▸ hparsed
    | some f =>
      rw [hfailure] at h
      exact absurd (Prod.mk.inj h).1 (Option.some_ne_none f)
  | cons line rest ih =>
    rw [deliver] at h
    rcases hline : s.takeLine t line with ⟨e | _ | f, s''⟩
    · rw [hline] at h
      dsimp only at h
      cases hreceive : addTo turn s''.thread e with
      | error f =>
        rw [hreceive] at h
        exact absurd (Prod.mk.inj h).1 (Option.some_ne_none f)
      | ok turn'' =>
        rw [hreceive] at h
        exact ih ((Turn.parsed_of_add hreceive).trans hparsed) h
    · rw [hline] at h
      exact (Prod.mk.inj (Prod.mk.inj h).2).1 ▸ hparsed
    · rw [hline] at h
      exact absurd (Prod.mk.inj h).1 (Option.some_ne_none f)

/-- **A run with a record model is the run for it**; its record stands in the turn. -/
theorem run_model_eq_runFor (m : RecordModel) :
    s.run input { outputSchema := .model m, timeout }
      = ((s.runFor (.ofRecordModel m) input timeout).1.map
          fun (turn, record) => { turn with parsed := some record },
        (s.runFor (.ofRecordModel m) input timeout).2) := by
  -- Both runs start alike and take the same lines; they part at the check, which is the validation
  -- of the model in one case and of its record model in the other.
  have hresolve : OutputSchema.resolve
      ({ outputSchema := .model m, timeout } : TurnOptions).outputSchema
      = .ok ⟨some m.schema, some m⟩ := rfl
  rw [run_eq_of_resolve hresolve, runFor]
  dsimp only [AnswerModel.ofRecordModel]
  rcases s.startGiven input m.schema timeout with ⟨f | t, s'⟩
  · rfl
  · dsimp only
    rcases deliver addTo t t.feed.lines s' {} with ⟨_ | f, turn, s''⟩
    · have hvalidate := AnswerModel.validate_ofRecordModel m turn.finalResponse
      rw [AnswerModel.ofRecordModel] at hvalidate
      dsimp only [Turn.check]
      rw [hvalidate]
      cases m.validate turn.finalResponse <;> rfl
    · rfl

/-- The options of a turn for a bare schema. -/
abbrev bareOptions (schema : Table) (timeout : Value) : TurnOptions :=
  { outputSchema := .table schema, timeout }

/-- A run for a bare schema gives what its turn adds up to. -/
theorem run_bareOptions (s : Scene) (input : Input) (schema : Table) (timeout : Value) :
    s.run input (bareOptions schema timeout)
      = match s.startGiven input schema timeout with
        | (.error f, s) => (.error f, s)
        | (.ok t, s) =>
          match deliver addTo t t.feed.lines s {} with
          | (some f, _, s) => (.error f, s)
          | (none, turn, s) => (.ok turn, s) := by
  have hresolve : OutputSchema.resolve (bareOptions schema timeout).outputSchema
      = .ok ⟨some schema, none⟩ := rfl
  exact run_eq_of_resolve hresolve

/-- **A run for a model of answers** is the run for its schema, and then its check. -/
theorem runFor_eq {ρ : Type} (m : AnswerModel ρ) (s : Scene) (input : Input) (timeout : Value) :
    s.runFor m input timeout
      = match s.run input (bareOptions m.schema timeout) with
        | (.error f, s) => (.error f, s)
        | (.ok turn, s) => ((m.validate turn.finalResponse).map (turn, ·), s) := by
  rw [run_bareOptions, runFor]
  rcases s.startGiven input m.schema timeout with ⟨f | t, s'⟩
  · rfl
  · dsimp only
    rcases deliver addTo t t.feed.lines s' {} with ⟨_ | f, turn, s''⟩ <;> rfl

section

variable {ρ : Type} (m : AnswerModel ρ)

theorem runFor_of_run_error {f : Failure}
    (h : (s.run input (bareOptions m.schema timeout)).1 = .error f) :
    (s.runFor m input timeout).1 = .error f := by
  rw [runFor_eq]
  rcases hrun : s.run input (bareOptions m.schema timeout) with ⟨f' | turn, s'⟩ <;> rw [hrun] at h
  · exact congrArg Except.error (Except.error.inj h)
  · exact absurd h nofun

theorem runFor_of_run {turn : Turn}
    (h : (s.run input (bareOptions m.schema timeout)).1 = .ok turn) :
    (s.runFor m input timeout).1 = (m.validate turn.finalResponse).map (turn, ·) := by
  rw [runFor_eq]
  rcases hrun : s.run input (bareOptions m.schema timeout) with ⟨f | turn', s'⟩ <;> rw [hrun] at h
  · exact absurd h nofun
  · rw [← Except.ok.inj h]

/-- The check leaves the scene alone. -/
theorem runFor_snd (s : Scene) (input : Input) (timeout : Value) :
    (s.runFor m input timeout).2 = (s.run input (bareOptions m.schema timeout)).2 := by
  rw [runFor_eq]
  rcases s.run input (bareOptions m.schema timeout) with ⟨f | turn, s'⟩ <;> rfl

end

/-- Without a model there is no record. -/
theorem parsed_of_run {turn : Turn}
    (h : (s.run input (bareOptions schema timeout)).1 = .ok turn) : turn.parsed = none := by
  rw [run_bareOptions] at h
  rcases hstart : s.startGiven input schema timeout with ⟨f | t, s'⟩
  · rw [hstart] at h
    exact absurd h nofun
  · rw [hstart] at h
    dsimp only at h
    rcases hdeliver : deliver addTo t t.feed.lines s' {} with ⟨_ | f, turn', s''⟩
    · rw [hdeliver] at h
      obtain rfl := Except.ok.inj h
      exact parsed_of_deliver rfl hdeliver
    · rw [hdeliver] at h
      exact absurd h nofun

/-- A run that returns was one on an idle thread. -/
theorem running_eq_false_of_run {turn : Turn} (h : (s.run input options).1 = .ok turn) :
    s.thread.running = false := by
  rw [Bool.eq_false_iff]
  intro hbusy
  obtain ⟨f, m, -, -, hrun⟩ := run_of_rejects (.busy hbusy : s.thread.Rejects input options _)
  rw [hrun] at h
  exact absurd h nofun

/-- An idle thread accepts what a new one accepts. -/
theorem exists_accepted_of_idle (hidle : s.thread.running = false)
    (h : ∀ f, ¬ Thread.Rejects {} input options f) : Nonempty (Accepted s input options) :=
  exists_accepted_of_not_rejects fun f hf => h f (hf.of_idle hidle {})

/-- **A model of answers makes no difference but for its check.**  A run for the model and a run for
its schema alone start with the same call, take the same lines and leave the same behind.  If the
one fails, so does the other, likewise; if it returns a turn, which has no record, the other returns
the turn with the record that its answer is, or fails for an answer that is none.  Whatever the
check has said, the thread is idle then and accepts a next turn.  A run with a record model is a run
for such a model. -/
theorem runFor_against_run {ρ : Type} (m : AnswerModel ρ) (s : Scene) (input : Input)
    (timeout : Value) :
    s.startGiven input m.schema timeout = s.start input (bareOptions m.schema timeout)
    ∧ linesOf (s.startGiven input m.schema timeout)
      = linesOf (s.start input (bareOptions m.schema timeout))
    ∧ (s.runFor m input timeout).2 = (s.run input (bareOptions m.schema timeout)).2
    ∧ (∀ f, (s.run input (bareOptions m.schema timeout)).1 = .error f →
      (s.runFor m input timeout).1 = .error f)
    ∧ (∀ turn, (s.run input (bareOptions m.schema timeout)).1 = .ok turn →
      turn.parsed = none
      ∧ (s.runFor m input timeout).1 = (match m.check turn.finalResponse with
        | .ok record => .ok (turn, record)
        | .error cause => .error (m.mismatch turn.finalResponse cause))
      ∧ (s.runFor m input timeout).2.thread.running = false
      ∧ ∀ input' options', (∀ f, ¬ Thread.Rejects {} input' options' f) →
        Nonempty (Accepted (s.runFor m input timeout).2 input' options'))
    ∧ ∀ r : RecordModel, s.run input { outputSchema := .model r, timeout }
      = ((s.runFor (.ofRecordModel r) input timeout).1.map
          fun (turn, record) => { turn with parsed := some record },
        (s.runFor (.ofRecordModel r) input timeout).2) := by
  have hstart : s.start input (bareOptions m.schema timeout)
      = s.startGiven input m.schema timeout := start_eq_startGiven rfl
  refine ⟨hstart.symm, congrArg linesOf hstart.symm, runFor_snd m s input timeout,
    fun f hf => runFor_of_run_error m hf, fun turn hturn => ?_, run_model_eq_runFor⟩
  -- The mismatch is found when the turn has ended, so the thread is free.
  have hidle : (s.runFor m input timeout).2.thread.running = false := by
    rw [runFor_snd, running_run, running_eq_false_of_run hturn]
  refine ⟨parsed_of_run hturn, ?_, hidle, fun input' options' => exists_accepted_of_idle hidle⟩
  rw [runFor_of_run m hturn, AnswerModel.validate]
  cases m.check turn.finalResponse <;> rfl

end Scene

/-- A thread whose agent answers once, with one word. -/
def wordyThread : Scene where
  client := clientOfReplies [⟨["\x7b\"type\":\"item.completed\",\"item\":\x7b\"id\":\"m\","
    ++ "\"type\":\"agent_message\",\"text\":\"yes\"\x7d\x7d"], none⟩]
  thread := {}

/-- A model of answers that takes one word. -/
def wordModel (word : String) : AnswerModel Bool where
  name := "Word"
  schema := Table.named [("type", .str "string")]
  check v := if v = .str word then .ok true else .error (.found [])

/-- The answer is checked, and taken or not. -/
theorem runFor_wordyThread :
    ∃ turn, turn.parsed = none
      ∧ (wordyThread.runFor (wordModel "yes") (.text "go") .null).1 = .ok (turn, true)
      ∧ (wordyThread.runFor (wordModel "no") (.text "go") .null).1
        = .error ((wordModel "no").mismatch (.str "yes") (.found [])) := by
  have hrun : (wordyThread.run (.text "go") (Scene.bareOptions (wordModel "yes").schema .null)).1
      = .ok
        { items := [.agentMessage (.plain "m") (.str "yes")], finalResponse := .str "yes" } := by
    decide +kernel
  obtain ⟨hparsed, hyes, -⟩ :=
    (Scene.runFor_against_run (wordModel "yes") wordyThread (.text "go") .null).2.2.2.2.1 _ hrun
  obtain ⟨-, hno, -⟩ :=
    (Scene.runFor_against_run (wordModel "no") wordyThread (.text "go") .null).2.2.2.2.1 _ hrun
  exact ⟨_, hparsed, hyes, hno⟩

end AgentClient
