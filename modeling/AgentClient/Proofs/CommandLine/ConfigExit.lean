import AgentClient.Proofs.CommandLine.ExitCode
import AgentClient.Proofs.Conversation.ConfigFailures
import AgentClient.Proofs.Conversation.Exclusive
import AgentClient.Proofs.Wire.LetThrough

/-!
# Proofs/CommandLine/ConfigExit — a command line that exits for its configuration has run no process

A failure has exit code 2 just if it is about the configuration, and so has a command line that
cannot be read.  A turn of the command line is a prudent operation, so a program that exits with 2
has run no process (`journal_run`).  Together with the steps of a session this covers all that a
client is used for (`config_failures_precede_processes`). -/

namespace AgentClient

/-- A client made from options runs the executable for them. -/
theorem Client.exists_agent_of_ofOptions {s : Surroundings} {o : ClientOptions}
    {scripts : List Script}
    {c : Client} (h : Client.ofOptions s o scripts = .ok c) :
    ∃ e, Executor.ofOptions s o = .ok e ∧ c.agent = .executable e scripts := by
  obtain ⟨e, he, h⟩ := Json.exists_of_bind_eq_ok h
  exact ⟨e, he, by rw [← Except.ok.inj h]⟩

/-- So it runs processes. -/
theorem Client.runsProcesses_ofOptions {s : Surroundings} {o : ClientOptions}
    {scripts : List Script}
    {c : Client} (h : Client.ofOptions s o scripts = .ok c) : c.runsProcesses = true := by
  obtain ⟨e, -, hagent⟩ := Client.exists_agent_of_ofOptions h
  rw [runsProcesses, hagent]

namespace CommandLine

/-- The exit code 2 is that of the configuration. -/
theorem exitCodeOf_eq_two_iff (f : Failure) : exitCodeOf f = 2 ↔ f.isConfig = true := by
  cases f with
  | client error => cases error <;> simp [exitCodeOf, ClientError.exitCode, Failure.isConfig]
  | fault f => simp [exitCodeOf, Failure.isConfig]

/-! ## What goes wrong in showing a result

A result is copied, written and given its bytes. Each of these fails with a fault, never with an
error of the configuration, and so does what is put together of them. -/

/-- A computation that fails with no error of the configuration. -/
def NeverConfig {α : Type} (x : Except Failure α) : Prop :=
  FailsWith (fun f => f.isConfig = false) x

theorem neverConfig_documentLine (s : Json.Spacing) (v : Value) :
    NeverConfig (documentLine s v) := by
  rw [documentLine]
  cases Json.write s v with
  | ok text => exact .ok _
  | error f => exact .error rfl

theorem neverConfig_copied (limit : CopyLimit) (v : Value) : NeverConfig (copied limit v) := by
  rw [copied]
  cases copyFault? limit v with
  | none => exact .ok v
  | some f => exact .error rfl

theorem neverConfig_textLine (t : WireText) : NeverConfig (textLine t) := by
  cases t with
  | plain s => exact .ok _
  | broken points => exact .error rfl

theorem neverConfig_turnDocument (limit : CopyLimit) (t : Turn) (id : Option WireText) :
    NeverConfig (turnDocument limit t id) := by
  have hitems : NeverConfig (t.items.mapM fun i => copied limit i.toValue) :=
    FailsWith.mapM fun i _ => neverConfig_copied limit i.toValue
  exact FailsWith.bind hitems fun _ _ => .ok _

/-- **What goes wrong in showing an event** is no fault of the settings. -/
theorem neverConfig_showEvent (limits : CopyLimits) (shown : String) (thread : Thread) (e : Event) :
    NeverConfig (showEvent limits shown thread e) :=
  FailsWith.bind (neverConfig_copied limits.event e.toValue) fun v _ =>
    FailsWith.bind (neverConfig_documentLine .oneLine v) fun _ _ => .ok _

/-- **Nor is what goes wrong in showing a turn.** -/
theorem neverConfig_showTurn (limits : CopyLimits) (format : OutputFormat) (t : Turn)
    (id : Option WireText) : NeverConfig (showTurn limits format t id) := by
  have htext := neverConfig_textLine t.finalResponse.asText
  cases format with
  | json =>
    exact FailsWith.bind (neverConfig_turnDocument limits.item t id) fun v _ =>
      FailsWith.bind (neverConfig_documentLine (.indented 2) v) fun _ _ => .ok _
  | text => exact FailsWith.bind htext fun _ _ => .ok _
  | stream => exact FailsWith.bind htext fun _ _ => .ok _

/-! ## A turn on the command line

Until the turn is run it is a prudent operation of the session; what comes afterwards is only to
show it. -/

variable {s : Scene}

/-- A turn that fails at its settings has called nothing; one that has been run cannot fail at them
any more. -/
theorem prudent_wholeTurn (limits : CopyLimits) (format : OutputFormat)
    (hs : s.client.runsProcesses = true) (input : Input)
    (options : TurnOptions) :
    s.Prudent (wholeTurn limits format s input options).1
      (wholeTurn limits format s input options).2.2 := by
  have hrun := Scene.prudent_run hs input options
  rw [wholeTurn]
  generalize s.run input options = ran at hrun ⊢
  obtain ⟨f | turn, s'⟩ := ran
  · exact hrun
  · dsimp only
    cases hshown : showTurn limits format turn s'.thread.id with
    | ok shown => exact Scene.prudent_none s hrun.runsProcesses
    | error f =>
      have hpast : Scene.IsPastConfig (some f) s' :=
        ⟨hrun.runsProcesses, neverConfig_showTurn limits format turn _ f hshown⟩
      exact hpast.prudent s

/-- **A turn on the command line** is a prudent operation, in every format. -/
theorem prudent_shownTurn (limits : CopyLimits) (format : OutputFormat)
    (hs : s.client.runsProcesses = true) (input : Input)
    (options : TurnOptions) :
    s.Prudent (shownTurn limits format s input options).1
      (shownTurn limits format s input options).2.2 := by
  cases format with
  | stream =>
    exact Scene.prudent_drain (showEvent limits) (fun {shown thread e f} h =>
      neverConfig_showEvent limits shown thread e f h) hs (e := .unstarted input options) trivial ""
  | text => exact prudent_wholeTurn limits .text hs input options
  | json => exact prudent_wholeTurn limits .json hs input options

variable {w : World} {words : List String} {a : RunArguments} {schema : Value} {c : Client}

/-- The client of a command line is made from its options. -/
theorem exists_ofOptions_of_prepare (h : prepare w a = .ok (schema, c)) :
    ∃ options, clientOptionsOf w a = .ok options ∧
      Client.ofOptions w.surroundings options w.scripts = .ok c := by
  obtain ⟨v, -, h⟩ := Json.exists_of_bind_eq_ok h
  obtain ⟨options, hoptions, h⟩ := Json.exists_of_bind_eq_ok h
  obtain ⟨c', hc, h⟩ := Json.exists_of_bind_eq_ok h
  obtain ⟨-, rfl⟩ := Prod.mk.inj (Except.ok.inj h)
  exact ⟨options, hoptions, hc⟩

/-- **A turn that fails for the configuration** leaves the client as it was made, without a call and
without a schema directory. -/
theorem isFresh_shownTurn (h : prepare w a = .ok (schema, c))
    (hconfig : (shownTurn w.surroundings.copyLimits a.output ⟨c, threadOf a⟩ (inputOf w a)
      (turnOptionsOf a schema)).1.any Failure.isConfig = true) :
    (shownTurn w.surroundings.copyLimits a.output ⟨c, threadOf a⟩ (inputOf w a)
      (turnOptionsOf a schema)).2.2.client.IsFresh := by
  obtain ⟨options, -, hc⟩ := exists_ofOptions_of_prepare h
  have hfresh := Client.isFresh_ofOptions hc
  have huntouched := (prudent_shownTurn w.surroundings.copyLimits a.output (s := ⟨c, threadOf a⟩)
    (Client.runsProcesses_ofOptions hc) (inputOf w a) (turnOptionsOf a schema)).untouched hconfig
  exact ⟨huntouched.journal_eq.trans hfresh.journal_eq,
    huntouched.directories_eq.trans hfresh.directories_eq⟩

/-- **A program that exits with 2** has run no process. -/
theorem journal_run (h : (run w words).code = 2) : (run w words).journal = [] := by
  revert h
  rw [run]
  -- Only the code of a turn is that of its failure, and the words of the command are looked at
  -- before there is one.
  rcases invocation words with halt | ⟨_ | _ | a⟩
  · cases halt <;> exact fun _ => rfl
  · exact fun _ => rfl
  · exact fun _ => rfl
  · dsimp only [runTurn]
    cases hprepare : prepare w a with
    | error f => exact fun _ => rfl
    | ok p =>
      obtain ⟨schema, c⟩ := p
      have hfresh := isFresh_shownTurn hprepare
      dsimp only
      generalize shownTurn w.surroundings.copyLimits a.output ⟨c, threadOf a⟩ (inputOf w a)
        (turnOptionsOf a schema) = ended
        at hfresh ⊢
      obtain ⟨_ | f, shown, scene⟩ := ended
      · rintro ⟨⟩
      · exact fun h => (hfresh ((exitCodeOf_eq_two_iff f).mp h)).journal_eq

/-- **Failures of the configuration come before every process.**  A client is made without a call
and without a schema directory.  Behind any steps of its session, a step that fails for the
configuration has made no call, and there are as many schema directories as before; so it is with
reading the lines of a turn.  A program that exits for its configuration has run no process, and its
turn, if it has come to one, has left no schema directory. -/
theorem config_failures_precede_processes :
    (∀ {w : Surroundings} {o : ClientOptions} {scripts : List Script} {c : Client},
      Client.ofOptions w o scripts = .ok c →
        c.IsFresh ∧
        ∀ {s : Session} (xs : List Step), (Session.steps ⟨c, [], []⟩ xs).2 = s →
          (∀ x, (s.step x).1.failure?.any Failure.isConfig = true →
            s.client.Untouched (s.step x).2.client) ∧
          ∀ r schema limit,
            (s.client.readLines r schema limit).2.1.failure?.any Failure.isConfig = true →
              s.client.Untouched (s.client.readLines r schema limit).2.2) ∧
    ∀ (w : World),
      (∀ words, (run w words).code = 2 → (run w words).journal = []) ∧
      ∀ {a : RunArguments} {schema : Value} {c : Client},
        prepare w a = .ok (schema, c) →
          (shownTurn w.surroundings.copyLimits a.output ⟨c, threadOf a⟩ (inputOf w a)
            (turnOptionsOf a schema)).1.any Failure.isConfig = true →
          (shownTurn w.surroundings.copyLimits a.output ⟨c, threadOf a⟩ (inputOf w a)
            (turnOptionsOf a schema)).2.2.client.IsFresh := by
  refine ⟨fun {w o scripts c} hc => ⟨Client.isFresh_ofOptions hc, fun {s} xs hs => ?_⟩,
    fun w => ⟨fun words => journal_run, isFresh_shownTurn⟩⟩
  have hruns : s.RunsProcesses :=
    hs ▸ (Session.RunsProcesses.fresh (Client.runsProcesses_ofOptions hc)).steps xs
  exact ⟨fun x => (hruns.prudent_step x).untouched, Client.untouched_readLines hruns.client⟩

/-- A thread whose options cannot be written. -/
def unwritableThread : Step :=
  .startThread { approvalPolicy := .float .nan }

/-- A run with a schema. -/
def runWithSchema : Step :=
  .run 0 (.text "go") { outputSchema := .table [] }

/-- A host with a file whose document is no schema. -/
def hostOfListSchema : World :=
  { hostOfBrokenChild with
    surroundings :=
      { environment := []
        files := FileTree.ofFile ["/", "bin", "trill"] .executable ++ [(["/", "schema"], .plain)]
        texts := [(["/", "schema"], "[]")]
        schemaDirectory := "/tmp/schemas" } }

/-- What `run --schema /schema hi` asks for. -/
def listSchemaArguments : RunArguments :=
  { streamArguments with schema := .str "/schema", output := .text }

/-- The client that is made for it. -/
def clientOfListSchema : Client :=
  { clientOfBrokenChild with surroundings := hostOfListSchema.surroundings }

/-- A run fails for its thread, behind the making of its schema directory, and leaves neither a call
nor the directory.  A program whose turn fails for its schema has run no process. -/
theorem untouched_unwritableThread :
    (∃ c, Client.ofOptions hostOfBrokenChild.surroundings {}
        [brokenChild] = .ok c ∧
      ∃ s, (Session.steps ⟨c, [], []⟩ [unwritableThread]).2 = s ∧
        (s.step runWithSchema).1
          = .failed (.client (.config (.notFinite "approval_policy"))) ∧
        s.client.Untouched (s.step runWithSchema).2.client) ∧
      (run hostOfListSchema ["run", "--schema", "/schema", "hi"]).code = 2 ∧
      (run hostOfListSchema ["run", "--schema", "/schema", "hi"]).journal = [] ∧
      prepare hostOfListSchema listSchemaArguments = .ok (.list [], clientOfListSchema) ∧
      (shownTurn hostOfListSchema.surroundings.copyLimits listSchemaArguments.output
        ⟨clientOfListSchema, threadOf listSchemaArguments⟩
        (inputOf hostOfListSchema listSchemaArguments)
        (turnOptionsOf listSchemaArguments (.list []))).2.2.client.IsFresh := by
  have hc : Client.ofOptions hostOfBrokenChild.surroundings {}
      [brokenChild] = .ok clientOfBrokenChild := rfl
  have hfailed : ((Session.steps ⟨clientOfBrokenChild, [], []⟩
      [unwritableThread]).2.step runWithSchema).1
        = .failed (.client (.config (.notFinite "approval_policy"))) := by
    decide +kernel
  have hcode : (run hostOfListSchema ["run", "--schema", "/schema", "hi"]).code = 2 := by
    decide +kernel
  have hprepare : prepare hostOfListSchema listSchemaArguments
      = .ok (.list [], clientOfListSchema) := rfl
  obtain ⟨hclient, hprogram⟩ := config_failures_precede_processes
  refine ⟨⟨_, hc, _, rfl, hfailed, ?_⟩, hcode, (hprogram _).1 _ hcode, hprepare,
    (hprogram _).2 hprepare (by decide +kernel)⟩
  exact ((hclient hc).2 [unwritableThread] rfl).1 runWithSchema (by rw [hfailed]; rfl)

end CommandLine

end AgentClient
