import AgentClient.Proofs.CommandLine.ConfigExit
import AgentClient.Proofs.Conversation.Independence

/-!
# Proofs/Conversation/Started — what the processes of a client were started with

A process is on record with its command, its environment and its prompt from the moment that it
starts; the end of its turn only says how it went (`Call.Started`).  The call that a turn adds is
the one of asking the agent its request, whichever way the turn is begun (`Scene.called`,
`Session.gains_step`), so whatever holds of every process at its start holds of all the processes of
a session (`Session.forall_started_steps`). -/

namespace AgentClient

/-! ## A record at its start

The two flags of a record say how its process ended. Statements about starts are made about the
record without them, so closing a call does not touch them. -/

/-- A record as it was when the process started. -/
def ProcessRecord.atStart (p : ProcessRecord) : ProcessRecord :=
  { p with killed := false, closed := false }

/-- **A call whose process was started so**, if it has one. -/
def Call.Started (P : ProcessRecord → Prop) : Call → Prop
  | .process p => P p.atStart
  | _ => True

theorem Call.Started.imp {P Q : ProcessRecord → Prop} {call : Call} (h : call.Started P)
    (himp : ∀ p, P p → Q p) : call.Started Q := by
  cases call with
  | process p => exact himp _ h
  | _ => trivial

/-- The end of a turn changes nothing about the start of its process. -/
theorem Call.started_close {P : ProcessRecord → Prop} {call : Call} {exitSeen : Bool} :
    (call.close exitSeen).Started P ↔ call.Started P := by
  cases call <;> rfl

/-- The processes of a journal are those that it had and those that it has gained. -/
theorem Journal.Gains.forall_started {j j' : Journal} {new : List Call} (h : Gains j j' new)
    {P : ProcessRecord → Prop} (hj : ∀ call ∈ j, call.Started P)
    (hnew : ∀ call ∈ new, call.Started P) :
    ∀ call ∈ j', call.Started P := by
  intro call hcall
  have hclosed : call.close true ∈ j'.map (Call.close true) := List.mem_map_of_mem hcall
  rw [h] at hclosed
  obtain ⟨call', hcall', heq⟩ := List.mem_map.mp hclosed
  have hstarted := List.forall_mem_append.mpr ⟨hj, hnew⟩ call' hcall'
  exact Call.started_close.mp (heq ▸ Call.started_close.mpr hstarted)

/-- Whether a call has started a process. -/
def Call.isProcess : Call → Bool
  | .process _ => true
  | _ => false

theorem Journal.exists_process_of_any {j : Journal} (h : j.any Call.isProcess = true) :
    ∃ p, .process p ∈ j := by
  obtain ⟨call, hcall, hprocess⟩ := List.any_eq_true.mp h
  cases call with
  | process p => exact ⟨p, hcall⟩
  | _ => cases hprocess

/-- A process that a journal has gained is in it, whatever became of it. -/
theorem Journal.Gains.exists_process {j j' : Journal} {new : List Call} (h : Gains j j' new)
    {p : ProcessRecord} (hp : .process p ∈ new) : ∃ p', .process p' ∈ j' := by
  have hclosed : Call.close true (.process p) ∈ j'.map (Call.close true) := by
    rw [h]
    exact List.mem_map_of_mem (List.mem_append_right j hp)
  obtain ⟨call, hcall, hclose⟩ := List.mem_map.mp hclosed
  cases call with
  | process p' => exact ⟨p', hcall⟩
  | _ => exact absurd hclose nofun

/-! ## The call of a request

What asking the agent adds to the journal is read off the request alone: one call, or none where the
command or the timeout is refused before anything starts. -/

namespace Client

variable {c : Client} {r : TurnRequest} {schema : Option String}

/-- **A process that a client starts for a request.** -/
def Starts (c : Client) (r : TurnRequest) (schema : Option String) (p : ProcessRecord) : Prop :=
  ∃ e scripts command, c.agent = .executable e scripts ∧ e.command r = .ok command ∧
    p = processRecord e c.surroundings r command schema (takeScript scripts).1

/-- **The call of asking the agent**, or none where it does not come to that. -/
def called (c : Client) (r : TurnRequest) (schema : Option String) : List Call :=
  match c.agent with
  | .memory _ => [.memory r schema false]
  | .executable e scripts =>
    match e.command r, Deadline.ofTimeout r.timeout with
    | .ok command, .ok _ =>
      if (takeScript scripts).1.refusal.isSome then [.refused]
      else [.process (processRecord e c.surroundings r command schema (takeScript scripts).1)]
    | _, _ => []

/-- A schema directory makes no difference to it. -/
theorem called_makeDirectory (c : Client) (hasSchema : Bool) (r : TurnRequest)
    (schema : Option String) : (c.makeDirectory hasSchema).called r schema = c.called r schema := by
  cases hasSchema <;> rfl

/-- Asking the agent adds the call to the journal. -/
theorem journal_launch_eq (c : Client) (r : TurnRequest) (schema : Option String) :
    (c.launch r schema).2.journal = c.journal ++ c.called r schema := by
  rw [launch, called]
  -- The calls are listed in the order in which a launch may stop.
  cases c.agent with
  | memory replies => rfl
  | executable e scripts =>
    dsimp only [launchProcess]
    cases e.command r with
    | error f => exact (List.append_nil _).symm
    | ok command =>
      cases Deadline.ofTimeout r.timeout with
      | error f => exact (List.append_nil _).symm
      | ok deadline =>
        rcases takeScript scripts with ⟨child, later⟩
        cases child.refusal <;> rfl

/-- A process of the call is one for the request. -/
theorem started_of_mem_called {call : Call} (h : call ∈ c.called r schema) :
    call.Started (c.Starts r schema) := by
  rw [called] at h
  split at h
  · rw [List.mem_singleton.mp h]
    trivial
  · next e scripts hagent =>
    split at h
    · next command deadline hcommand hdeadline =>
      split at h
      · rw [List.mem_singleton.mp h]
        trivial
      · rw [List.mem_singleton.mp h]
        exact ⟨e, scripts, command, hagent, hcommand, rfl⟩
    · exact absurd h List.not_mem_nil

/-- **A process that starts** is the call. -/
theorem called_of_spawn {child : Script} (p : Spawn c r child) (schema : Option String) :
    c.called r schema
      = [.process (processRecord p.executor c.surroundings r p.command schema child)] := by
  have hjournal := c.journal_launch_eq r schema
  rw [p.launch_eq schema] at hjournal
  exact (List.append_cancel_left hjournal).symm

end Client

/-! ## The call of a turn

A turn adds the call of its request if it is accepted at all. The three ways to begin a turn, asking
its stream for an event, draining the stream, and running it at once, add the same call, since all
of them go through `start`. -/

namespace Scene

variable {s : Scene} {input : Input} {options : TurnOptions}

/-- **The call that a turn adds**, or none if there is something wrong about the turn. -/
def called (s : Scene) (input : Input) (options : TurnOptions) : List Call :=
  match s.thread.question s.client.surroundings.schemaDirectory input options with
  | .error _ => []
  | .ok (r, schema) => s.client.called r schema

theorem called_of_accepted (a : Accepted s input options) :
    s.called input options = s.client.called a.request a.schemaText := by
  rw [called, a.question_eq]

/-- A turn that adds a call was accepted. -/
theorem exists_accepted_of_mem_called {call : Call} (h : call ∈ s.called input options) :
    ∃ a : Accepted s input options, call.Started (s.client.Starts a.request a.schemaText) := by
  cases hquestion : s.thread.question s.client.surroundings.schemaDirectory input options with
  | error f =>
    rw [called, hquestion] at h
    exact absurd h List.not_mem_nil
  | ok q =>
    obtain ⟨a⟩ := exists_accepted hquestion
    rw [called_of_accepted a] at h
    exact ⟨a, Client.started_of_mem_called h⟩

/-- **The start of a turn** adds its call. -/
theorem gains_start (s : Scene) (input : Input) (options : TurnOptions) :
    Journal.Gains s.client.journal (s.start input options).2.client.journal
      (s.called input options) := by
  -- A question that is refused leaves the journal; one that is accepted makes the directory before
  -- the launch and removes it if the launch fails, and neither is a call.
  cases hquestion : s.thread.question s.client.surroundings.schemaDirectory input options with
  | error f =>
    obtain ⟨-, -, h⟩ := start_of_question_error hquestion
    rw [called, hquestion, h.journal_eq]
    exact .refl _
  | ok q =>
    obtain ⟨r, schema⟩ := q
    have hjournal := (s.client.makeDirectory schema.isSome).journal_launch_eq r schema
    rw [Client.journal_makeDirectory, Client.called_makeDirectory] at hjournal
    rw [start_of_question hquestion, called, hquestion]
    rcases hlaunch : (s.client.makeDirectory schema.isSome).launch r schema with ⟨f | feed, c⟩
    · rw [hlaunch] at hjournal
      show Journal.Gains _ (c.removeDirectory _).journal _
      rw [Client.journal_removeDirectory, hjournal]
      exact .append _ _
    · rw [hlaunch] at hjournal
      show Journal.Gains _ c.journal _
      rw [hjournal]
      exact .append _ _

/-- The turn that a stream begins when it is asked for the first time. -/
def calledBy (s : Scene) : EventStream → List Call
  | .unstarted input options => s.called input options
  | _ => []

/-- **Asking a stream for an event** adds the call of the turn that it begins. -/
theorem gains_next (s : Scene) (e : EventStream) :
    Journal.Gains s.client.journal (s.next e).2.1.client.journal (s.calledBy e) := by
  cases e with
  | ended => exact .refl _
  | live t => exact (s.advances_pull t).gains
  | unstarted input options =>
    -- Beginning the turn adds its call; going on with it adds none.
    have hgains := s.gains_start input options
    rw [next, calledBy]
    rcases hst : s.start input options with ⟨f | t, s'⟩
    · rw [hst] at hgains
      exact hgains
    · rw [hst] at hgains
      exact List.append_nil (s.called input options) ▸ hgains.trans (s'.advances_pull t).gains

/-- So does draining it. -/
theorem gains_drain {σ : Type} (receive : σ → Thread → Event → Except Failure σ) (s : Scene)
    (state : σ) (e : EventStream) :
    Journal.Gains s.client.journal (s.drain receive state e).2.2.client.journal (s.calledBy e) := by
  cases e with
  | ended => exact .refl _
  | live t => exact (advances_deliver receive t _ s state).gains
  | unstarted input options =>
    have hgains := s.gains_start input options
    rw [drain, calledBy]
    rcases hst : s.start input options with ⟨f | t, s'⟩
    · rw [hst] at hgains
      exact hgains
    · rw [hst] at hgains
      exact List.append_nil (s.called input options) ▸
        hgains.trans (advances_deliver receive t _ s' state).gains

/-- A run adds the call of its turn. -/
theorem gains_run (s : Scene) (input : Input) (options : TurnOptions) :
    Journal.Gains s.client.journal (s.run input options).2.client.journal
      (s.called input options) := by
  -- A schema that is refused is refused before the question is asked.
  cases hresolve : OutputSchema.resolve options.outputSchema with
  | error f =>
    have hnone : s.called input options = [] := by
      rw [called, Thread.question, hresolve]
      cases s.thread.running <;> rfl
    rw [run, hresolve, hnone]
    exact .refl _
  | ok schema =>
    have hgains := s.gains_drain addTo {} (.unstarted input options)
    rw [run_of_resolve hresolve]
    rcases hd : s.drain addTo {} (.unstarted input options) with ⟨_ | f, turn, s'⟩
    · rw [hd] at hgains
      exact hgains
    · rw [hd] at hgains
      exact hgains

end Scene

/-! ## The calls of a session

Every step adds the call of the turn it begins and closes calls at most, so a property of starts
that holds of each request holds of the whole journal, by induction on the steps. -/

namespace Session

/-- **The call that a step adds**: that of the turn that it begins. -/
def called (s : Session) (x : Step) : List Call :=
  match s.begins? x with
  | some (t, input, options) => (s.scene t).called input options
  | none => []

/-- Asking a stream for events, for one or for all, adds the call of the turn that it begins. -/
theorem called_cases (s : Session) (k : Nat) :
    (∃ i e t, s.streams[k]? = some (i, e) ∧ s.threads[i]? = some t ∧
        s.called (.next k) = (s.scene t).calledBy e) ∨
      (∀ act, s.onStream k act = (.absent, s)) ∧ s.called (.next k) = [] := by
  rw [called, begins?]
  cases hk : s.streams[k]? with
  | none => exact .inr ⟨fun act => by rw [onStream, hk], rfl⟩
  | some p =>
    obtain ⟨i, e⟩ := p
    cases ht : s.threads[i]? with
    | none =>
      refine .inr ⟨fun act => by simp only [onStream, hk, onThread, ht], ?_⟩
      cases e <;> simp only [ht, Option.map_none]
    | some t =>
      refine .inl ⟨i, e, t, rfl, ht, ?_⟩
      cases e <;> simp only [ht, Option.map_some] <;> rfl

/-- **A step** adds the call of the turn that it begins, and no other. -/
theorem gains_step (s : Session) (x : Step) :
    Journal.Gains s.client.journal (s.step x).2.client.journal (s.called x) := by
  -- Only a run and the two ways to read a stream can begin a turn.
  cases x with
  | startThread options | resumeThread id options | clientOptions => exact .refl _
  | threadId i =>
    rcases s.onThread_cases i with ⟨t, -, hact⟩ | ⟨-, hact⟩ <;> rw [step, hact] <;> exact .refl _
  | openStream i input options =>
    rcases s.onThread_cases i with ⟨t, -, hact⟩ | ⟨-, hact⟩ <;> rw [step, hact] <;> exact .refl _
  | run i input options =>
    rcases s.onThread_cases i with ⟨t, ht, -⟩ | ⟨ht, hact⟩
    · rw [step_run ht, called, begins?, ht]
      exact (s.scene t).gains_run input options
    · rw [step, hact, called, begins?, ht]
      exact .refl _
  | next k =>
    rcases s.called_cases k with ⟨i, e, t, hk, ht, hcalled⟩ | ⟨hact, hcalled⟩
    · rw [step, onStream_eq hk ht, hcalled]
      exact (s.scene t).gains_next e
    · rw [step, hact, hcalled]
      exact .refl _
  | drain k =>
    rw [show s.called (.drain k) = s.called (.next k) from rfl]
    rcases s.called_cases k with ⟨i, e, t, hk, ht, hcalled⟩ | ⟨hact, hcalled⟩
    · rw [step, onStream_eq hk ht, hcalled]
      exact (s.scene t).gains_drain collectEvents [] e
    · rw [step, hact, hcalled]
      exact .refl _
  | closeStream k =>
    rcases s.onStream_cases k with ⟨i, e, t, hk, ht⟩ | ⟨hact, -⟩
    · rw [step, onStream_eq hk ht]
      exact ((s.scene t).advances_close e).gains
    · rw [step, hact]
      exact .refl _

/-- A process of that call is one for a request. -/
theorem started_of_mem_called {s : Session} {x : Step} {call : Call} (h : call ∈ s.called x) :
    call.Started fun p => ∃ r schema, s.client.Starts r schema p := by
  rw [called] at h
  split at h
  · obtain ⟨a, hstarted⟩ := Scene.exists_accepted_of_mem_called h
    exact hstarted.imp fun p hp => ⟨a.request, a.schemaText, hp⟩
  · exact absurd h List.not_mem_nil

/-- **What holds of every process at its start** holds of all the processes of a session. -/
theorem forall_started_steps {P : ProcessRecord → Prop} {s : Session}
    (hP : ∀ c r schema p, s.client.Becomes c → c.Starts r schema p → P p)
    (hj : ∀ call ∈ s.client.journal, call.Started P) (xs : List Step) :
    ∀ call ∈ (s.steps xs).2.client.journal, call.Started P := by
  induction xs generalizing s with
  | nil => exact hj
  | cons x xs ih =>
    -- The client behind a step is one that the client before it becomes, so what holds of all of
    -- these goes on to hold.
    refine ih (fun c r schema p hc => hP c r schema p ((s.becomes_step x).trans hc)) ?_
    refine (s.gains_step x).forall_started hj fun call hcall => ?_
    exact (started_of_mem_called hcall).imp fun p ⟨r, schema, hp⟩ => hP _ r schema p (.refl _) hp

end Session

/-! ## The call of the program

The program runs one turn on a client of its own, in one of three formats. Whichever it is, the
journal in the end is the call of that turn. -/

namespace CommandLine

/-- **A turn in any format** adds its call. -/
theorem gains_shownTurn (limits : CopyLimits) (format : OutputFormat) (s : Scene) (input : Input)
    (options : TurnOptions) :
    Journal.Gains s.client.journal (shownTurn limits format s input options).2.2.client.journal
      (s.called input options) := by
  -- To show the turn calls nothing.
  have hwhole : ∀ format, Journal.Gains s.client.journal
      (wholeTurn limits format s input options).2.2.client.journal (s.called input options) := by
    intro format
    have hgains := s.gains_run input options
    rw [wholeTurn]
    rcases hr : s.run input options with ⟨f | t, s'⟩
    · rw [hr] at hgains
      exact hgains
    · rw [hr] at hgains
      dsimp only
      cases showTurn limits format t s'.thread.id <;> exact hgains
  cases format with
  | stream => exact s.gains_drain (showEvent limits) "" (.unstarted input options)
  | text => exact hwhole .text
  | json => exact hwhole .json

variable {w : World} {words : List String} {a : RunArguments} {schema : Value} {c : Client}

/-- **The journal of the program** is the call of its turn. -/
theorem gains_run (hwords : invocation words = .ok (.run a)) (h : prepare w a = .ok (schema, c)) :
    Journal.Gains [] (run w words).journal
      ((sceneOf c a).called (inputOf w a) (turnOptionsOf a schema)) := by
  obtain ⟨o, -, hc⟩ := exists_ofOptions_of_prepare h
  have hgains := gains_shownTurn w.surroundings.copyLimits a.output (sceneOf c a) (inputOf w a)
    (turnOptionsOf a schema)
  rw [show (sceneOf c a).client.journal
    = [] from (Client.isFresh_ofOptions hc).journal_eq] at hgains
  rw [run_of_prepare hwords h rfl]
  exact hgains

/-- **A process of the program** is one for the request of its turn. -/
theorem exists_starts_of_mem_journal (hwords : invocation words = .ok (.run a)) {p : ProcessRecord}
    (hp : .process p ∈ (run w words).journal) :
    ∃ schema c, prepare w a = .ok (schema, c) ∧
      ∃ turn : Accepted (sceneOf c a) (inputOf w a) (turnOptionsOf a schema),
        c.Starts turn.request turn.schemaText p.atStart := by
  cases hprepare : prepare w a with
  | error f =>
    rw [run_of_prepare_error hwords hprepare] at hp
    exact absurd hp List.not_mem_nil
  | ok prepared =>
    obtain ⟨schema, c⟩ := prepared
    refine ⟨schema, c, rfl, (gains_run hwords hprepare).forall_started (P := fun p =>
      ∃ turn : Accepted (sceneOf c a) (inputOf w a) (turnOptionsOf a schema),
        c.Starts turn.request turn.schemaText p) nofun (fun call hcall => ?_) _ hp⟩
    obtain ⟨turn, hstarted⟩ := Scene.exists_accepted_of_mem_called hcall
    exact hstarted.imp fun p hp => ⟨turn, hp⟩

end CommandLine

end AgentClient
