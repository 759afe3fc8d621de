import AgentClient.Proofs.Child.Cleanup
import AgentClient.Proofs.Conversation.Identity

/-!
# Proofs/Conversation/ConfigFailures — mistakes in a configuration show before any process

A turn that is started has its command written first, and a mistake in its options shows there.
Once a process is started the turn may fail of many things, but of no mistake in the configuration
(`LiveTurn.IsPastConfig`): neither a child, nor a line, nor a receiver makes such a failure.  So an
operation that ends with one has ended in its start, where no call was made and the schema directory
has been taken back (`Scene.Prudent`). -/

namespace AgentClient

/-! ## Failures of other kinds

A failure of the configuration is made in a few places only, all of them on the way to a process.
Here the other places are gone through: lines, events, answers, and the ways in which a child may
end. -/

/-- No line fails for the configuration. -/
theorem Event.isConfig_of_parse {line : String} {f : Failure} (h : parse line = .error f) :
    f.isConfig = false := by
  revert h
  rw [parse]
  -- Whatever is wrong with a line is a fault of the protocol, and one that is let through is a
  -- fault of the program.
  split
  · rintro ⟨⟩
    rfl
  · rintro ⟨⟩
    rfl
  · split
    · rintro ⟨⟩
    · split <;> rintro ⟨⟩ <;> rfl
  · rintro ⟨⟩
    rfl

/-- No event does, … -/
theorem Turn.isConfig_of_add {t : Turn} {id : Option WireText} {e : Event} {f : Failure}
    (h : t.add id e = .error f) : f.isConfig = false := by
  cases e with
  | turnFailed text | error text =>
    obtain rfl := Except.error.inj h
    rfl
  | item stage i => cases stage <;> exact absurd h nofun
  | _ => exact absurd h nofun

/-- … and no answer. -/
theorem Turn.isConfig_of_check {t : Turn} {model : Option RecordModel} {f : Failure}
    (h : t.check model = .error f) : f.isConfig = false := by
  cases model with
  | none => exact absurd h nofun
  | some m =>
    revert h
    rw [Turn.check, RecordModel.validate]
    cases m.check t.finalResponse with
    | ok record => rintro ⟨⟩
    | error found =>
      rintro ⟨⟩
      rfl

theorem isConfig_silenceFailure (timeout : Value) (deadline : Deadline) :
    (silenceFailure timeout deadline).isConfig = false := by
  cases deadline <;> rfl

/-- No child makes a turn fail for the configuration. -/
theorem Delivery.isConfig_ofScript (executable : String) (timeout : Value) (deadline : Deadline)
    (s : Script) :
    (ofScript executable timeout deadline s).failure.any Failure.isConfig = false := by
  have hsilence := isConfig_silenceFailure timeout deadline
  -- A child that takes the prompt ends by its exit or in silence; one that ignores it is silent,
  -- and one without pipes could not be asked.
  by_cases hs : s.AnswersPrompt
  · rw [hs.ofScript_eq]
    split
    · dsimp only [exitFailure]
      split <;> rfl
    · exact hsilence
  · rw [ofScript]
    cases hpipes : s.hasPipes with
    | false => rfl
    | true =>
      have hprompt : s.prompt = .ignored := by
        by_contra hne
        exact hs ⟨hpipes, hne⟩
      rw [hprompt]
      exact hsilence

/-- The failure that a result is. -/
def Failure.of? {α : Type} : Except Failure α → Option Failure
  | .ok _ => none
  | .error f => some f

/-- The failure that asking for an event gives. -/
def Pull.failure? : Pull → Option Failure
  | .failed f => some f
  | _ => none

/-! ## Clients that run processes

An agent in memory writes no command and so never finds a mistake in the options of a thread. The
statements are about clients with an executable. -/

/-- **Nothing was done outside**: the calls and the schema directories are those before. -/
structure Client.Untouched (c c' : Client) : Prop where
  journal_eq : c'.journal = c.journal
  directories_eq : c'.directories = c.directories

namespace Client

variable {c c' : Client}

@[simp] theorem runsProcesses_makeDirectory (hasSchema : Bool) :
    (c.makeDirectory hasSchema).runsProcesses = c.runsProcesses := by
  cases hasSchema <;> rfl

@[simp] theorem runsProcesses_removeDirectory (hasSchema : Bool) :
    (c.removeDirectory hasSchema).runsProcesses = c.runsProcesses := by
  cases hasSchema <;> rfl

@[simp] theorem runsProcesses_settle (f : Feed) (exitSeen : Bool) :
    (c.settle f exitSeen).runsProcesses = c.runsProcesses := by
  have hagent : (c.settle f exitSeen).agent = c.agent := by
    rw [settle]
    cases c.runsProcesses <;> rfl
  rw [runsProcesses, hagent, runsProcesses]

/-- A client whose turns run processes has an executable. -/
theorem exists_agent (h : c.runsProcesses = true) :
    ∃ e scripts, c.agent = .executable e scripts := by
  rw [runsProcesses] at h
  split at h
  · next e scripts hagent => exact ⟨e, scripts, hagent⟩
  · exact absurd h Bool.false_ne_true

/-- Making a directory and taking it back leaves as many as before. -/
theorem untouched_removeDirectory {hasSchema : Bool}
    (h : (c.makeDirectory hasSchema).Untouched c') :
    c.Untouched (c'.removeDirectory hasSchema) := by
  refine ⟨?_, ?_⟩
  · rw [journal_removeDirectory, h.journal_eq, journal_makeDirectory]
  · rw [directories_removeDirectory, h.directories_eq, directories_makeDirectory,
      Nat.add_sub_cancel]

/-- **A turn that is asked of an executable** fails for the configuration before anything is done
outside; a turn that has its answer to give does not fail for it any more. -/
theorem launch_prudent (hc : c.runsProcesses = true) (r : TurnRequest) (schema : Option String) :
    (c.launch r schema).2.runsProcesses = true ∧
      (∀ feed, (c.launch r schema).1 = .ok feed → feed.failure.any Failure.isConfig = false) ∧
      ((Failure.of? (c.launch r schema).1).any Failure.isConfig = true →
        c.Untouched (c.launch r schema).2) := by
  obtain ⟨e, scripts, hagent⟩ := exists_agent hc
  -- A command that cannot be written and a timeout that cannot be waited for show before anything
  -- is called; what is called cannot fail so any more.
  rcases launch_cases hagent r schema with
    ⟨f, -, h⟩ | ⟨command, fault, -, -, h⟩ | ⟨command, error, -, h⟩ | ⟨p, -⟩
  · rw [h]
    exact ⟨hc, fun _ hfeed => absurd hfeed nofun, fun _ => ⟨rfl, rfl⟩⟩
  · rw [h]
    exact ⟨hc, fun _ hfeed => absurd hfeed nofun, fun _ => ⟨rfl, rfl⟩⟩
  · rw [h]
    exact ⟨rfl, fun _ hfeed => absurd hfeed nofun, fun hconfig => absurd hconfig Bool.false_ne_true⟩
  · rw [p.launch_eq schema]
    refine ⟨rfl, fun feed hfeed => ?_, fun hconfig => absurd hconfig Bool.false_ne_true⟩
    obtain rfl := Except.ok.inj hfeed
    exact Delivery.isConfig_ofScript ..

/-- The failure that ends reading lines. -/
def LineEnd.failure? : LineEnd → Option Failure
  | .failed f => some f
  | _ => none

/-- **Reading the lines of a turn** that fails for the configuration has done nothing outside. -/
theorem untouched_readLines (hc : c.runsProcesses = true) (r : TurnRequest) (schema : Option String)
    (limit : Option Nat)
    (h : (c.readLines r schema limit).2.1.failure?.any Failure.isConfig = true) :
    c.Untouched (c.readLines r schema limit).2.2 := by
  obtain ⟨-, hstarted, hfailed⟩ := launch_prudent hc r schema
  revert h
  rw [readLines]
  generalize c.launch r schema = launched at hstarted hfailed ⊢
  -- A launch that fails leaves the client as it says; behind a launch the configuration has been
  -- looked at.
  obtain ⟨f | feed, c'⟩ := launched
  · exact hfailed
  · have hpast : feed.failure.any Failure.isConfig = false := hstarted feed rfl
    dsimp only [readFeed]
    split
    · exact fun h => absurd h Bool.false_ne_true
    · cases hf : feed.failure with
      | none => exact fun h => absurd h Bool.false_ne_true
      | some f =>
        rw [hf] at hpast
        exact fun h => absurd (hpast.symm.trans h) Bool.false_ne_true

end Client

/-! ## The operations of a thread

`Prudent` is what an operation from anywhere keeps, `IsPastConfig` what it keeps once a turn has
started. The second is the stronger one, and a turn that is past the configuration stays so. -/

/-- **A turn that is past its configuration**: what comes behind its lines is no failure of that. -/
def LiveTurn.IsPastConfig (t : LiveTurn) : Prop :=
  t.feed.failure.any Failure.isConfig = false

/-- A stream whose turn, if it runs, is past its configuration. -/
def EventStream.IsPastConfig : EventStream → Prop
  | .live t => t.IsPastConfig
  | _ => True

namespace Scene

/-- **An operation that is past the configuration**: the client runs processes still, and the
failure is of another kind, if there is one. -/
structure IsPastConfig (failure : Option Failure) (s' : Scene) : Prop where
  runsProcesses : s'.client.runsProcesses = true
  isConfig_eq : failure.any Failure.isConfig = false

/-- **A prudent operation**: the client runs processes still, and if the operation has failed for
the configuration, nothing was done outside. -/
structure Prudent (s : Scene) (failure : Option Failure) (s' : Scene) : Prop where
  runsProcesses : s'.client.runsProcesses = true
  untouched : failure.any Failure.isConfig = true → s.client.Untouched s'.client

variable {s s' : Scene} {t : LiveTurn}

/-- What is past the configuration is prudent, wherever it began. -/
theorem IsPastConfig.prudent {failure : Option Failure} (h : IsPastConfig failure s') (s : Scene) :
    s.Prudent failure s' :=
  ⟨h.runsProcesses, fun hconfig =>
    absurd (h.isConfig_eq.symm.trans hconfig) Bool.false_ne_true⟩

/-- So is what does not fail. -/
theorem prudent_none (s : Scene) (h : s'.client.runsProcesses = true) : s.Prudent none s' :=
  ⟨h, fun hconfig => absurd hconfig Bool.false_ne_true⟩

theorem isPastConfig_release (hs : s.client.runsProcesses = true) (t : LiveTurn) (exitSeen : Bool)
    {failure : Option Failure} (h : failure.any Failure.isConfig = false) :
    IsPastConfig failure (s.release t exitSeen) :=
  ⟨by simpa [release] using hs, h⟩

theorem runsProcesses_notice (s : Scene) (e : Event) :
    (s.notice e).client.runsProcesses = s.client.runsProcesses := by
  cases e <;> rfl

/-- **Starting an accepted turn** is prudent, and the turn is past its configuration then. -/
theorem prudent_occupy (hs : s.client.runsProcesses = true) (prompt : String) (images : List Value)
    (schema : Option Table) (timeout : Value) :
    s.Prudent (Failure.of? (s.occupy prompt images schema timeout).1)
        (s.occupy prompt images schema timeout).2 ∧
      ∀ t ∈ begun (s.occupy prompt images schema timeout).1, t.IsPastConfig := by
  dsimp only [occupy]
  -- The directory for the schema is made first of all, so wherever the start fails it is removed
  -- again.
  cases SchemaFile.ofSchema? (s.client.makeDirectory schema.isSome).surroundings.schemaDirectory
      schema with
  | error f =>
    refine ⟨⟨by simpa using hs, fun _ => ?_⟩, fun t ht => absurd ht List.not_mem_nil⟩
    exact Client.untouched_removeDirectory ⟨rfl, rfl⟩
  | ok file =>
    have hmade : (s.client.makeDirectory schema.isSome).runsProcesses = true := by simpa using hs
    obtain ⟨hruns, hstarted, hfailed⟩ := Client.launch_prudent hmade
      (s.request prompt images file timeout) (file.map (·.text))
    dsimp only
    rcases hl : (s.client.makeDirectory schema.isSome).launch
        (s.request prompt images file timeout) (file.map (·.text)) with ⟨f | feed, c⟩
    · -- the directory was made before the command was written
      rw [hl] at hruns hfailed ⊢
      refine ⟨⟨by simpa using hruns, fun hconfig => ?_⟩, fun t ht => absurd ht List.not_mem_nil⟩
      exact Client.untouched_removeDirectory (hfailed hconfig)
    · rw [hl] at hruns hstarted ⊢
      refine ⟨prudent_none s hruns, fun t ht => ?_⟩
      obtain rfl := List.mem_singleton.mp ht
      exact hstarted feed rfl

/-- **Starting a turn** is prudent, and the turn is past its configuration then. -/
theorem prudent_start (hs : s.client.runsProcesses = true) (input : Input) (options : TurnOptions) :
    s.Prudent (Failure.of? (s.start input options).1) (s.start input options).2 ∧
      ∀ t ∈ begun (s.start input options).1, t.IsPastConfig := by
  have hrefused : ∀ f : Failure, s.Prudent (some f) s ∧
      ∀ t ∈ begun (.error f), t.IsPastConfig := fun _ =>
    ⟨⟨hs, fun _ => ⟨rfl, rfl⟩⟩, fun t ht => absurd ht List.not_mem_nil⟩
  dsimp only [start]
  -- Nothing has happened where the thread is busy, or the schema or the input is refused.
  cases s.thread.running with
  | true => exact hrefused _
  | false =>
    cases OutputSchema.resolve options.outputSchema with
    | error f => exact hrefused f
    | ok schema =>
      cases input.normalize with
      | error f => exact hrefused f
      | ok request => exact prudent_occupy hs _ _ _ _

/-- **Asking a running turn for an event** fails of other things only. -/
theorem isPastConfig_pull (hs : s.client.runsProcesses = true) (ht : t.IsPastConfig) :
    IsPastConfig (s.pull t).1.failure? (s.pull t).2.1 ∧ (s.pull t).2.2.IsPastConfig := by
  dsimp only [pull]
  -- A line fails as no event, and the end with what the feed holds: neither is about the
  -- configuration.
  cases t.feed.lines with
  | nil =>
    rw [LiveTurn.IsPastConfig] at ht
    dsimp only [finish]
    cases hf : t.feed.failure with
    | none => exact ⟨isPastConfig_release hs t _ rfl, trivial⟩
    | some f =>
      rw [hf] at ht
      exact ⟨isPastConfig_release hs t _ ht, trivial⟩
  | cons line rest =>
    dsimp only [takeLine]
    cases hp : Event.parse line with
    | error f =>
      exact ⟨isPastConfig_release hs t false (Event.isConfig_of_parse hp), trivial⟩
    | ok e => exact ⟨⟨(s.runsProcesses_notice e).trans hs, rfl⟩, ht⟩

/-- **Asking a stream for an event** is prudent. -/
theorem prudent_next (hs : s.client.runsProcesses = true) {e : EventStream} (he : e.IsPastConfig) :
    s.Prudent (s.next e).1.failure? (s.next e).2.1 ∧ (s.next e).2.2.IsPastConfig := by
  cases e with
  | ended => exact ⟨prudent_none s hs, trivial⟩
  | live t =>
    obtain ⟨hpull, hstream⟩ := isPastConfig_pull hs he
    exact ⟨hpull.prudent s, hstream⟩
  | unstarted input options =>
    obtain ⟨hstart, hturn⟩ := prudent_start hs input options
    dsimp only [next]
    -- Only the start can find a mistake in the configuration, and then it is all that has happened.
    rcases hst : s.start input options with ⟨f | t, s'⟩
    · rw [hst] at hstart
      exact ⟨hstart, trivial⟩
    · rw [hst] at hstart hturn
      obtain ⟨hpull, hstream⟩ := isPastConfig_pull hstart.runsProcesses
        (hturn t (List.mem_singleton_self t))
      exact ⟨hpull.prudent s, hstream⟩

/-- Closing a stream keeps the client running processes. -/
theorem runsProcesses_close (hs : s.client.runsProcesses = true) (e : EventStream) :
    (s.close e).client.runsProcesses = true := by
  cases e with
  | live t =>
    have hrelease : IsPastConfig none (s.release t false) := isPastConfig_release hs t false rfl
    exact hrelease.runsProcesses
  | _ => exact hs

section

variable {σ : Type} (receive : σ → Thread → Event → Except Failure σ)
  (hreceive : ∀ {state thread e f}, receive state thread e = .error f → f.isConfig = false)

include hreceive

/-- **A running turn that is given to a receiver** fails of other things only, if the receiver does.
-/
theorem isPastConfig_deliver (ht : t.IsPastConfig) (lines : List String)
    (hs : s.client.runsProcesses = true) (state : σ) :
    IsPastConfig (deliver receive t lines s state).1 (deliver receive t lines s state).2.2 := by
  -- Along the lines: no line, no end and nothing that the receiver finds is about the
  -- configuration.
  induction lines generalizing s state with
  | nil =>
    rw [LiveTurn.IsPastConfig] at ht
    dsimp only [deliver, finish]
    cases hf : t.feed.failure with
    | none => exact isPastConfig_release hs t _ rfl
    | some f =>
      rw [hf] at ht
      exact isPastConfig_release hs t _ ht
  | cons line rest ih =>
    dsimp only [deliver, takeLine]
    cases hp : Event.parse line with
    | error f => exact isPastConfig_release hs t _ (Event.isConfig_of_parse hp)
    | ok e =>
      have hs' : (s.notice e).client.runsProcesses = true := (s.runsProcesses_notice e).trans hs
      dsimp only
      cases hr : receive state (s.notice e).thread e with
      | error f => exact isPastConfig_release hs' t _ (hreceive hr)
      | ok state' => exact ih hs' state'

/-- **Giving the events of a stream to a receiver** is prudent. -/
theorem prudent_drain (hs : s.client.runsProcesses = true) {e : EventStream} (he : e.IsPastConfig)
    (state : σ) :
    s.Prudent (s.drain receive state e).1 (s.drain receive state e).2.2 := by
  cases e with
  | ended => exact prudent_none s hs
  | live t => exact (isPastConfig_deliver receive hreceive he _ hs state).prudent s
  | unstarted input options =>
    obtain ⟨hstart, hturn⟩ := prudent_start hs input options
    dsimp only [drain]
    -- As for a single event: what the start has found is all, or the configuration is behind us.
    rcases hst : s.start input options with ⟨f | t, s'⟩
    · rw [hst] at hstart
      exact hstart
    · rw [hst] at hstart hturn
      exact (isPastConfig_deliver receive hreceive (hturn t (List.mem_singleton_self t)) _
        hstart.runsProcesses state).prudent s

end

/-- **Running a turn to its end** is prudent. -/
theorem prudent_run (hs : s.client.runsProcesses = true) (input : Input) (options : TurnOptions) :
    s.Prudent (Failure.of? (s.run input options).1) (s.run input options).2 := by
  cases hschema : OutputSchema.resolve options.outputSchema with
  | error f =>
    rw [run, hschema]
    exact ⟨hs, fun _ => ⟨rfl, rfl⟩⟩
  | ok schema =>
    have hdrain := prudent_drain addTo Turn.isConfig_of_add hs (e := .unstarted input options)
      trivial {}
    rw [run_of_resolve hschema]
    generalize s.drain addTo {} (.unstarted input options) = drained at hdrain ⊢
    obtain ⟨_ | f, turn, s'⟩ := drained
    · dsimp only
      -- What is checked of the result at the end is not the configuration.
      cases hcheck : turn.check schema.model with
      | ok turn' => exact prudent_none s hdrain.runsProcesses
      | error f =>
        have hpast : IsPastConfig (some f) s' :=
          ⟨hdrain.runsProcesses, Turn.isConfig_of_check hcheck⟩
        exact hpast.prudent s
    · exact hdrain

end Scene

/-! ## The steps of a session

A step hands one scene to an operation and puts back what is left. What has to be kept from step to
step is that every turn that runs is past its configuration. -/

/-- The failure that a step gives. -/
def StepResult.failure? : StepResult → Option Failure
  | .failed f => some f
  | .events _ failure => failure
  | _ => none

namespace Session

/-- Keeping an event never fails. -/
theorem isConfig_of_collectEvents {events : List Event} {thread : Thread} {e : Event} {f : Failure}
    (h : collectEvents events thread e = .error f) : f.isConfig = false := by
  cases h

/-- **A session that runs processes**, whose running turns are past their configuration. -/
structure RunsProcesses (s : Session) : Prop where
  client : s.client.runsProcesses = true
  streams : ∀ x ∈ s.streams, x.2.IsPastConfig

theorem RunsProcesses.fresh {c : Client} (hc : c.runsProcesses = true) :
    RunsProcesses ⟨c, [], []⟩ :=
  ⟨hc, fun _ hx => absurd hx List.not_mem_nil⟩

/-- **A prudent step**: the session runs processes still, and if the step has failed for the
configuration, nothing was done outside. -/
structure Prudent (s : Session) (r : StepResult × Session) : Prop where
  runsProcesses : r.2.RunsProcesses
  untouched : r.1.failure?.any Failure.isConfig = true → s.client.Untouched r.2.client

namespace RunsProcesses

variable {s : Session} {result : StepResult} {t : Thread} {scene : Scene}

/-- A step that neither fails nor does anything with the client. -/
theorem prudent_of_client_eq (h : s.RunsProcesses) {s' : Session} (hclient : s'.client = s.client)
    (hstreams : ∀ x ∈ s'.streams, x.2.IsPastConfig) : s.Prudent (result, s') :=
  ⟨⟨hclient ▸ h.client, hstreams⟩, fun _ => hclient ▸ ⟨rfl, rfl⟩⟩

/-- An operation on a thread that is prudent makes a prudent step. -/
theorem prudent_after (h : s.RunsProcesses) (hp : (s.scene t).Prudent result.failure? scene)
    (thread : Nat) : s.Prudent (result, s.after thread scene) :=
  ⟨⟨hp.runsProcesses, h.streams⟩, hp.untouched⟩

/-- So does one on a stream. -/
theorem prudent_putStream (h : s.RunsProcesses) (hp : (s.scene t).Prudent result.failure? scene)
    {e : EventStream} (he : e.IsPastConfig) (stream thread : Nat) :
    s.Prudent (result, (s.after thread scene).putStream stream thread e) := by
  refine ⟨⟨hp.runsProcesses, fun x hx => ?_⟩, hp.untouched⟩
  rcases List.mem_or_eq_of_mem_set hx with hx | rfl
  · exact h.streams x hx
  · exact he

/-- A step that changes nothing. -/
theorem prudent_self (h : s.RunsProcesses) (result : StepResult) : s.Prudent (result, s) :=
  h.prudent_of_client_eq rfl h.streams

/-- What is done with a thread is prudent if it is so with one that is there. -/
theorem prudent_onThread (h : s.RunsProcesses) {thread : Nat} {act : Thread → StepResult × Session}
    (hact : ∀ t, s.Prudent (act t)) : s.Prudent (s.onThread thread act) := by
  rw [onThread]
  split
  · exact hact _
  · exact h.prudent_self .absent

/-- So it is with a stream, whose turn is past its configuration. -/
theorem prudent_onStream (h : s.RunsProcesses) {stream : Nat}
    {act : Nat → Thread → EventStream → StepResult × Session}
    (hact : ∀ thread t e, e.IsPastConfig → s.Prudent (act thread t e)) :
    s.Prudent (s.onStream stream act) := by
  rw [onStream]
  split
  next thread e hk =>
    exact h.prudent_onThread fun t => hact thread t e (h.streams _ (List.mem_of_getElem? hk))
  next => exact h.prudent_self .absent

theorem prudent_run (h : s.RunsProcesses) (thread : Nat) (input : Input) (options : TurnOptions) :
    s.Prudent (s.step (.run thread input options)) := by
  refine h.prudent_onThread fun t => ?_
  have hrun := Scene.prudent_run (s := s.scene t) h.client input options
  generalize (s.scene t).run input options = ran at hrun ⊢
  obtain ⟨f | turn, scene⟩ := ran
  · exact h.prudent_after hrun thread
  · exact h.prudent_after hrun thread

theorem prudent_next (h : s.RunsProcesses) (stream : Nat) :
    s.Prudent (s.step (.next stream)) := by
  refine h.prudent_onStream fun thread t e he => ?_
  obtain ⟨hnext, hstream⟩ := Scene.prudent_next (s := s.scene t) h.client he
  have hfailure : (pullResult ((s.scene t).next e).1).failure?
      = ((s.scene t).next e).1.failure? := by
    cases ((s.scene t).next e).1 <;> rfl
  exact h.prudent_putStream (hfailure ▸ hnext) hstream stream thread

/-- **Every step** is prudent. -/
theorem prudent_step (h : s.RunsProcesses) (x : Step) : s.Prudent (s.step x) := by
  -- Whatever is done with a thread or a stream is prudent on its scene, and the streams of the
  -- session stay past their configuration.
  cases x with
  | startThread options | resumeThread id options => exact h.prudent_of_client_eq rfl h.streams
  | clientOptions => exact h.prudent_self _
  | threadId i => exact h.prudent_onThread fun _ => h.prudent_self _
  | openStream i input options =>
    refine h.prudent_onThread fun t => h.prudent_of_client_eq rfl fun x hx => ?_
    rcases List.mem_append.mp hx with hx | hx
    · exact h.streams x hx
    · rw [List.mem_singleton.mp hx]
      trivial
  | run i input options => exact h.prudent_run i input options
  | next k => exact h.prudent_next k
  | drain k =>
    refine h.prudent_onStream fun i t e he => ?_
    have hdrain := Scene.prudent_drain collectEvents isConfig_of_collectEvents
      (s := s.scene t) h.client he []
    exact h.prudent_putStream (e := .ended) hdrain trivial k i
  | closeStream k =>
    refine h.prudent_onStream fun i t e he => ?_
    have hclose := Scene.runsProcesses_close (s := s.scene t) h.client e
    exact h.prudent_putStream (e := .ended) (Scene.prudent_none (s.scene t) hclose) trivial k i

/-- **Any steps** keep a session running processes. -/
theorem steps (h : s.RunsProcesses) (xs : List Step) : (s.steps xs).2.RunsProcesses := by
  induction xs generalizing s with
  | nil => exact h
  | cons x xs ih => exact ih (h.prudent_step x).runsProcesses

end RunsProcesses

end Session

end AgentClient
