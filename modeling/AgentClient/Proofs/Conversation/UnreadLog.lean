import AgentClient.Proofs.Conversation.Independence

/-!
# Proofs/Conversation/UnreadLog — the log is written and never read

Lines in front of the log of a client stay in front of it, and change nothing else, whatever is done
with the client (`Scene.run_logged`, `Scene.next_logged`, `Scene.drain_logged`).  So two clients
that differ in their logs only cannot be told apart, and neither can two sessions over such clients:
**the same steps give the same reports on both** (`Session.AlikeBut.steps`), if they ask no stream
that is different in the two.
-/

namespace AgentClient

/-! ## Clients

Lines are put in front of the log, since a client adds its own behind them. Each operation of a
client commutes with that, and gives the same. -/

namespace Client

variable {c c' : Client} (lines : List LogLine)

/-- A client with lines in front of its log. -/
def logged (c : Client) : Client :=
  { c with log := lines ++ c.log }

@[simp] theorem note_logged (new : List LogLine) :
    (c.logged lines).note new = (c.note new).logged lines := by
  simp [note, logged]

@[simp] theorem makeDirectory_logged (hasSchema : Bool) :
    (c.logged lines).makeDirectory hasSchema = (c.makeDirectory hasSchema).logged lines := by
  cases hasSchema <;> rfl

@[simp] theorem removeDirectory_logged (hasSchema : Bool) :
    (c.logged lines).removeDirectory hasSchema = (c.removeDirectory hasSchema).logged lines := by
  cases hasSchema with
  | false => rfl
  | true => simp [removeDirectory, note, logged]

@[simp] theorem settle_logged (f : Feed) (exitSeen : Bool) :
    (c.logged lines).settle f exitSeen = (c.settle f exitSeen).logged lines := by
  have hkind : (c.logged lines).runsProcesses = c.runsProcesses := rfl
  rw [settle, settle, hkind]
  split
  · rw [note_logged]
    rfl
  · rfl

/-- **What a client is asked** does not depend on its log. -/
theorem launch_logged (r : TurnRequest) (schema : Option String) :
    (c.logged lines).launch r schema
      = ((c.launch r schema).1, (c.launch r schema).2.logged lines) := by
  have hagent : (c.logged lines).agent = c.agent := rfl
  rw [launch, launch, hagent]
  -- A launch looks at the agent, the command, the deadline and the child, and at no line of the
  -- log.
  cases c.agent with
  | memory replies => rfl
  | executable e scripts =>
    dsimp only
    rw [launchProcess, launchProcess]
    cases e.command r with
    | error f => rfl
    | ok command =>
      dsimp only
      rw [note_logged]
      cases Deadline.ofTimeout r.timeout with
      | error f => rfl
      | ok deadline =>
        dsimp only
        cases (takeScript scripts).1.refusal with
        | some error => rfl
        | none => simp [note, logged]

/-- Clients of which only the log differs have the same one in common. -/
theorem Unmoved.exists_logged (h : c.Unmoved c') :
    ∃ bare lines lines', c = logged lines bare ∧ c' = logged lines' bare := by
  obtain ⟨surroundings, options, agent, journal, directories, log⟩ := c
  obtain ⟨surroundings', options', agent', journal', directories', log'⟩ := c'
  obtain ⟨hsurroundings, hoptions, hagent, hjournal, hdirectories⟩ := h
  dsimp only at hsurroundings hoptions hagent hjournal hdirectories
  subst hsurroundings hoptions hagent hjournal hdirectories
  refine ⟨⟨surroundings', options', agent', journal', directories', []⟩, log, log', ?_, ?_⟩ <;>
    rw [logged, List.append_nil]

theorem unmoved_logged (lines lines' : List LogLine) (c : Client) :
    (c.logged lines).Unmoved (c.logged lines') :=
  ⟨rfl, rfl, rfl, rfl, rfl⟩

end Client

/-! ## Scenes

A scene hands the log to its client and never asks for it. The lemmas follow the operations from
letting go of a turn up to running one, each by the equations of those before it. -/

namespace Scene

variable {s m : Scene} (lines : List LogLine)

/-- A scene with lines in front of the log. -/
def logged (s : Scene) : Scene :=
  { s with client := s.client.logged lines }

@[simp] theorem thread_logged : (s.logged lines).thread = s.thread :=
  rfl

@[simp] theorem release_logged (t : LiveTurn) (exitSeen : Bool) :
    (s.logged lines).release t exitSeen = (s.release t exitSeen).logged lines := by
  simp [release, logged]

@[simp] theorem notice_logged (e : Event) :
    (s.logged lines).notice e = (s.notice e).logged lines := by
  cases e with
  | threadStarted id => simp [notice, logged]
  | _ => rfl

/-- So it is where the thread is taken: the directory, the schema file and the launch stand in the
order of the turn. -/
theorem occupy_logged (prompt : String) (images : List Value) (schema : Option Table)
    (timeout : Value) :
    (s.logged lines).occupy prompt images schema timeout
      = ((s.occupy prompt images schema timeout).1,
        (s.occupy prompt images schema timeout).2.logged lines) := by
  have hdirectory : (s.client.logged lines).makeDirectory schema.isSome
      = (s.client.makeDirectory schema.isSome).logged lines := s.client.makeDirectory_logged lines _
  have hsurroundings : ((s.client.makeDirectory schema.isSome).logged lines).surroundings
      = (s.client.makeDirectory schema.isSome).surroundings := rfl
  have hclient : (s.logged lines).client = s.client.logged lines := rfl
  rw [occupy, occupy, hclient, hdirectory]
  dsimp only
  rw [hsurroundings]
  -- A schema that cannot be written ends the turn before the launch.
  cases SchemaFile.ofSchema? (s.client.makeDirectory schema.isSome).surroundings.schemaDirectory
      schema with
  | error f => simp [logged]
  | ok file =>
    have hrequest : (s.logged lines).request prompt images file timeout
        = s.request prompt images file timeout := rfl
    dsimp only
    rw [hrequest, Client.launch_logged]
    rcases (s.client.makeDirectory schema.isSome).launch _ _ with ⟨f | feed, c⟩ <;> simp [logged]

theorem start_logged (input : Input) (options : TurnOptions) :
    (s.logged lines).start input options
      = ((s.start input options).1, (s.start input options).2.logged lines) := by
  rw [start, start, thread_logged]
  cases s.thread.running with
  | true => rfl
  | false =>
    rcases OutputSchema.resolve options.outputSchema with f | schema
    · rfl
    · rcases input.normalize with f | ⟨prompt, images⟩
      · rfl
      · exact occupy_logged lines prompt images schema.schema options.timeout

theorem takeLine_logged (t : LiveTurn) (line : String) :
    (s.logged lines).takeLine t line
      = ((s.takeLine t line).1, (s.takeLine t line).2.logged lines) := by
  rw [takeLine, takeLine]
  cases Event.parse line <;> simp

theorem pull_logged (t : LiveTurn) :
    (s.logged lines).pull t
      = ((s.pull t).1, (s.pull t).2.1.logged lines, (s.pull t).2.2) := by
  rw [pull, pull]
  cases t.feed.lines with
  | nil => simp [finish]
  | cons line rest =>
    dsimp only
    rw [takeLine_logged]
    rcases s.takeLine t line with ⟨_ | _ | _, s'⟩ <;> rfl

/-- **What a stream gives** does not depend on the log. -/
theorem next_logged (e : EventStream) :
    (s.logged lines).next e = ((s.next e).1, (s.next e).2.1.logged lines, (s.next e).2.2) := by
  cases e with
  | ended => rfl
  | live t => exact pull_logged lines t
  | unstarted input options =>
    rw [next, next, start_logged]
    rcases s.start input options with ⟨f | t, s'⟩
    · rfl
    · exact pull_logged lines t

theorem close_logged (e : EventStream) :
    (s.logged lines).close e = (s.close e).logged lines := by
  cases e with
  | live t => exact release_logged lines t false
  | _ => rfl

section

variable {σ : Type} (receive : σ → Thread → Event → Except Failure σ)

/-- Along the lines of a turn. -/
theorem deliver_logged (t : LiveTurn) (rest : List String) (state : σ) :
    deliver receive t rest (s.logged lines) state
      = ((deliver receive t rest s state).1, (deliver receive t rest s state).2.1,
        (deliver receive t rest s state).2.2.logged lines) := by
  -- The log that is put in front stays in front at each line, whatever the line adds to it.
  induction rest generalizing s state with
  | nil =>
    rw [deliver, deliver, finish, finish, release_logged]
    cases t.feed.failure <;> rfl
  | cons line rest ih =>
    rw [deliver, deliver, takeLine_logged]
    rcases s.takeLine t line with ⟨e | _ | f, s'⟩
    · dsimp only
      rw [thread_logged]
      cases receive state s'.thread e with
      | ok state => exact ih state
      | error f => simp
    · rfl
    · rfl

/-- A stream that is drained: the turn is started first if it has not been. -/
theorem drain_logged (state : σ) (e : EventStream) :
    (s.logged lines).drain receive state e
      = ((s.drain receive state e).1, (s.drain receive state e).2.1,
        (s.drain receive state e).2.2.logged lines) := by
  cases e with
  | ended => rfl
  | live t => exact deliver_logged lines receive t _ state
  | unstarted input options =>
    rw [drain, drain, start_logged]
    rcases s.start input options with ⟨f | t, s'⟩
    · rfl
    · exact deliver_logged lines receive t _ state

end

/-- **What a run returns** does not depend on the log. -/
theorem run_logged (input : Input) (options : TurnOptions) :
    (s.logged lines).run input options
      = ((s.run input options).1, (s.run input options).2.logged lines) := by
  rcases hresolve : OutputSchema.resolve options.outputSchema with f | schema
  · rw [run, run, hresolve]
  · rw [run_of_resolve hresolve, run_of_resolve hresolve, drain_logged]
    rcases s.drain addTo {} (.unstarted input options) with ⟨_ | f, turn, s'⟩ <;> rfl

/-- **Two scenes of which only the log differs.** -/
structure SameButLog (s m : Scene) : Prop where
  client : s.client.Unmoved m.client
  thread_eq : m.thread = s.thread

theorem sameButLog_logged (lines lines' : List LogLine) (s : Scene) :
    SameButLog (s.logged lines) (s.logged lines') :=
  ⟨Client.unmoved_logged lines lines' s.client, rfl⟩

/-- Two scenes that differ in their log are one scene with a log put in front of it. -/
theorem SameButLog.exists_logged (h : s.SameButLog m) :
    ∃ bare lines lines', s = logged lines bare ∧ m = logged lines' bare := by
  obtain ⟨c, t⟩ := s
  obtain ⟨c', t'⟩ := m
  obtain ⟨hclient, hthread⟩ := h
  obtain ⟨bare, lines, lines', hc, hc'⟩ := hclient.exists_logged
  dsimp only at hc hc' hthread
  subst hc hc' hthread
  exact ⟨⟨bare, t'⟩, lines, lines', rfl, rfl⟩

end Scene

/-! ## Sessions

Two sessions are compared stream by stream, but for some odd streams that no step asks. Both are
brought to one bare session with different logs, where the lemmas about scenes apply. -/

/-- The stream that a step asks. -/
def Step.stream? : Step → Option Nat
  | .next k | .drain k | .closeStream k => some k
  | _ => none

namespace Session

variable {s p : Session} {odd : Nat → Prop}

/-- **Two sessions of which only the log differs**, and some odd streams. -/
structure AlikeBut (odd : Nat → Prop) (s p : Session) : Prop where
  client : s.client.Unmoved p.client
  threads_eq : p.threads = s.threads
  length_eq : p.streams.length = s.streams.length
  stream_eq : ∀ k, ¬ odd k → p.streams[k]? = s.streams[k]?

/-- A step on two sessions: it gives the same, and leaves them alike. -/
def AlikeStep (odd : Nat → Prop) (x y : StepResult × Session) : Prop :=
  y.1 = x.1 ∧ AlikeBut odd x.2 y.2

namespace AlikeBut

theorem refl (odd : Nat → Prop) (s : Session) : AlikeBut odd s s :=
  ⟨.refl _, rfl, rfl, fun _ _ => rfl⟩

theorem scene (h : AlikeBut odd s p) (t : Thread) : (s.scene t).SameButLog (p.scene t) :=
  ⟨h.client, rfl⟩

theorem addThread (h : AlikeBut odd s p) (t : Thread) :
    AlikeBut odd (s.addThread t) (p.addThread t) :=
  ⟨h.client, congrArg (· ++ [t]) h.threads_eq, h.length_eq, h.stream_eq⟩

theorem addStream (h : AlikeBut odd s p) (i : Nat) (e : EventStream) :
    AlikeBut odd (s.addStream i e) (p.addStream i e) := by
  refine ⟨h.client, h.threads_eq, ?_, fun k hk => ?_⟩
  · simp [Session.addStream, h.length_eq]
  · simp only [Session.addStream, List.getElem?_append, h.length_eq, h.stream_eq k hk]

theorem after (h : AlikeBut odd s p) (i : Nat) {m m' : Scene} (hm : m.SameButLog m') :
    AlikeBut odd (s.after i m) (p.after i m') :=
  ⟨hm.client, by rw [Session.after, Session.after, h.threads_eq, hm.thread_eq], h.length_eq,
    h.stream_eq⟩

theorem putStream (h : AlikeBut odd s p) (k i : Nat) (e : EventStream) :
    AlikeBut odd (s.putStream k i e) (p.putStream k i e) := by
  refine ⟨h.client, h.threads_eq, ?_, fun j hj => ?_⟩
  · simp [Session.putStream, h.length_eq]
  · simp only [Session.putStream, List.getElem?_set, h.length_eq, h.stream_eq j hj]

theorem onThread (h : AlikeBut odd s p) (i : Nat) {act act' : Thread → StepResult × Session}
    (hact : ∀ t, AlikeStep odd (act t) (act' t)) :
    AlikeStep odd (s.onThread i act) (p.onThread i act') := by
  rw [Session.onThread, Session.onThread, h.threads_eq]
  cases s.threads[i]? with
  | none => exact ⟨rfl, h⟩
  | some t => exact hact t

theorem onStream (h : AlikeBut odd s p) {k : Nat} (hk : ¬ odd k)
    {act act' : Nat → Thread → EventStream → StepResult × Session}
    (hact : ∀ i t e, AlikeStep odd (act i t e) (act' i t e)) :
    AlikeStep odd (s.onStream k act) (p.onStream k act') := by
  rw [Session.onStream, Session.onStream, h.stream_eq k hk]
  cases s.streams[k]? with
  | none => exact ⟨rfl, h⟩
  | some q => exact h.onThread q.1 fun t => hact q.1 t q.2

/-- **A step that asks no odd stream** gives the same on both, and leaves them alike. -/
theorem step (h : AlikeBut odd s p) {x : Step} (hx : ∀ k ∈ x.stream?, ¬ odd k) :
    AlikeStep odd (s.step x) (p.step x) := by
  -- A step on a thread or a stream is a step of its scene, to which either log is put in front.
  cases x with
  | startThread options | resumeThread id options => exact ⟨rfl, h.addThread _⟩
  | clientOptions => exact ⟨congrArg StepResult.clientOptions h.client.options_eq, h⟩
  | threadId i => exact h.onThread i fun t => ⟨rfl, h⟩
  | openStream i input options => exact h.onThread i fun t => ⟨rfl, h.addStream i _⟩
  | run i input options =>
    refine h.onThread i fun t => ?_
    obtain ⟨bare, lines, lines', hs, hp⟩ := (h.scene t).exists_logged
    rw [hs, hp, Scene.run_logged, Scene.run_logged]
    rcases bare.run input options with ⟨f | turn, m⟩ <;>
      exact ⟨rfl, h.after i (Scene.sameButLog_logged lines lines' m)⟩
  | next k =>
    refine h.onStream (hx k rfl) fun i t e => ?_
    obtain ⟨bare, lines, lines', hs, hp⟩ := (h.scene t).exists_logged
    rw [hs, hp, Scene.next_logged, Scene.next_logged]
    exact ⟨rfl, (h.after i (Scene.sameButLog_logged lines lines' _)).putStream k i _⟩
  | drain k =>
    refine h.onStream (hx k rfl) fun i t e => ?_
    obtain ⟨bare, lines, lines', hs, hp⟩ := (h.scene t).exists_logged
    rw [hs, hp, Scene.drain_logged, Scene.drain_logged]
    exact ⟨rfl, (h.after i (Scene.sameButLog_logged lines lines' _)).putStream k i _⟩
  | closeStream k =>
    refine h.onStream (hx k rfl) fun i t e => ?_
    obtain ⟨bare, lines, lines', hs, hp⟩ := (h.scene t).exists_logged
    rw [hs, hp, Scene.close_logged, Scene.close_logged]
    exact ⟨rfl, (h.after i (Scene.sameButLog_logged lines lines' _)).putStream k i _⟩

theorem report_eq (h : AlikeBut odd s p) {x : Step} (hx : ∀ k ∈ x.stream?, ¬ odd k)
    (result : StepResult) : p.report x result = s.report x result := by
  have hthread : p.threadOf? x = s.threadOf? x := by
    cases x with
    | next k | drain k | closeStream k =>
      simp only [threadOf?, h.stream_eq k (hx k rfl), h.threads_eq]
    | _ => simp only [threadOf?, h.threads_eq]
  rw [report, report, hthread, h.client.journal_eq]

/-- **Steps that ask no odd stream** are reported alike, one after another. -/
theorem steps (h : AlikeBut odd s p) {xs : List Step} (hxs : ∀ x ∈ xs, ∀ k ∈ x.stream?, ¬ odd k) :
    (p.steps xs).1 = (s.steps xs).1 ∧ AlikeBut odd (s.steps xs).2 (p.steps xs).2 := by
  -- A report is made of the result and of the session behind the step, and both are alike by then.
  induction xs generalizing s p with
  | nil => exact ⟨rfl, h⟩
  | cons x xs ih =>
    rw [List.forall_mem_cons] at hxs
    obtain ⟨hresult, halike⟩ := h.step hxs.1
    obtain ⟨hreports, hlast⟩ := ih halike hxs.2
    refine ⟨?_, hlast⟩
    show (p.step x).2.report x (p.step x).1 :: ((p.step x).2.steps xs).1 = _
    rw [halike.report_eq hxs.1, hresult, hreports]
    rfl

end AlikeBut

end Session

end AgentClient
