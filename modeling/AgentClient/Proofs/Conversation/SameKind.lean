import AgentClient.Proofs.Conversation.Acceptance
import AgentClient.Proofs.Conversation.Identity

/-!
# Proofs/Conversation/SameKind — what a client is, it stays

A client has its options and its agent, and stands in its surroundings.  Turns use up what the agent
has to answer, and change nothing else of this, whatever is done with them (`Session.becomes_step`):
a client behind some steps is of the kind that it was (`Client.Akin`), in the same surroundings. -/

namespace AgentClient

/-! ## Clients of one kind

One lemma for each operation. What they have in common is that an operation passes on options and
surroundings and at most takes an answer from the agent. -/

/-- Agents that differ in the answers they have left. -/
inductive Agent.Akin : Agent → Agent → Prop
  | memory (replies replies' : List Reply) : Akin (.memory replies) (.memory replies')
  | executable (e : Executor) (scripts scripts' : List Script) :
    Akin (.executable e scripts) (.executable e scripts')

/-- **Clients of one kind**: they have the same options, and their agents differ in the answers they
have left. -/
structure Client.Akin (c c' : Client) : Prop where
  options_eq : c'.options = c.options
  agent : c.agent.Akin c'.agent

namespace Agent.Akin

variable {a a' a'' : Agent}

theorem refl (a : Agent) : a.Akin a := by
  cases a with
  | memory replies => exact .memory _ _
  | executable e scripts => exact .executable e _ _

theorem symm (h : a.Akin a') : a'.Akin a := by
  cases h with
  | memory => exact .memory _ _
  | executable e => exact .executable e _ _

theorem trans (h : a.Akin a') (h' : a'.Akin a'') : a.Akin a'' := by
  cases h with
  | memory =>
    cases h' with
    | memory => exact .memory _ _
  | executable e =>
    cases h' with
    | executable => exact .executable e _ _

end Agent.Akin

/-- **A client later on**: it is of the kind that it was, in the same surroundings. -/
structure Client.Becomes (c c' : Client) : Prop extends c.Akin c' where
  surroundings_eq : c'.surroundings = c.surroundings

namespace Client

variable {c c' c'' : Client}

namespace Akin

theorem symm (h : c.Akin c') : c'.Akin c :=
  ⟨h.options_eq.symm, h.agent.symm⟩

theorem trans (h : c.Akin c') (h' : c'.Akin c'') : c.Akin c'' :=
  ⟨h'.options_eq.trans h.options_eq, h.agent.trans h'.agent⟩

end Akin

namespace Becomes

theorem of_eq (hs : c'.surroundings = c.surroundings) (ho : c'.options = c.options)
    (ha : c'.agent = c.agent) : c.Becomes c' :=
  ⟨⟨ho, ha ▸ .refl _⟩, hs⟩

theorem refl (c : Client) : c.Becomes c :=
  .of_eq rfl rfl rfl

theorem trans (h : c.Becomes c') (h' : c'.Becomes c'') : c.Becomes c'' :=
  ⟨h.toAkin.trans h'.toAkin, h'.surroundings_eq.trans h.surroundings_eq⟩

end Becomes

/-- Nothing that a turn does makes another client of one. -/
theorem becomes_makeDirectory (c : Client) (hasSchema : Bool) :
    c.Becomes (c.makeDirectory hasSchema) := by
  cases hasSchema <;> exact .of_eq rfl rfl rfl

theorem becomes_removeDirectory (c : Client) (hasSchema : Bool) :
    c.Becomes (c.removeDirectory hasSchema) := by
  cases hasSchema <;> exact .of_eq rfl rfl rfl

theorem becomes_settle (c : Client) (f : Feed) (exitSeen : Bool) :
    c.Becomes (c.settle f exitSeen) := by
  rw [settle]
  cases c.runsProcesses <;> exact .of_eq rfl rfl rfl

/-- A launch spends a script or a reply, and leaves the rest of the client as it is. -/
theorem becomes_launch (c : Client) (r : TurnRequest) (schema : Option String) :
    c.Becomes (c.launch r schema).2 := by
  cases hagent : c.agent with
  | memory replies =>
    refine ⟨⟨?_, ?_⟩, ?_⟩
    · rw [launch, hagent]
    · rw [launch, hagent]
      exact .memory _ _
    · rw [launch, hagent]
  | executable e scripts =>
    have htaken : ∀ later, c.agent.Akin (.executable e later) := by
      rw [hagent]
      exact fun later => .executable e _ _
    rw [launch, hagent]
    dsimp only [launchProcess]
    -- Only a process that is asked for takes its script, whether it comes up or not.
    cases e.command r with
    | error f => exact .refl c
    | ok command =>
      cases Deadline.ofTimeout r.timeout with
      | error f => exact .of_eq rfl rfl rfl
      | ok deadline =>
        rcases takeScript scripts with ⟨script, later⟩
        cases script.refusal with
        | some error => exact ⟨⟨rfl, htaken later⟩, rfl⟩
        | none => exact ⟨⟨rfl, htaken later⟩, rfl⟩

end Client

namespace Scene

variable {s : Scene}

theorem becomes_release (s : Scene) (t : LiveTurn) (exitSeen : Bool) :
    s.client.Becomes (s.release t exitSeen).client :=
  (s.client.becomes_settle _ _).trans (Client.becomes_removeDirectory _ _)

theorem becomes_notice (s : Scene) (e : Event) : s.client.Becomes (s.notice e).client := by
  cases e <;> exact .of_eq rfl rfl rfl

/-- To start a turn is to make the directory and to launch, and to remove the directory where the
launch fails. -/
theorem becomes_start (s : Scene) (input : Input) (options : TurnOptions) :
    s.client.Becomes (s.start input options).2.client := by
  rcases hquestion : s.thread.question "" input options with f | q
  · obtain ⟨-, -, h⟩ := start_of_question_error hquestion
    exact .of_eq h.surroundings_eq h.options_eq h.agent_eq
  · obtain ⟨a⟩ := exists_accepted hquestion
    have hanswer : s.client.Becomes a.answer.2 :=
      (s.client.becomes_makeDirectory _).trans (Client.becomes_launch _ _ _)
    rw [a.start_eq]
    rcases hans : a.answer with ⟨f | feed, c⟩
    · rw [hans] at hanswer
      exact hanswer.trans (Client.becomes_removeDirectory _ _)
    · rw [hans] at hanswer
      exact hanswer

theorem becomes_pull (s : Scene) (t : LiveTurn) : s.client.Becomes (s.pull t).2.1.client := by
  rw [pull]
  cases t.feed.lines with
  | nil => exact s.becomes_release t _
  | cons line rest =>
    dsimp only [takeLine]
    cases Event.parse line with
    | error f => exact s.becomes_release t false
    | ok e => exact s.becomes_notice e

/-- An event that is asked for may have to start the turn first. -/
theorem becomes_next (s : Scene) (e : EventStream) : s.client.Becomes (s.next e).2.1.client := by
  cases e with
  | ended => exact .refl _
  | live t => exact s.becomes_pull t
  | unstarted input options =>
    have hstart := s.becomes_start input options
    rw [next]
    rcases hst : s.start input options with ⟨f | t, s'⟩
    · rw [hst] at hstart
      exact hstart
    · rw [hst] at hstart
      exact hstart.trans (s'.becomes_pull t)

theorem becomes_close (s : Scene) (e : EventStream) : s.client.Becomes (s.close e).client := by
  cases e with
  | live t => exact s.becomes_release t false
  | _ => exact .refl _

theorem becomes_asked (s : Scene) (n : Nat) (e : EventStream) :
    s.client.Becomes (s.asked n e).1.client := by
  induction n generalizing s e with
  | zero => exact .refl _
  | succ n ih => exact (s.becomes_next e).trans (ih _ _)

/-- A stream that is drained does what it does when it is asked for one event after another. -/
theorem becomes_drain {σ : Type} (receive : σ → Thread → Event → Except Failure σ) (s : Scene)
    (state : σ)
    (e : EventStream) : s.client.Becomes (s.drain receive state e).2.2.client := by
  obtain ⟨n, -, hdrain⟩ := s.exists_drain_eq_asked receive state e
  rw [hdrain]
  exact (s.becomes_asked n e).trans (becomes_close _ _)

theorem becomes_run (s : Scene) (input : Input) (options : TurnOptions) :
    s.client.Becomes (s.run input options).2.client := by
  obtain ⟨n, -, hrun⟩ := s.exists_run_eq_asked input options
  rw [hrun]
  exact (s.becomes_asked n _).trans (becomes_close _ _)

end Scene

/-! ## Steps of a session

A step leaves the client of the scene that it has worked on, or the client that it has found. -/

namespace Session

/-- A step on a thread leaves the client of the scene behind it. -/
theorem becomes_onThread {s : Session} {i : Nat} {act : Thread → StepResult × Session}
    (h : ∀ t, s.client.Becomes (act t).2.client) :
    s.client.Becomes (s.onThread i act).2.client := by
  rcases s.onThread_cases i with ⟨t, -, hact⟩ | ⟨-, hact⟩
  · exact hact act ▸ h t
  · exact hact act ▸ .refl _

theorem becomes_onStream {s : Session} {k : Nat}
    {act : Nat → Thread → EventStream → StepResult × Session}
    (h : ∀ i t e, s.client.Becomes (act i t e).2.client) :
    s.client.Becomes (s.onStream k act).2.client := by
  rcases s.onStream_cases k with ⟨i, e, t, hk, ht⟩ | ⟨hact, -⟩
  · exact onStream_eq hk ht act ▸ h i t e
  · exact hact act ▸ .refl _

/-- **No step makes another client of one.** -/
theorem becomes_step (s : Session) (x : Step) : s.client.Becomes (s.step x).2.client := by
  -- Each step is one of the operations above, on the scene of its thread.
  cases x with
  | startThread options | resumeThread id options | clientOptions => exact .refl _
  | threadId i => exact becomes_onThread fun _ => .refl _
  | openStream i input options => exact becomes_onThread fun _ => .refl _
  | run i input options =>
    refine becomes_onThread fun t => ?_
    have hrun := (s.scene t).becomes_run input options
    rcases hr : (s.scene t).run input options with ⟨f | turn, scene⟩
    · rw [hr] at hrun
      exact hrun
    · rw [hr] at hrun
      exact hrun
  | next k => exact becomes_onStream fun i t e => (s.scene t).becomes_next e
  | drain k => exact becomes_onStream fun i t e => (s.scene t).becomes_drain _ _ e
  | closeStream k => exact becomes_onStream fun i t e => (s.scene t).becomes_close e

theorem becomes_steps (s : Session) (xs : List Step) : s.client.Becomes (s.steps xs).2.client := by
  induction xs generalizing s with
  | nil => exact .refl _
  | cons x xs ih => exact (s.becomes_step x).trans (ih _)

end Session

end AgentClient
