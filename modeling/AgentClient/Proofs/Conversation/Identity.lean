import AgentClient.Proofs.Child.Cleanup
import AgentClient.Proofs.Conversation.TurnResult

/-!
# Proofs/Conversation/Identity — which conversation a thread is a handle on, at every moment

A thread has the id that it was given until its agent announces one, and then the one announced
last; a turn is for the id that its thread has when its first event is asked for.  `Scene.Advances`
says both of a change of a scene, with the events that it hands out and the calls that it adds.
Every operation of a scene advances it so, a step of a session advances one scene or none
(`Session.step_cases`), and a session adds up what its steps have done
(`Session.id_eq_lastAnnounced`). -/

namespace AgentClient

/-! ## The id announced last

Of several announcements the last one counts, and with none the id stays what it was. -/

/-- The id that was announced last. -/
def Event.lastAnnounced? (es : List Event) : Option WireText :=
  (es.filterMap Event.announcedId?).getLast?

theorem Event.lastAnnounced?_append (xs ys : List Event) (id : Option WireText) :
    (lastAnnounced? (xs ++ ys)).or id = (lastAnnounced? ys).or ((lastAnnounced? xs).or id) := by
  rw [lastAnnounced?, List.filterMap_append, List.getLast?_append, Option.or_assoc]
  rfl

/-! ## Calls that a journal gains

A journal grows at its end, and calls that are in it may be closed. `Gains` allows for both, so it
can be composed over any number of steps, and the calls that it names are those that were added. -/

/-- **A call for a conversation**: the request names it, or the command of the process resumes it.
-/
def Call.IsFor (id : Option WireText) : Call → Prop
  | .memory request _ _ => request.threadId = id
  | .refused => True
  | .process record => Executor.Resumes id record.command

theorem Call.isFor_close {id : Option WireText} {call : Call} {exitSeen : Bool} :
    (call.close exitSeen).IsFor id ↔ call.IsFor id := by
  cases call <;> rfl

theorem Call.close_close (call : Call) (exitSeen : Bool) :
    (call.close exitSeen).close true = call.close true := by
  cases call <;> rfl

namespace Journal

/-- **A journal gains calls** behind the ones it has, which may be closed meanwhile. -/
def Gains (j j' : Journal) (new : List Call) : Prop :=
  j'.map (Call.close true) = (j ++ new).map (Call.close true)

variable {j j' j'' : Journal} {new new' : List Call}

theorem Gains.refl (j : Journal) : Gains j j [] := by
  rw [Gains, List.append_nil]

theorem Gains.append (j : Journal) (new : List Call) : Gains j (j ++ new) new :=
  rfl

theorem Gains.trans (h : Gains j j' new) (h' : Gains j' j'' new') : Gains j j'' (new ++ new') := by
  rw [Gains, h', List.map_append, h, ← List.map_append, List.append_assoc]

/-- Closing a call adds none. -/
theorem Gains.modify (j : Journal) (i : Nat) (exitSeen : Bool) :
    Gains j (j.modify i (Call.close exitSeen)) [] := by
  rw [Gains, List.append_nil]
  refine List.ext_getElem? fun k => ?_
  rw [List.getElem?_map, List.getElem?_map, List.getElem?_modify]
  by_cases hk : i = k
  · simp [hk, Function.comp_def, Call.close_close]
  · simp [hk]

/-- A call stays where it is, and what it is for. -/
theorem Gains.exists_getElem? (h : Gains j j' new) {place : Nat} {call : Call}
    (hcall : j'[place]? = some call) :
    ∃ call', (j ++ new)[place]? = some call' ∧ ∀ id, call.IsFor id ↔ call'.IsFor id := by
  have hclosed : (j'.map (Call.close true))[place]?
      = ((j ++ new).map (Call.close true))[place]? := by rw [h]
  rw [List.getElem?_map, List.getElem?_map, hcall] at hclosed
  obtain ⟨call', hcall', heq⟩ := Option.map_eq_some_iff.mp hclosed.symm
  refine ⟨call', hcall', fun id => ?_⟩
  have hclose : (call.close true).IsFor id ↔ call.IsFor id := Call.isFor_close
  rw [← hclose, ← heq, Call.isFor_close]

/-- One behind those there were is a new one. -/
theorem Gains.exists_of_length_le (h : Gains j j' new) {place : Nat} {call : Call}
    (hplace : j.length ≤ place) (hcall : j'[place]? = some call) :
    ∃ call' ∈ new, ∀ id, call.IsFor id ↔ call'.IsFor id := by
  obtain ⟨call', hcall', hiff⟩ := h.exists_getElem? hcall
  rw [List.getElem?_append_right hplace] at hcall'
  exact ⟨call', List.mem_of_getElem? hcall', hiff⟩

end Journal

namespace Client

/-- **Asking the agent** leaves a call for the conversation that the request names, or none. -/
theorem exists_journal_launch (c : Client) (r : TurnRequest) (schema : Option String) :
    ∃ new, (c.launch r schema).2.journal = c.journal ++ new ∧
      ∀ call ∈ new, call.IsFor r.threadId := by
  have hnone : ∃ new, c.journal = c.journal ++ new ∧ ∀ call ∈ new, call.IsFor r.threadId :=
    ⟨[], (List.append_nil _).symm, fun _ h => absurd h List.not_mem_nil⟩
  have hone : ∀ {call : Call}, call.IsFor r.threadId → ∀ x ∈ [call], x.IsFor r.threadId := by
    intro call h x hx
    rwa [List.mem_singleton.mp hx]
  -- An agent in memory is asked once. An executable is run if it has a command and can be spawned;
  -- where the command or the timeout is refused first, nothing is called.
  cases hagent : c.agent with
  | memory replies =>
    rw [launch, hagent]
    exact ⟨_, rfl, hone rfl⟩
  | executable e scripts =>
    rcases launch_cases hagent r schema with
      ⟨f, -, h⟩ | ⟨command, fault, -, -, h⟩ | ⟨command, error, -, h⟩ | ⟨p, -⟩
    · rw [h]
      exact hnone
    · rw [h]
      exact hnone
    · rw [h]
      exact ⟨_, rfl, hone trivial⟩
    · rw [p.launch_eq schema]
      exact ⟨_, rfl, hone (Executor.resumes_command p.command_eq)⟩

end Client

/-! ## What the operations of a scene do to the id and the calls

A call is added when a turn starts, and an id may be announced from then on. So in any operation the
call comes first, and it is for the id from before the operation. -/

/-- **A change of a scene that hands out events and adds calls**: the id is the one announced last
by these events, if one is, and the calls are for the id before. -/
structure Scene.Advances (s s' : Scene) (es : List Event) (new : List Call) : Prop where
  id_eq : s'.thread.id = (Event.lastAnnounced? es).or s.thread.id
  gains : Journal.Gains s.client.journal s'.client.journal new
  isFor : ∀ call ∈ new, call.IsFor s.thread.id

/-- The events that asking for one gives. -/
def Pull.events : Pull → List Event
  | .event e => [e]
  | _ => []

namespace Scene

namespace Advances

variable {s s' s'' : Scene} {es es' : List Event} {new : List Call}

theorem refl (s : Scene) : s.Advances s [] [] :=
  ⟨rfl, .refl _, nofun⟩

/-- The calls come first: none is added once a turn has started. -/
theorem trans (h : s.Advances s' es new) (h' : s'.Advances s'' es' []) :
    s.Advances s'' (es ++ es') new := by
  refine ⟨?_, List.append_nil new ▸ h.gains.trans h'.gains, h.isFor⟩
  rw [h'.id_eq, h.id_eq, Event.lastAnnounced?_append]

end Advances

theorem advances_notice (s : Scene) (e : Event) : s.Advances (s.notice e) [e] [] := by
  cases e <;> exact ⟨rfl, .refl _, nofun⟩

/-- Letting go of a turn consumes no event and adds no call: at most it writes into the call that
the turn has made. -/
theorem advances_release (s : Scene) (t : LiveTurn) (exitSeen : Bool) :
    s.Advances (s.release t exitSeen) [] [] := by
  refine ⟨rfl, ?_, nofun⟩
  rw [release, Client.journal_removeDirectory, Client.journal_settle]
  exact .modify _ _ _

/-- Starting a turn adds the call of its launch, if it makes one, and nothing else. -/
theorem exists_advances_occupy (s : Scene) (prompt : String) (images : List Value)
    (schema : Option Table) (timeout : Value) :
    ∃ new, s.Advances (s.occupy prompt images schema timeout).2 [] new := by
  dsimp only [occupy]
  cases SchemaFile.ofSchema? (s.client.makeDirectory schema.isSome).surroundings.schemaDirectory
      schema with
  | error f =>
    refine ⟨[], rfl, ?_, nofun⟩
    rw [Client.journal_removeDirectory, Client.journal_makeDirectory]
    exact .refl _
  | ok file =>
    obtain ⟨new, hjournal, hnew⟩ := (s.client.makeDirectory schema.isSome).exists_journal_launch
      (s.request prompt images file timeout) (file.map (·.text))
    rw [Client.journal_makeDirectory] at hjournal
    refine ⟨new, ?_, ?_, hnew⟩
    -- The thread is marked busy only if the launch has gone well; its id stays either way.
    · dsimp only
      split <;> rfl
    · dsimp only
      split
      · next h =>
        rw [h] at hjournal
        exact hjournal ▸ .append _ _
      · next h =>
        rw [h] at hjournal
        rw [Client.journal_removeDirectory]
        exact hjournal ▸ .append _ _

/-- **The start of a turn** adds a call for the id that the thread has then, or none. -/
theorem exists_advances_start (s : Scene) (input : Input) (options : TurnOptions) :
    ∃ new, s.Advances (s.start input options).2 [] new := by
  have hsame : ∃ new, s.Advances s [] new := ⟨[], .refl s⟩
  dsimp only [start]
  -- Nothing has been called where the thread is busy, or the schema or the input is refused.
  cases s.thread.running with
  | true => exact hsame
  | false =>
    cases OutputSchema.resolve options.outputSchema with
    | error f => exact hsame
    | ok schema =>
      cases input.normalize with
      | error f => exact hsame
      | ok request => exact s.exists_advances_occupy _ _ _ _

/-- **A turn that runs** adds none, and hands out what it gives. -/
theorem advances_pull (s : Scene) (t : LiveTurn) :
    s.Advances (s.pull t).2.1 (s.pull t).1.events [] := by
  dsimp only [pull]
  cases t.feed.lines with
  | nil =>
    dsimp only [finish]
    cases t.feed.failure <;> exact s.advances_release t _
  | cons line rest =>
    dsimp only [takeLine]
    cases Event.parse line with
    | error f => exact s.advances_release t false
    | ok e => exact s.advances_notice e

/-- **Asking a stream for an event** consumes the event, if there is one, and calls the agent only
if the stream has not been started before. -/
theorem exists_advances_next (s : Scene) (e : EventStream) :
    ∃ new, s.Advances (s.next e).2.1 (s.next e).1.events new ∧
      (new ≠ [] → ∃ input options, e = .unstarted input options) := by
  cases e with
  | ended => exact ⟨[], .refl s, fun h => absurd rfl h⟩
  | live t => exact ⟨[], s.advances_pull t, fun h => absurd rfl h⟩
  | unstarted input options =>
    obtain ⟨new, hstart⟩ := s.exists_advances_start input options
    refine ⟨new, ?_, fun _ => ⟨input, options, rfl⟩⟩
    dsimp only [next]
    -- A start that fails is all that happens; else the first line is taken right behind it.
    rcases hst : s.start input options with ⟨f | t, s'⟩
    · rw [hst] at hstart
      exact hstart
    · rw [hst] at hstart
      exact hstart.trans (s'.advances_pull t)

/-- Closing a stream consumes nothing and calls nobody. -/
theorem advances_close (s : Scene) (e : EventStream) : s.Advances (s.close e) [] [] := by
  cases e with
  | live t => exact s.advances_release t false
  | unstarted input options => exact .refl s
  | ended => exact .refl s

/-! ## The events that a receiver gets

A receiver may have enough before the lines are at an end. The id then is the one announced by the
events it was given, not by those of all lines. -/

variable {σ : Type}

/-- The events that lines hand to a receiver: one for each line, up to the first that is no event or
that the receiver has enough with. -/
def deliveredTo (receive : σ → Thread → Event → Except Failure σ) :
    (lines : List String) → Scene → σ → List Event
  | [], _, _ => []
  | line :: rest, s, state =>
    match Event.parse line with
    | .error _ => []
    | .ok e =>
      e :: match receive state (s.notice e).thread e with
        | .ok state => deliveredTo receive rest (s.notice e) state
        | .error _ => []

/-- The events that a stream hands to a receiver. -/
def drainedTo (receive : σ → Thread → Event → Except Failure σ) (s : Scene) (state : σ) :
    EventStream → List Event
  | .ended => []
  | .live t => deliveredTo receive t.feed.lines s state
  | .unstarted input options =>
    match s.start input options with
    | (.error _, _) => []
    | (.ok t, s) => deliveredTo receive t.feed.lines s state

/-- The events that running a turn goes through. -/
def ranThrough (s : Scene) (input : Input) (options : TurnOptions) : List Event :=
  match OutputSchema.resolve options.outputSchema with
  | .error _ => []
  | .ok _ => s.drainedTo addTo {} (.unstarted input options)

/-- Going through a running turn consumes the events that the receiver is given, and calls nobody.
-/
theorem advances_deliver (receive : σ → Thread → Event → Except Failure σ) (t : LiveTurn)
    (lines : List String) (s : Scene) (state : σ) :
    s.Advances (deliver receive t lines s state).2.2 (deliveredTo receive lines s state) [] := by
  -- Along the lines: each line is an event more, or the end, where the turn lets go.
  induction lines generalizing s state with
  | nil =>
    dsimp only [deliver, deliveredTo, finish]
    cases t.feed.failure <;> exact s.advances_release t _
  | cons line rest ih =>
    dsimp only [deliver, deliveredTo, takeLine]
    cases Event.parse line with
    | error f => exact s.advances_release t false
    | ok e =>
      refine (s.advances_notice e).trans ?_
      dsimp only
      cases receive state (s.notice e).thread e with
      | error f => exact (s.notice e).advances_release t false
      | ok state => exact ih (s.notice e) state

/-- Going through a stream to its end calls the agent only if the stream has not been started
before. -/
theorem exists_advances_drain (receive : σ → Thread → Event → Except Failure σ) (s : Scene)
    (state : σ) (e : EventStream) :
    ∃ new, s.Advances (s.drain receive state e).2.2 (s.drainedTo receive state e) new ∧
      (new ≠ [] → ∃ input options, e = .unstarted input options) := by
  cases e with
  | ended => exact ⟨[], .refl s, fun h => absurd rfl h⟩
  | live t => exact ⟨[], advances_deliver receive t _ s state, fun h => absurd rfl h⟩
  | unstarted input options =>
    obtain ⟨new, hstart⟩ := s.exists_advances_start input options
    refine ⟨new, ?_, fun _ => ⟨input, options, rfl⟩⟩
    dsimp only [drain, drainedTo]
    rcases hst : s.start input options with ⟨f | t, s'⟩
    · rw [hst] at hstart
      exact hstart
    · rw [hst] at hstart
      exact hstart.trans (advances_deliver receive t _ s' state)

/-- A run goes to the end that its events have led to. -/
theorem exists_advances_run (s : Scene) (input : Input) (options : TurnOptions) :
    ∃ new, s.Advances (s.run input options).2 (s.ranThrough input options) new := by
  dsimp only [run, ranThrough]
  cases OutputSchema.resolve options.outputSchema with
  | error f => exact ⟨[], .refl s⟩
  | ok schema =>
    obtain ⟨new, hdrain, -⟩ := s.exists_advances_drain (fun t thread e => Turn.add t thread.id e) {}
      (.unstarted input options)
    refine ⟨new, ?_⟩
    -- What is made of the events behind the end, the check of the result, leaves the scene alone.
    dsimp only
    rcases hd : s.drain (fun t thread e => Turn.add t thread.id e) {}
        (.unstarted input options) with ⟨_ | f, turn, s'⟩
    · rw [hd] at hdrain
      exact hdrain
    · rw [hd] at hdrain
      exact hdrain

/-! ## Asking for one event after another

There are three ways to go through the events of a turn: asking for them one by one, draining the
stream and running the turn. The second and the third are shown to come to the same as the first,
asked often enough and then closed, so what is said of the first holds of all. -/

/-- The events that a stream gives when it is asked some times, one after another. -/
def heard (s : Scene) : Nat → EventStream → List Event
  | 0, _ => []
  | n + 1, e => (s.next e).1.events ++ heard (s.next e).2.1 n (s.next e).2.2

theorem heard_of_next {s s' : Scene} {e e' : EventStream} {p : Pull} (h : s.next e = (p, s', e'))
    (n : Nat) : s.heard (n + 1) e = p.events ++ s'.heard n e' := by
  rw [heard, h]

theorem asked_of_next {s s' : Scene} {e e' : EventStream} {p : Pull} (h : s.next e = (p, s', e'))
    (n : Nat) : s.asked (n + 1) e = s'.asked n e' := by
  rw [asked, h]

/-- A stream that cannot be started gives its failure. -/
theorem next_of_start_error {s s' : Scene} {input : Input} {options : TurnOptions} {f : Failure}
    (h : s.start input options = (.error f, s')) :
    s.next (.unstarted input options) = (.failed f, s', .ended) := by
  rw [next, h]

/-- One that is started is asked as the turn that it runs. -/
theorem next_of_start {s s' : Scene} {input : Input} {options : TurnOptions} {t : LiveTurn}
    (h : s.start input options = (.ok t, s')) :
    s.next (.unstarted input options) = s'.next (.live t) := by
  dsimp only [next]
  rw [h]

/-- **At every moment** the id is the one announced last. -/
theorem id_asked (s : Scene) (n : Nat) (e : EventStream) :
    (s.asked n e).1.thread.id = (Event.lastAnnounced? (s.heard n e)).or s.thread.id := by
  induction n generalizing s e with
  | zero => rfl
  | succ n ih =>
    obtain ⟨new, hnext, -⟩ := s.exists_advances_next e
    rw [asked, heard, ih, hnext.id_eq, Event.lastAnnounced?_append]

/-- A receiver is given events as if the stream was asked for them and then closed. -/
theorem exists_deliver_eq_asked (receive : σ → Thread → Event → Except Failure σ) (t : LiveTurn)
    (lines : List String) (s : Scene) (state : σ) :
    ∃ n, deliveredTo receive lines s state = s.heard (n + 1) (.live (t.withLines lines)) ∧
      (deliver receive t lines s state).2.2
        = (s.asked (n + 1) (.live (t.withLines lines))).1.close
            (s.asked (n + 1) (.live (t.withLines lines))).2 := by
  -- Along the lines, with one more event asked for at each. Going through a turn and asking for its
  -- events part only at the end: the first closes the turn, whoever asks is left with a stream to
  -- close.
  induction lines generalizing s state with
  | nil =>
    have hnext : s.next (.live (t.withLines [])) = ((s.finish t).1, (s.finish t).2, .ended) := rfl
    have hevents : (s.finish t).1.events = [] := by
      dsimp only [finish]
      cases t.feed.failure <;> rfl
    refine ⟨0, ?_, ?_⟩
    · rw [heard_of_next hnext, hevents]
      rfl
    · rw [deliver, asked_of_next hnext]
      rcases s.finish t with ⟨_ | _ | _, s'⟩ <;> rfl
  | cons line rest ih =>
    rw [deliver, takeLine, deliveredTo]
    cases hp : Event.parse line with
    | error f =>
      have hnext := next_of_parse_error hp s t rest
      refine ⟨0, ?_, ?_⟩
      · rw [heard_of_next hnext]
        rfl
      · rw [asked_of_next hnext]
        rfl
    | ok e =>
      have hnext := next_of_parse hp s t rest
      dsimp only
      cases receive state (s.notice e).thread e with
      | error f =>
        refine ⟨0, ?_, ?_⟩
        · rw [heard_of_next hnext]
          rfl
        · rw [asked_of_next hnext]
          -- The receiver has had enough: the lines that are left make no difference to what is let
          -- go.
          exact release_eq _ rfl rfl
      | ok state =>
        obtain ⟨n, hheard, hclose⟩ := ih (s.notice e) state
        refine ⟨n + 1, ?_, ?_⟩
        · rw [heard_of_next hnext, ← hheard]
          rfl
        · rw [asked_of_next hnext]
          exact hclose

/-- So it is with a stream that is drained, whatever state it is in. -/
theorem exists_drain_eq_asked (receive : σ → Thread → Event → Except Failure σ) (s : Scene)
    (state : σ) (e : EventStream) :
    ∃ n, s.drainedTo receive state e = s.heard n e ∧
      (s.drain receive state e).2.2 = (s.asked n e).1.close (s.asked n e).2 := by
  cases e with
  | ended => exact ⟨0, rfl, rfl⟩
  | live t =>
    obtain ⟨n, hheard, hclose⟩ := exists_deliver_eq_asked receive t t.feed.lines s state
    exact ⟨n + 1, hheard, hclose⟩
  | unstarted input options =>
    dsimp only [drain, drainedTo]
    rcases hst : s.start input options with ⟨f | t, s'⟩
    -- A stream that cannot be started is asked once, and is at its end.
    · have hnext := next_of_start_error hst
      refine ⟨1, ?_, ?_⟩
      · rw [heard_of_next hnext]
        rfl
      · rw [asked_of_next hnext]
        rfl
    · have hnext := next_of_start hst
      obtain ⟨n, hheard, hclose⟩ := exists_deliver_eq_asked receive t t.feed.lines s' state
      refine ⟨n + 1, ?_, ?_⟩
      · rw [heard, hnext]
        exact hheard
      · rw [asked, hnext]
        exact hclose

/-- The events that are reported of a stream that is drained are those it gives. -/
theorem events_deliver (t : LiveTurn) (lines : List String) (s : Scene) (events : List Event) :
    (deliver Session.collectEvents t lines s events).2.1
      = events ++ deliveredTo Session.collectEvents lines s events := by
  -- This receiver never fails, so all that has been gathered are the events themselves.
  induction lines generalizing s events with
  | nil =>
    dsimp only [deliver, deliveredTo, finish]
    cases t.feed.failure <;> exact (List.append_nil _).symm
  | cons line rest ih =>
    dsimp only [deliver, deliveredTo, takeLine]
    cases Event.parse line with
    | error f => exact (List.append_nil _).symm
    | ok e =>
      dsimp only [Session.collectEvents]
      rw [ih, List.append_assoc]
      rfl

/-- Gathering the events of a stream gives those that it delivers. -/
theorem events_drain (s : Scene) (e : EventStream) :
    (s.drain Session.collectEvents [] e).2.1 = s.drainedTo Session.collectEvents [] e := by
  cases e with
  | ended => rfl
  | live t => exact events_deliver t _ s []
  | unstarted input options =>
    dsimp only [drain, drainedTo]
    rcases s.start input options with ⟨f | t, s'⟩
    · rfl
    · exact events_deliver t _ s' []

/-- A run asks for its events and closes the stream. -/
theorem exists_run_eq_asked (s : Scene) (input : Input) (options : TurnOptions) :
    ∃ n, s.ranThrough input options = s.heard n (.unstarted input options) ∧
      (s.run input options).2
        = (s.asked n (.unstarted input options)).1.close (s.asked n (.unstarted input options)).2 :=
          by
  dsimp only [run, ranThrough]
  cases OutputSchema.resolve options.outputSchema with
  | error f => exact ⟨0, rfl, rfl⟩
  | ok schema =>
    obtain ⟨n, hheard, hclose⟩ := s.exists_drain_eq_asked
      (fun t thread e => Turn.add t thread.id e) {} (.unstarted input options)
    refine ⟨n, hheard, ?_⟩
    dsimp only
    -- Both ends of the turn leave the scene that the last event has left.
    rcases hd : s.drain (fun t thread e => Turn.add t thread.id e) {}
        (.unstarted input options) with ⟨_ | f, turn, s'⟩
    · rw [hd] at hclose
      exact hclose
    · rw [hd] at hclose
      exact hclose

end Scene

/-! ## What the steps of a session do to the ids and the calls

A step either works on one thread, and the scene of that thread is advanced, or it leaves all
threads that exist alone. The statement about any number of steps is an induction in which each adds
its events and its call to those from before. -/

namespace Session

/-- The ids that threads are given when they are made. -/
def givenIds (xs : List Step) : List (Option WireText) :=
  xs.filterMap fun
    | .startThread _ => some none
    | .resumeThread id _ => some (some (.plain id))
    | _ => none

/-- The events that a stream hands out, if it is one of a thread. -/
def heardOn (s : Session) (thread stream : Nat) (hear : Scene → EventStream → List Event) :
    List Event :=
  match s.streams[stream]? with
  | some (owner, e) =>
    match s.threads[owner]? with
    | some t => if owner = thread then hear (s.scene t) e else []
    | none => []
  | none => []

/-- **The events that a step consumes on a thread**: what it is given when it asks for events, and
what a run goes through. -/
def consumedOn (s : Session) (thread : Nat) : Step → List Event
  | .run owner input options =>
    match s.threads[owner]? with
    | some t => if owner = thread then (s.scene t).ranThrough input options else []
    | none => []
  | .next stream => s.heardOn thread stream fun scene e => (scene.next e).1.events
  | .drain stream => s.heardOn thread stream fun scene e => (scene.drain collectEvents [] e).2.1
  | _ => []

/-- The events that steps consume on a thread, one after another. -/
def consumedIn (s : Session) (thread : Nat) : List Step → List Event
  | [] => []
  | x :: xs => s.consumedOn thread x ++ consumedIn (s.step x).2 thread xs

/-- The thread on which a step may start a turn: it runs one, or asks a stream for its first event.
-/
def starter? (s : Session) : Step → Option Thread
  | .run thread _ _ => s.threads[thread]?
  | .next stream | .drain stream =>
    match s.streams[stream]? with
    | some (thread, .unstarted ..) => s.threads[thread]?
    | _ => none
  | _ => none

/-- **A step that advances a scene of the session**: one thread and the client are those of the
scene behind it. -/
structure StepAdvances (s : Session) (x : Step) (thread : Nat) (t : Thread) (scene : Scene)
    (es : List Event) (new : List Call) : Prop where
  thread_eq : s.threads[thread]? = some t
  client_eq : (s.step x).2.client = scene.client
  threads_eq : (s.step x).2.threads = s.threads.set thread scene.thread
  given_eq : givenIds [x] = []
  consumed_eq : ∀ i, s.consumedOn i x = if thread = i then es else []
  advances : (s.scene t).Advances scene es new
  starter_eq : new ≠ [] → s.starter? x = some t

/-- **A step that leaves the client alone**, and makes a thread or does nothing to the ones there
are. -/
structure StepKeeps (s : Session) (x : Step) : Prop where
  client_eq : (s.step x).2.client = s.client
  ids_eq : (s.step x).2.threads.map (·.id) = s.threads.map (·.id) ++ givenIds [x]
  consumed_eq : ∀ i, s.consumedOn i x = []

theorem StepKeeps.of_threads {s : Session} {x : Step} (hclient : (s.step x).2.client = s.client)
    (hthreads : (s.step x).2.threads = s.threads) (hgiven : givenIds [x] = [])
    (hconsumed : ∀ i, s.consumedOn i x = []) : s.StepKeeps x :=
  ⟨hclient, by rw [hthreads, hgiven, List.append_nil], hconsumed⟩

theorem StepKeeps.of_eq {s : Session} {x : Step} {result : StepResult} (h : s.step x = (result, s))
    (hgiven : givenIds [x] = []) (hconsumed : ∀ i, s.consumedOn i x = []) : s.StepKeeps x :=
  .of_threads (by rw [h]) (by rw [h]) hgiven hconsumed

theorem onThread_eq {s : Session} {thread : Nat} {t : Thread} (ht : s.threads[thread]? = some t)
    (act : Thread → StepResult × Session) : s.onThread thread act = act t := by
  rw [onThread, ht]

/-- What is done with a thread is done with one that is there, or it is nothing. -/
theorem onThread_cases (s : Session) (thread : Nat) :
    (∃ t, s.threads[thread]? = some t ∧ ∀ act, s.onThread thread act = act t) ∨
      (s.threads[thread]? = none ∧ ∀ act, s.onThread thread act = (.absent, s)) := by
  cases ht : s.threads[thread]? with
  | some t => exact .inl ⟨t, rfl, onThread_eq ht⟩
  | none => exact .inr ⟨rfl, fun act => by rw [onThread, ht]⟩

/-- So it is with a stream. -/
theorem onStream_cases (s : Session) (stream : Nat) :
    (∃ thread e t, s.streams[stream]? = some (thread, e) ∧ s.threads[thread]? = some t) ∨
      (∀ act, s.onStream stream act = (.absent, s)) ∧ ∀ i hear, s.heardOn i stream hear = [] := by
  cases hk : s.streams[stream]? with
  | none => exact .inr ⟨fun act => by rw [onStream, hk], fun i hear => by rw [heardOn, hk]⟩
  | some p =>
    obtain ⟨thread, e⟩ := p
    rcases s.onThread_cases thread with ⟨t, ht, -⟩ | ⟨ht, hact⟩
    · exact .inl ⟨thread, e, t, rfl, ht⟩
    · refine .inr ⟨fun act => ?_, fun i hear => ?_⟩
      · simp only [onStream, hk, hact]
      · simp only [heardOn, hk, ht]

/-- A whole turn on a thread that there is moves that thread on, and no other. -/
theorem exists_stepAdvances_run {s : Session} {thread : Nat} {t : Thread}
    (ht : s.threads[thread]? = some t) (input : Input) (options : TurnOptions) :
    ∃ scene es new, s.StepAdvances (.run thread input options) thread t scene es new := by
  obtain ⟨new, hadvances⟩ := (s.scene t).exists_advances_run input options
  refine ⟨_, _, new, ht, ?_, ?_, rfl, fun i => ?_, hadvances, fun _ => ht⟩
  · rw [step, onThread_eq ht]
    rcases (s.scene t).run input options with ⟨f | turn, scene⟩ <;> rfl
  · rw [step, onThread_eq ht]
    rcases (s.scene t).run input options with ⟨f | turn, scene⟩ <;> rfl
  · simp only [consumedOn, ht]

section

variable {s : Session} {stream thread : Nat} {e : EventStream} {t : Thread}
  (hk : s.streams[stream]? = some (thread, e)) (ht : s.threads[thread]? = some t)

include hk ht

theorem onStream_eq (act : Nat → Thread → EventStream → StepResult × Session) :
    s.onStream stream act = act thread t e := by
  simp only [onStream, hk, onThread, ht]

/-- A stream hands out what its thread consumes. -/
theorem heardOn_eq (i : Nat) (hear : Scene → EventStream → List Event) :
    s.heardOn i stream hear = if thread = i then hear (s.scene t) e else [] := by
  simp only [heardOn, hk, ht]

/-- A stream that has not been asked for anything is one whose turn may start. -/
theorem starter?_of_unstarted (he : ∃ input options, e = .unstarted input options) :
    s.starter? (.next stream) = some t ∧ s.starter? (.drain stream) = some t := by
  obtain ⟨input, options, rfl⟩ := he
  simp only [starter?, hk, ht, and_self]

/-- Asking a stream for an event moves its thread on. -/
theorem exists_stepAdvances_next :
    ∃ scene es new, s.StepAdvances (.next stream) thread t scene es new := by
  obtain ⟨new, hadvances, hstarts⟩ := (s.scene t).exists_advances_next e
  refine ⟨_, _, new, ht, ?_, ?_, rfl,
    fun i => heardOn_eq hk ht i fun scene e => (scene.next e).1.events, hadvances,
    fun hnew => (starter?_of_unstarted hk ht (hstarts hnew)).1⟩
  · rw [step, onStream_eq hk ht]
    rfl
  · rw [step, onStream_eq hk ht]
    rfl

/-- Going through a stream to its end moves its thread on. -/
theorem exists_stepAdvances_drain :
    ∃ scene es new, s.StepAdvances (.drain stream) thread t scene es new := by
  obtain ⟨new, hadvances, hstarts⟩ := (s.scene t).exists_advances_drain collectEvents [] e
  rw [← Scene.events_drain] at hadvances
  refine ⟨_, _, new, ht, ?_, ?_, rfl,
    fun i => heardOn_eq hk ht i fun scene e => (scene.drain collectEvents [] e).2.1, hadvances,
    fun hnew => (starter?_of_unstarted hk ht (hstarts hnew)).2⟩
  · rw [step, onStream_eq hk ht]
    rfl
  · rw [step, onStream_eq hk ht]
    rfl

/-- Closing a stream moves its thread on by no event and no call. -/
theorem stepAdvances_closeStream :
    s.StepAdvances (.closeStream stream) thread t ((s.scene t).close e) [] [] := by
  refine ⟨ht, ?_, ?_, rfl, fun i => (ite_self _).symm, (s.scene t).advances_close e,
    fun hnew => absurd rfl hnew⟩
  · rw [step, onStream_eq hk ht]
    rfl
  · rw [step, onStream_eq hk ht]
    rfl

end

/-- **A step** makes threads, if anything, or advances a scene. -/
theorem step_cases (s : Session) (x : Step) :
    s.StepKeeps x ∨ ∃ thread t scene es new, s.StepAdvances x thread t scene es new := by
  -- A step that names a thread or a stream does nothing if there is none of that number; the last
  -- four move the thread on that they name, and the others leave all threads alone.
  cases x with
  | startThread options => exact .inl ⟨rfl, List.map_append, fun _ => rfl⟩
  | resumeThread id options => exact .inl ⟨rfl, List.map_append, fun _ => rfl⟩
  | clientOptions => exact .inl (.of_eq rfl rfl fun _ => rfl)
  | threadId i =>
    rcases s.onThread_cases i with ⟨t, -, hact⟩ | ⟨-, hact⟩
    · exact .inl (.of_eq (hact _) rfl fun _ => rfl)
    · exact .inl (.of_eq (hact _) rfl fun _ => rfl)
  | openStream i input options =>
    rcases s.onThread_cases i with ⟨t, -, hact⟩ | ⟨-, hact⟩
    · refine .inl (.of_threads ?_ ?_ rfl fun _ => rfl)
      · rw [step, hact, addStream]
      · rw [step, hact, addStream]
    · exact .inl (.of_eq (hact _) rfl fun _ => rfl)
  | run i input options =>
    rcases s.onThread_cases i with ⟨t, ht, -⟩ | ⟨ht, hact⟩
    · exact .inr ⟨i, t, exists_stepAdvances_run ht input options⟩
    · exact .inl (.of_eq (hact _) rfl fun j => by simp only [consumedOn, ht])
  | next k =>
    rcases s.onStream_cases k with ⟨i, e, t, hk, ht⟩ | ⟨hact, hheard⟩
    · exact .inr ⟨i, t, exists_stepAdvances_next hk ht⟩
    · exact .inl (.of_eq (hact _) rfl fun j => hheard j fun scene e => (scene.next e).1.events)
  | drain k =>
    rcases s.onStream_cases k with ⟨i, e, t, hk, ht⟩ | ⟨hact, hheard⟩
    · exact .inr ⟨i, t, exists_stepAdvances_drain hk ht⟩
    · exact .inl (.of_eq (hact _) rfl
        fun j => hheard j fun scene e => (scene.drain collectEvents [] e).2.1)
  | closeStream k =>
    rcases s.onStream_cases k with ⟨i, e, t, hk, ht⟩ | ⟨hact, -⟩
    · exact .inr ⟨i, t, _, _, _, stepAdvances_closeStream hk ht⟩
    · exact .inl (.of_eq (hact _) rfl fun _ => rfl)

/-- **The ids behind a step** are those before, or those that the events consumed on a thread have
announced last; a new thread has the id that it is given. -/
theorem id_step (s : Session) (x : Step) (i : Nat) :
    (s.step x).2.threads[i]?.map (·.id)
      = (s.threads.map (·.id) ++ givenIds [x])[i]?.map
          ((Event.lastAnnounced? (s.consumedOn i x)).or ·) := by
  -- What the step does is read off its kind: only the thread that is moved on has consumed events,
  -- and its id is the last that they have announced.
  rcases s.step_cases x with h | ⟨thread, t, scene, es, new, h⟩
  · rw [h.consumed_eq, ← h.ids_eq, List.getElem?_map, Option.map_map]
    rfl
  · obtain ⟨hlt, -⟩ := List.getElem?_eq_some_iff.mp h.thread_eq
    rw [h.threads_eq, h.given_eq, h.consumed_eq, List.append_nil, List.getElem?_map]
    by_cases hi : thread = i
    · subst hi
      rw [if_pos rfl, List.getElem?_set_self hlt, h.thread_eq, Option.map_some, Option.map_some,
        Option.map_some, h.advances.id_eq]
      rfl
    · rw [if_neg hi, List.getElem?_set_ne hi, Option.map_map]
      rfl

/-- There are as many threads as have been made. -/
theorem length_step (s : Session) (x : Step) :
    (s.step x).2.threads.length = (s.threads.map (·.id) ++ givenIds [x]).length := by
  rcases s.step_cases x with h | ⟨thread, t, scene, es, new, h⟩
  · rw [← h.ids_eq, List.length_map]
  · rw [h.threads_eq, h.given_eq, List.length_set, List.append_nil, List.length_map]

/-- Nothing is consumed on a thread that is not there. -/
theorem consumedOn_eq_nil {s : Session} {i : Nat} (hi : s.threads.length ≤ i) (x : Step) :
    s.consumedOn i x = [] := by
  rcases s.step_cases x with h | ⟨thread, t, scene, es, new, h⟩
  · exact h.consumed_eq i
  · obtain ⟨hlt, -⟩ := List.getElem?_eq_some_iff.mp h.thread_eq
    rw [h.consumed_eq, if_neg (by omega)]

/-- **The ids behind any steps** are those given, or those announced last. -/
theorem id_steps (s : Session) (xs : List Step) (i : Nat) :
    (s.steps xs).2.threads[i]?.map (·.id)
      = (s.threads.map (·.id) ++ givenIds xs)[i]?.map
          ((Event.lastAnnounced? (s.consumedIn i xs)).or ·) := by
  -- Along the steps. A thread that a step makes has heard nothing of that step, so it can be put
  -- behind the others before the step as well as behind it.
  induction xs generalizing s with
  | nil =>
    rw [givenIds, List.filterMap_nil, List.append_nil, List.getElem?_map, Option.map_map]
    rfl
  | cons x xs ih =>
    have hgiven : givenIds (x :: xs) = givenIds [x] ++ givenIds xs := by
      rw [givenIds, givenIds, givenIds, ← List.filterMap_append]
      rfl
    have hids : ((s.step x).2.threads.map (·.id) ++ givenIds xs)[i]?
        = (s.threads.map (·.id) ++ givenIds (x :: xs))[i]?.map
            ((Event.lastAnnounced? (s.consumedOn i x)).or ·) := by
      rw [hgiven, ← List.append_assoc, List.getElem?_append, List.getElem?_append, List.length_map,
        length_step]
      split
      · rw [List.getElem?_map, id_step]
      · next hi =>
        rw [List.length_append, List.length_map] at hi
        rw [consumedOn_eq_nil (by omega)]
        exact Option.map_id'.symm
    show ((s.step x).2.steps xs).2.threads[i]?.map (·.id) = _
    rw [ih, hids, Option.map_map, consumedIn]
    simp only [Function.comp_def, Event.lastAnnounced?_append]

/-- **A step** adds a call for the thread whose turn it starts, or none. -/
theorem exists_gains_step (s : Session) (x : Step) :
    ∃ new, Journal.Gains s.client.journal (s.step x).2.client.journal new ∧
      ∀ call ∈ new, ∃ t, s.starter? x = some t ∧ call.IsFor t.id := by
  rcases s.step_cases x with h | ⟨thread, t, scene, es, new, h⟩
  · rw [h.client_eq]
    exact ⟨[], .refl _, nofun⟩
  · rw [h.client_eq]
    refine ⟨new, h.advances.gains, fun call hcall => ⟨t, ?_, h.advances.isFor call hcall⟩⟩
    exact h.starter_eq (List.ne_nil_of_mem hcall)

/-- Steps add calls, and move none. -/
theorem exists_gains_steps (s : Session) (xs : List Step) :
    ∃ new, Journal.Gains s.client.journal (s.steps xs).2.client.journal new := by
  induction xs generalizing s with
  | nil => exact ⟨[], .refl _⟩
  | cons x xs ih =>
    obtain ⟨first, hfirst, -⟩ := s.exists_gains_step x
    obtain ⟨later, hlater⟩ := ih (s.step x).2
    exact ⟨first ++ later, hfirst.trans hlater⟩

/-- **A step that adds the call at a place of the journal**, by starting a turn of a thread. -/
structure StartsCall (s : Session) (x : Step) (place : Nat) (t : Thread) : Prop where
  length_le : s.client.journal.length ≤ place
  lt_length : place < (s.step x).2.client.journal.length
  starter_eq : s.starter? x = some t

/-- **Every call that steps have added** was added by one of them, which started a turn, and is for
the id that the thread of the turn had by then. -/
theorem exists_startsCall (s : Session) (xs : List Step) {place : Nat} {call : Call}
    (hplace : s.client.journal.length ≤ place)
    (hcall : (s.steps xs).2.client.journal[place]? = some call) :
    ∃ ys x zs t, xs = ys ++ x :: zs ∧ (s.steps ys).2.StartsCall x place t ∧ call.IsFor t.id := by
  induction xs generalizing s with
  | nil => exact absurd (List.getElem?_eq_some_iff.mp hcall).1 (Nat.not_lt.mpr hplace)
  | cons x xs ih =>
    by_cases hlt : place < (s.step x).2.client.journal.length
    · -- this step has added it, and the later ones have left it where it is
      obtain ⟨later, hlater⟩ := (s.step x).2.exists_gains_steps xs
      obtain ⟨call', hcall', hiff'⟩ := hlater.exists_getElem? hcall
      rw [List.getElem?_append_left hlt] at hcall'
      obtain ⟨first, hfirst, hstarted⟩ := s.exists_gains_step x
      obtain ⟨call'', hmem, hiff⟩ := hfirst.exists_of_length_le hplace hcall'
      obtain ⟨t, hstarter, hfor⟩ := hstarted call'' hmem
      exact ⟨[], x, xs, t, rfl, ⟨hplace, hlt, hstarter⟩, (hiff' _).mpr ((hiff _).mpr hfor)⟩
    -- It is not there yet, so one of the later steps adds it.
    · obtain ⟨ys, y, zs, t, rfl, hstarts, hfor⟩ := ih (s.step x).2 (Nat.not_lt.mp hlt) hcall
      exact ⟨x :: ys, y, zs, t, rfl, hstarts, hfor⟩

/-- **A thread is a handle on the conversation announced last.**  Behind any steps a thread has the
id that the events consumed on it have announced last, or the one it was given; so it has while a
stream is asked for events, and a run or a drained stream is asked for its events and closed.  Every
call that the steps have added was added by a step that started a turn, and is for the id that the
thread of the turn had by then.  A request whose parts have their types has a command, which names
just the conversation of the request. -/
theorem id_eq_lastAnnounced (c : Client) (xs : List Step) :
    let start : Session := ⟨c, [], []⟩
    let s := (start.steps xs).2
    (∀ i : Nat, s.threads[i]?.map (·.id)
        = (givenIds xs)[i]?.map ((Event.lastAnnounced? (start.consumedIn i xs)).or ·)) ∧
      (∀ (t : Thread) (e : EventStream) (n : Nat), ((s.scene t).asked n e).1.thread.id
        = (Event.lastAnnounced? ((s.scene t).heard n e)).or t.id) ∧
      (∀ (t : Thread) (input : Input) (options : TurnOptions), ∃ n,
        (s.scene t).ranThrough input options = (s.scene t).heard n (.unstarted input options) ∧
          ((s.scene t).run input options).2
            = ((s.scene t).asked n (.unstarted input options)).1.close
                ((s.scene t).asked n (.unstarted input options)).2) ∧
      (∀ (t : Thread) (e : EventStream), ∃ n,
        ((s.scene t).drain collectEvents [] e).2.1 = (s.scene t).heard n e ∧
          ((s.scene t).drain collectEvents [] e).2.2
            = ((s.scene t).asked n e).1.close ((s.scene t).asked n e).2) ∧
      (∀ (place : Nat) (call : Call), c.journal.length ≤ place →
        s.client.journal[place]? = some call →
          ∃ ys x zs t, xs = ys ++ x :: zs ∧ (start.steps ys).2.StartsCall x place t ∧
            call.IsFor t.id) ∧
      ∀ (e : Executor) (r : TurnRequest), r.WellTyped →
        ∃ words, e.command r = .ok words ∧ Executor.Resumes r.threadId words := by
  intro start s
  refine ⟨fun i => ?_, fun t e n => (s.scene t).id_asked n e,
    fun t input options => (s.scene t).exists_run_eq_asked input options, fun t e => ?_,
    fun place call hplace hcall => start.exists_startsCall xs hplace hcall, fun e r hr => ?_⟩
  · exact id_steps start xs i
  · rw [Scene.events_drain]
    exact (s.scene t).exists_drain_eq_asked collectEvents [] e
  · obtain ⟨words, hwords⟩ := e.exists_command hr
    exact ⟨words, hwords, Executor.resumes_command hwords⟩

/-- A client whose first turn announces the id of its conversation. -/
def announcesOnce : Client :=
  .inMemory { environment := [], files := [], schemaDirectory := "/tmp/schemas" } {}
    [⟨["\x7b\"type\":\"thread.started\",\"thread_id\":\"t1\"\x7d"], none⟩]

/-- A new thread with two streams, both made before the first of them is asked for an event and
closed; the second is asked after that. -/
def twoStreams : List Step :=
  [.startThread {}, .openStream 0 (.text "first") {}, .openStream 0 (.text "second") {}, .next 0,
    .closeStream 0, .next 1]

/-- The thread has the id that its first turn has announced, and its second turn was started for the
id that it had then. -/
theorem id_twoStreams :
    let start : Session := ⟨announcesOnce, [], []⟩
    let s := (start.steps twoStreams).2
    s.threads[0]?.map (·.id) = some (some (.plain "t1")) ∧
      (∃ call, s.client.journal[1]? = some call ∧ ∃ ys x zs t, twoStreams = ys ++ x :: zs ∧
        (start.steps ys).2.StartsCall x 1 t ∧ call.IsFor t.id) ∧
      ∃ words, (Executor.command ⟨"trill", none, [], .null, .null⟩
          { threadId := some (.plain "t1") }) = .ok words ∧
        Executor.Resumes (some (.plain "t1")) words := by
  have h := id_eq_lastAnnounced announcesOnce twoStreams
  dsimp only at h ⊢
  obtain ⟨hids, -, -, -, hcalls, hcommands⟩ := h
  have hlast : Event.lastAnnounced? (Session.consumedIn ⟨announcesOnce, [], []⟩ 0 twoStreams)
      = some (.plain "t1") := by decide +kernel
  have hlength :
      1 < (Session.steps ⟨announcesOnce, [], []⟩ twoStreams).2.client.journal.length := by
    decide +kernel
  have hsecond := List.getElem?_eq_getElem hlength
  have hr : ({ threadId := some (.plain "t1") } : TurnRequest).WellTyped :=
    ⟨⟨.absent, .absent, .absent, ⟨false, rfl⟩, .absent, .absent, .absent, .absent, nofun⟩, nofun⟩
  refine ⟨?_, ⟨_, hsecond, hcalls 1 _ (Nat.zero_le 1) hsecond⟩, hcommands _ _ hr⟩
  rw [hids 0, hlast]
  rfl

end Session

end AgentClient
