import AgentClient.Conversation.Thread

/-!
# Conversation/Session — threads and streams of one client, in any order of steps

A session numbers the threads and the streams of a client as they are made, and takes steps on them.
Streams of different threads may be advanced in turn; a failing step does not end the session.
-/

namespace AgentClient

/-- One step of a session. Threads and streams are meant by their numbers. -/
inductive Step where
  /-- Begin a new conversation. -/
  | startThread (options : ThreadOptions)
  /-- Continue a conversation by its id. -/
  | resumeThread (id : String) (options : ThreadOptions)
  /-- Ask for the options of the client. -/
  | clientOptions
  /-- Ask for the id of a thread. -/
  | threadId (thread : Nat)
  /-- Run a turn to its end. -/
  | run (thread : Nat) (input : Input) (options : TurnOptions)
  /-- Make a stream; nothing is run yet. -/
  | openStream (thread : Nat) (input : Input) (options : TurnOptions)
  /-- Ask a stream for an event. -/
  | next (stream : Nat)
  /-- Ask a stream for all events that are left. -/
  | drain (stream : Nat)
  /-- Close a stream. -/
  | closeStream (stream : Nat)
  deriving DecidableEq

/-- What a step gives. -/
inductive StepResult where
  | threadOptions (options : ThreadOptions)
  | clientOptions (options : ClientOptions)
  | threadId (id : Option WireText)
  | turn (turn : Turn)
  | opened
  | event (event : Event)
  | ended
  /-- The events that were left, and the failure behind them if there was one. -/
  | events (events : List Event) (failure : Option Failure)
  | closed
  | failed (failure : Failure)
  /-- No thread or stream has the number. -/
  | absent
  deriving DecidableEq

/-- A client with the threads and the streams that were made for it. A stream belongs to a thread.
-/
structure Session where
  client : Client
  threads : List Thread := []
  streams : List (Nat × EventStream) := []

/-- What is reported of a step: its result, the id of its thread, and how many turns have reached
the agent and been closed by then. -/
structure StepReport where
  result : StepResult
  id : Option WireText
  calls : Nat
  closed : Nat
  deriving DecidableEq

namespace Session

/-- A session with one more thread. -/
def addThread (s : Session) (t : Thread) : Session :=
  { s with threads := s.threads ++ [t] }

/-- A session with one more stream. -/
def addStream (s : Session) (thread : Nat) (e : EventStream) : Session :=
  { s with streams := s.streams ++ [(thread, e)] }

/-- A session with another state of one of its streams. -/
def putStream (s : Session) (stream thread : Nat) (e : EventStream) : Session :=
  { s with streams := s.streams.set stream (thread, e) }

/-- The client and a thread of a session. -/
def scene (s : Session) (t : Thread) : Scene := ⟨s.client, t⟩

/-- A session after a step on one of its threads. -/
def after (s : Session) (thread : Nat) (scene : Scene) : Session :=
  { s with client := scene.client, threads := s.threads.set thread scene.thread }

/-- Do something with a thread. -/
def onThread (s : Session) (thread : Nat)
    (act : Thread → StepResult × Session) : StepResult × Session :=
  match s.threads[thread]? with
  | some t => act t
  | none => (.absent, s)

/-- Do something with a stream and its thread. -/
def onStream (s : Session) (stream : Nat)
    (act : Nat → Thread → EventStream → StepResult × Session) : StepResult × Session :=
  match s.streams[stream]? with
  | some (thread, e) => s.onThread thread fun t => act thread t e
  | none => (.absent, s)

/-- What asking a stream for an event gives, as the result of a step. -/
def pullResult : Pull → StepResult
  | .event e => .event e
  | .ended => .ended
  | .failed f => .failed f

/-- Keep an event. -/
def collectEvents (events : List Event) (_ : Thread) (e : Event) : Except Failure (List Event) :=
  .ok (events ++ [e])

/-- **Take a step.** -/
def step (s : Session) : Step → StepResult × Session
  | .startThread options => (.threadOptions options, s.addThread { options })
  | .resumeThread id options =>
    (.threadOptions options, s.addThread { options, id := some (.plain id) })
  | .clientOptions => (.clientOptions s.client.options, s)
  | .threadId thread => s.onThread thread fun t => (.threadId t.id, s)
  | .run thread input options =>
    s.onThread thread fun t =>
      match (s.scene t).run input options with
      | (.ok turn, scene) => (.turn turn, s.after thread scene)
      | (.error f, scene) => (.failed f, s.after thread scene)
  | .openStream thread input options =>
    s.onThread thread fun _ => (.opened, s.addStream thread (.unstarted input options))
  | .next stream =>
    s.onStream stream fun thread t e =>
      let (p, scene, e) := (s.scene t).next e
      (pullResult p, (s.after thread scene).putStream stream thread e)
  | .drain stream =>
    s.onStream stream fun thread t e =>
      let (failure, events, scene) := (s.scene t).drain collectEvents [] e
      (.events events failure, (s.after thread scene).putStream stream thread .ended)
  | .closeStream stream =>
    s.onStream stream fun thread t e =>
      (.closed, (s.after thread ((s.scene t).close e)).putStream stream thread .ended)

/-- The thread that a step was on, in the session behind it. -/
def threadOf? (s : Session) : Step → Option Thread
  | .startThread _ | .resumeThread .. => s.threads.getLast?
  | .threadId thread | .run thread _ _ | .openStream thread _ _ => s.threads[thread]?
  | .next stream | .drain stream | .closeStream stream =>
    s.streams[stream]?.bind fun (thread, _) => s.threads[thread]?
  | .clientOptions => none

/-- What is reported of a step that was taken. -/
def report (s : Session) (step : Step) (result : StepResult) : StepReport :=
  { result
    id := (s.threadOf? step).bind (·.id)
    calls := s.client.journal.length
    closed := s.client.journal.countP Call.isClosed }

/-- Take steps one after another. -/
def steps (s : Session) : List Step → List StepReport × Session
  | [] => ([], s)
  | step :: rest =>
    let (result, s) := s.step step
    let (reports, last) := s.steps rest
    (s.report step result :: reports, last)

theorem steps_append (s : Session) (xs ys : List Step) :
    s.steps (xs ++ ys)
      = ((s.steps xs).1 ++ ((s.steps xs).2.steps ys).1, ((s.steps xs).2.steps ys).2) := by
  induction xs generalizing s with
  | nil => rfl
  | cons x xs ih => simp [steps, ih]

/-- **End a session**: close every stream that is left. -/
def finish (s : Session) : Session :=
  (List.range s.streams.length).foldl (fun s stream => (s.step (.closeStream stream)).2) s

end Session

end AgentClient
