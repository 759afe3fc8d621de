import AgentClient.Proofs.Child.Outcome
import AgentClient.Proofs.Child.Printed
import AgentClient.Proofs.Conversation.TurnResult
import AgentClient.Proofs.Json.TrailingReturn

/-!
# Proofs/Conversation/Interchange — a process and an agent in memory are interchangeable

A child that prints lines gives its parent the lines that an agent in memory would give, apart from
carriage returns at their ends; and these change neither the event of a line nor the kind of its
failure (`Event.mapError_parse_of_mayReturn`).  So two streams over the two go in step
(`InStep.next`): asked equally often, they have given the same events, and have ended in the same
way or have not (`interchangeable`). -/

namespace AgentClient

/-! ## Kinds of failures

The two agents cannot fail with the same error, since an error quotes the line with its carriage
return. What they have in common is the kind. -/

/-- The kind of an error. -/
def ClientError.label : ClientError → String
  | .general _ | .busy => "TrillError"
  | .config _ => "ConfigError"
  | .executableNotFound _ => "ExecutableNotFoundError"
  | .launch _ => "ProcessLaunchError"
  | .exit .. => "ProcessExitError"
  | .timeout _ => "TurnTimeoutError"
  | .protocol .. => "ProtocolError"
  | .stream .. => "StreamError"
  | .turnFailed .. => "TurnFailedError"
  | .mismatch .. => "SchemaValidationError"

/-- The kind of a failure. -/
def Failure.label : Failure → String
  | .client error => error.label
  | .fault f => f.kind.label

/-- What asking for an event gives: the event, none at the end, or the kind of the failure. -/
def Pull.outcome : Pull → Except String (Option Event)
  | .event e => .ok (some e)
  | .ended => .ok none
  | .failed f => .error f.label

/-! ## Events of lines

A carriage return at the end of a line is blank to the reader wherever a document may end. Inside a
text that breaks off it is another fault at the same place, so the line is refused either way. -/

namespace Event

/-- **A carriage return at the end of a line** changes neither its event nor the kind of its
failure. -/
theorem mapError_parse_return (line : String) :
    (parse (line ++ "\r")).mapError Failure.label = (parse line).mapError Failure.label := by
  have h := Json.outline_read_return .wire line
  rw [parse, parse]
  generalize Json.read .wire (line ++ "\r") = reading' at h ⊢
  generalize Json.read .wire line = reading at h ⊢
  -- With the return the line is read alike, or is malformed in both forms, perhaps with another
  -- complaint at another place. The label tells neither.
  rcases Json.eq_or_malformed_of_outline h with rfl | ⟨what, place, what', place', rfl, rfl⟩
  · rcases reading' with f | v
    · cases f <;> rfl
    · cases v with
      | table t =>
        dsimp only
        rcases ofTable t with f | e
        · dsimp only
          cases isMalformed f <;> rfl
        · rfl
      | _ => rfl
  · rfl

variable {line line' : String}

/-- A line and the line with a return are the same event, or are rejected alike. -/
theorem mapError_parse_of_mayReturn (h : MayReturn line line') :
    (parse line').mapError Failure.label = (parse line).mapError Failure.label := by
  rcases h with rfl | rfl
  · rfl
  · exact mapError_parse_return line

/-- Both lines are the same event, or they are none for reasons of one kind. -/
theorem parse_cases (h : MayReturn line line') :
    (∃ e, parse line = .ok e ∧ parse line' = .ok e) ∨
      ∃ f f', parse line = .error f ∧ parse line' = .error f' ∧ f'.label = f.label := by
  have hparse := mapError_parse_of_mayReturn h
  generalize parse line = reading at hparse ⊢
  generalize parse line' = reading' at hparse ⊢
  rcases reading with f | e <;> rcases reading' with f' | e'
  · exact .inr ⟨f, f', rfl, rfl, Except.error.inj hparse⟩
  · exact absurd hparse nofun
  · exact absurd hparse nofun
  · exact .inl ⟨e, rfl, congrArg Except.ok (Except.ok.inj hparse)⟩

end Event

/-! ## Two turns in step

The relation holds between the turns at every moment: as many lines are left to each, equal but for
carriage returns, and the threads are the same. One step of both keeps it. -/

/-- Two turns that have the same lines to get, apart from carriage returns, and no failure behind.
-/
structure LiveTurn.InStep (t t' : LiveTurn) : Prop where
  lines : List.Forall₂ MayReturn t.feed.lines t'.feed.lines
  failure : t.feed.failure = none
  failure' : t'.feed.failure = none

/-- **Two starts of a turn that come to the same**: both have failed in the same way, or both turns
run, in step. -/
inductive StartInStep :
    Except Failure LiveTurn × Scene → Except Failure LiveTurn × Scene → Prop
  | failed (f : Failure) {m s : Scene} (hthread : s.thread = m.thread) :
    StartInStep (.error f, m) (.error f, s)
  | started {t t' : LiveTurn} (hturn : t.InStep t') {m s : Scene} (hthread : s.thread = m.thread) :
    StartInStep (.ok t, m) (.ok t', s)

/-- **Two streams in step**, on threads that are equal. -/
inductive InStep : Scene → EventStream → Scene → EventStream → Prop
  | unstarted {input : Input} {options : TurnOptions} {m s : Scene} (hthread : s.thread = m.thread)
      (hstart : StartInStep (m.start input options) (s.start input options)) :
    InStep m (.unstarted input options) s (.unstarted input options)
  | live {t t' : LiveTurn} (hturn : t.InStep t') {m s : Scene} (hthread : s.thread = m.thread) :
    InStep m (.live t) s (.live t')
  | ended {m s : Scene} (hthread : s.thread = m.thread) : InStep m .ended s .ended

variable {m s : Scene} {d e : EventStream} {t t' : LiveTurn}

namespace InStep

theorem thread_eq (h : InStep m d s e) : s.thread = m.thread := by
  cases h with
  | unstarted hthread | live _ hthread | ended hthread => exact hthread

/-- Closing both streams leaves equal threads. -/
theorem thread_close (h : InStep m d s e) : (s.close e).thread = (m.close d).thread := by
  cases h with
  | unstarted hthread | ended hthread => exact hthread
  | live _ hthread => exact Scene.thread_release_eq hthread _ _ _ _

/-- Turns in step that are asked for an event give the same, and go on in step. -/
theorem pull (hturn : t.InStep t') (hthread : s.thread = m.thread) :
    (s.pull t').1.outcome = (m.pull t).1.outcome ∧
      InStep (m.pull t).2.1 (m.pull t).2.2 (s.pull t').2.1 (s.pull t').2.2 := by
  obtain ⟨hlines, hfailure, hfailure'⟩ := hturn
  rw [Scene.pull, Scene.pull]
  generalize hl : t.feed.lines = lines at hlines
  generalize hl' : t'.feed.lines = lines' at hlines
  -- Both feeds are at their end, or both have a line, which is the same event or none.
  cases hlines with
  | nil =>
    dsimp only [Scene.finish]
    rw [hfailure, hfailure']
    exact ⟨rfl, .ended (Scene.thread_release_eq hthread _ _ _ _)⟩
  | @cons line line' rest rest' hreturn hrest =>
    have hturn : (t.withLines rest).InStep (t'.withLines rest') := ⟨hrest, hfailure, hfailure'⟩
    dsimp only [Scene.takeLine]
    rcases Event.parse_cases hreturn with ⟨e, hp, hp'⟩ | ⟨f, f', hp, hp', hlabel⟩
    · rw [hp, hp']
      exact ⟨rfl, .live hturn (Scene.thread_notice_eq hthread e)⟩
    · rw [hp, hp']
      exact ⟨congrArg Except.error hlabel, .ended (Scene.thread_release_eq hthread _ _ _ _)⟩

/-- **Streams in step** that are asked for an event give the same, and go on in step. -/
theorem next (h : InStep m d s e) :
    (s.next e).1.outcome = (m.next d).1.outcome ∧
      InStep (m.next d).2.1 (m.next d).2.2 (s.next e).2.1 (s.next e).2.2 := by
  -- The two streams are at the same point, so they are asked alike.
  cases h with
  | ended hthread => exact ⟨rfl, .ended hthread⟩
  | live hturn hthread => exact pull hturn hthread
  | unstarted hthread hstart =>
    rw [Scene.next, Scene.next]
    generalize m.start _ _ = x at hstart
    generalize s.start _ _ = x' at hstart
    cases hstart with
    | failed f hthread => exact ⟨rfl, .ended hthread⟩
    | started hturn hthread => exact pull hturn hthread

/-- So they do, asked any number of times. -/
theorem asked (h : InStep m d s e) (n : Nat) :
    InStep (m.asked n d).1 (m.asked n d).2 (s.asked n e).1 (s.asked n e).2 := by
  induction n generalizing m s d e with
  | zero => exact h
  | succ n ih => exact ih h.next.2

end InStep

/-! ## Two turns that are run to the end

Running a turn to its end is not a sequence of steps of a stream in the model, so it has an
induction of its own, on the lines of both turns at once. -/

/-- What a receiver has seen of a turn: the kind of its failure, what it has made of the events, and
the thread. -/
def seen {σ : Type} : Option Failure × σ × Scene → Option String × σ × Thread
  | (failure, state, s) => (failure.map Failure.label, state, s.thread)

/-- **Turns in step** that are given to a receiver show it the same. -/
theorem seen_deliver {σ : Type} (receive : σ → Thread → Event → Except Failure σ)
    (hturn : t.InStep t') {lines lines' : List String}
    (hlines : List.Forall₂ MayReturn lines lines')
    (hthread : s.thread = m.thread) (state : σ) :
    seen (Scene.deliver receive t' lines' s state)
      = seen (Scene.deliver receive t lines m state) := by
  induction hlines generalizing m s state with
  | nil =>
    simp only [Scene.deliver, Scene.finish, hturn.failure, hturn.failure']
    exact congrArg (fun thread => (none, state, thread)) (Scene.thread_release_eq hthread _ _ _ _)
  | cons hreturn _ ih =>
    simp only [Scene.deliver, Scene.takeLine]
    rcases Event.parse_cases hreturn with ⟨e, hp, hp'⟩ | ⟨f, f', hp, hp', hlabel⟩
    · rw [hp, hp']
      -- the receiver is given equal events and equal threads, so it answers the same
      have hnotice := Scene.thread_notice_eq hthread e
      dsimp only
      rw [hnotice]
      rcases receive state (m.notice e).thread e with f | state'
      · exact congrArg (fun thread => (some f.label, state, thread))
          (Scene.thread_release_eq hnotice _ _ _ _)
      · exact ih hnotice state'
    · rw [hp, hp']
      simp only [seen, Option.map_some, hlabel, Scene.thread_release_eq hthread t t' false false]

/-- Turns that start in step show a receiver the same. -/
theorem seen_drain {σ : Type} (receive : σ → Thread → Event → Except Failure σ) {input : Input}
    {options : TurnOptions} (h : StartInStep (m.start input options) (s.start input options))
    (state : σ) :
    seen (s.drain receive state (.unstarted input options))
      = seen (m.drain receive state (.unstarted input options)) := by
  rw [Scene.drain, Scene.drain]
  generalize m.start _ _ = x at h
  generalize s.start _ _ = x' at h
  cases h with
  | failed f hthread => exact congrArg (fun thread => (some f.label, state, thread)) hthread
  | started hturn hthread => exact seen_deliver receive hturn hturn.lines hthread state

/-- Runs that start in step have the same result, or a failure of the same kind. -/
theorem run_of_startInStep {input : Input} {options : TurnOptions} (hthread : s.thread = m.thread)
    (h : StartInStep (m.start input options) (s.start input options)) :
    (s.run input options).1.mapError Failure.label
        = (m.run input options).1.mapError Failure.label ∧
      (s.run input options).2.thread = (m.run input options).2.thread := by
  cases hschema : OutputSchema.resolve options.outputSchema with
  | error f =>
    rw [Scene.run, Scene.run, hschema]
    exact ⟨rfl, hthread⟩
  | ok schema =>
    have hseen := seen_drain Scene.addTo h {}
    rw [Scene.run_of_resolve hschema, Scene.run_of_resolve hschema]
    generalize m.drain Scene.addTo {} (.unstarted input options) = drained at hseen ⊢
    generalize s.drain Scene.addTo {} (.unstarted input options) = drained' at hseen ⊢
    obtain ⟨failure, turn, m'⟩ := drained
    obtain ⟨failure', turn', s'⟩ := drained'
    -- What has been seen of the two is the same, so they end alike, with the same turn.
    obtain ⟨hfailure, rfl, hthread'⟩ : failure'.map Failure.label = failure.map Failure.label ∧
        turn' = turn ∧ s'.thread = m'.thread := by
      simpa only [seen, Prod.mk.injEq] using hseen
    cases failure with
    | none =>
      obtain rfl := Option.map_eq_none_iff.mp hfailure
      exact ⟨rfl, hthread'⟩
    | some f =>
      obtain ⟨f', rfl, hlabel⟩ := Option.map_eq_some_iff.mp hfailure
      exact ⟨congrArg Except.error hlabel, hthread'⟩

/-! ## A process and an agent in memory

It remains to start both turns. A process is started only if the words of its command can be made,
which is where the options must have their types. -/

/-- Entries of an input that have their types. -/
inductive InputEntry.IsWellTyped : InputEntry → Prop
  | text (text : String) : IsWellTyped (.text text)
  | image (path : String) : IsWellTyped (.image (.str path))

/-- **Inputs that have their types.** -/
inductive Input.WellTyped : Input → Prop
  | text (text : String) : WellTyped (.text text)
  | entries {items : List InputEntry} (h : ∀ item ∈ items, item.IsWellTyped) :
    WellTyped (.entries items)

/-- They have a prompt and images, which are texts. -/
theorem Input.WellTyped.exists_normalize {input : Input} (h : input.WellTyped) :
    ∃ prompt images, input.normalize = .ok (prompt, images) ∧
      ∀ image ∈ images, ∃ path, image = .str path := by
  -- Entries of the declared types are texts and images, and both are taken.
  have hcollect : ∀ items : List InputEntry, (∀ item ∈ items, item.IsWellTyped) →
      ∃ texts images, collect Value.displayDepth items = .ok (texts, images) ∧
        ∀ image ∈ images, ∃ path, image = .str path := by
    intro items hitems
    induction items with
    | nil => exact ⟨[], [], rfl, nofun⟩
    | cons item items ih =>
      rw [List.forall_mem_cons] at hitems
      obtain ⟨texts, images, hrest, himages⟩ := ih hitems.2
      cases hitems.1 with
      | text text =>
        exact ⟨text :: texts, images, by rw [collect, hrest]; rfl, himages⟩
      | image path =>
        exact ⟨texts, .str path :: images, by rw [collect, hrest]; rfl,
          List.forall_mem_cons.mpr ⟨⟨path, rfl⟩, himages⟩⟩
  cases h with
  | text text => exact ⟨text, [], rfl, nofun⟩
  | @entries items h =>
    obtain ⟨texts, images, hitems, himages⟩ := hcollect items h
    exact ⟨Text.join "\n\n" texts, images, by rw [normalize, normalizeAt, hitems]; rfl, himages⟩

/-- **A turn that is asked of an agent in memory, and of a process that prints the same lines**: the
threads are equal, and input, options and timeout have their types. -/
structure Interchange (lines : List String) (m s : Scene) (input : Input) (options : TurnOptions) :
    Prop where
  thread_eq : s.thread = m.thread
  memory : ∃ replies, m.client.agent = .memory replies ∧ replies.headD {} = { lines }
  process : ∃ e scripts, s.client.agent = .executable e scripts ∧
    (takeScript scripts).1.PrintsLines lines
  input : input.WellTyped
  threadOptions : s.thread.options.WellTyped
  timeout : options.timeout = .null ∨ options.timeout.IsFiniteSeconds

namespace Interchange

variable {lines : List String} {input : Input} {options : TurnOptions}

/-- A timeout that is null or some seconds can be waited for. -/
theorem exists_deadline (h : Interchange lines m s input options) :
    ∃ deadline, Deadline.ofTimeout options.timeout = .ok deadline := by
  rcases h.timeout with hnull | hfinite
  · exact ⟨.never, by rw [hnull]; rfl⟩
  · exact ⟨.sometime, Deadline.ofTimeout_of_isFiniteSeconds hfinite⟩

/-- The agent in memory gives the lines. -/
theorem launch_memory (h : Interchange lines m s input options) (hasSchema : Bool) (r : TurnRequest)
    (schema : Option String) :
    ∃ feed c, (m.client.makeDirectory hasSchema).launch r schema = (.ok feed, c) ∧
      feed.lines = lines ∧ feed.failure = none := by
  obtain ⟨replies, hagent, hreply⟩ := h.memory
  have hagent' : (m.client.makeDirectory hasSchema).agent = .memory replies := by
    rw [← hagent]
    cases hasSchema <;> rfl
  rw [Client.launch, hagent']
  dsimp only
  rw [hreply]
  exact ⟨_, _, rfl, rfl, rfl⟩

/-- The process gives them, apart from carriage returns. -/
theorem launch_process (h : Interchange lines m s input options) (hasSchema : Bool)
    {r : TurnRequest}
    (hr : r.WellTyped) (htimeout : r.timeout = options.timeout) (schema : Option String) :
    ∃ feed c, (s.client.makeDirectory hasSchema).launch r schema = (.ok feed, c) ∧
      List.Forall₂ MayReturn lines feed.lines ∧ feed.failure = none := by
  obtain ⟨e, scripts, hagent, hprints⟩ := h.process
  obtain ⟨command, hcommand⟩ := e.exists_command hr
  obtain ⟨deadline, hdeadline⟩ := h.exists_deadline
  -- Nothing can fail before the process is there: the options are well typed, the timeout is one,
  -- and the child is not refused.
  let p : Spawn (s.client.makeDirectory hasSchema) r (takeScript scripts).1 :=
    { executor := e
      scripts
      later := (takeScript scripts).2
      command
      deadline
      agent_eq := by rw [← hagent]; cases hasSchema <;> rfl
      takeScript_eq := rfl
      command_eq := hcommand
      deadline_eq := htimeout ▸ hdeadline
      refusal_eq := hprints.refusal_eq }
  obtain ⟨lines', hlines, hdelivery⟩ := hprints.exists_ofScript_eq e.executable r.timeout deadline
  refine ⟨p.feed, p.client schema, p.launch_eq schema, ?_, ?_⟩
  · show List.Forall₂ MayReturn lines p.delivery.lines
    rw [show p.delivery = ⟨lines', none, true⟩ from hdelivery]
    exact hlines
  · show p.delivery.failure = none
    rw [show p.delivery = ⟨lines', none, true⟩ from hdelivery]

/-- A schema cannot be written for the same reason in any directory. -/
theorem ofSchema?_cases (schema : Option Table) (directory directory' : String) :
    (∃ f, SchemaFile.ofSchema? directory schema = .error f ∧
      SchemaFile.ofSchema? directory' schema = .error f) ∨
    ∃ file file', SchemaFile.ofSchema? directory schema = .ok file ∧
      SchemaFile.ofSchema? directory' schema = .ok file' := by
  cases schema with
  | none => exact .inr ⟨none, none, rfl, rfl⟩
  | some t =>
    rw [SchemaFile.ofSchema?, SchemaFile.ofSchema?, SchemaFile.ofSchema, SchemaFile.ofSchema]
    cases Json.write .oneLine (.table t) with
    | error f => exact .inl ⟨_, rfl, rfl⟩
    | ok text => exact .inr ⟨_, _, rfl, rfl⟩

/-- What comes behind the acceptance of the input and the schema is in step. -/
theorem occupy (h : Interchange lines m s input options) (prompt : String) {images : List Value}
    (himages : ∀ image ∈ images, ∃ path, image = .str path) (schema : Option Table) :
    StartInStep (m.occupy prompt images schema options.timeout)
      (s.occupy prompt images schema options.timeout) := by
  dsimp only [Scene.occupy]
  rw [← h.thread_eq]
  -- The schema is written on both sides or on neither, into files in directories of their own.
  rcases ofSchema?_cases schema
    (m.client.makeDirectory schema.isSome).surroundings.schemaDirectory
    (s.client.makeDirectory schema.isSome).surroundings.schemaDirectory
    with ⟨f, hfile, hfile'⟩ | ⟨file, file', hfile, hfile'⟩
  · rw [hfile, hfile']
    exact .failed f rfl
  · have hr : (s.request prompt images file' options.timeout).WellTyped :=
      ⟨h.threadOptions, himages⟩
    obtain ⟨feed, c, hlaunch, hlines, hfailure⟩ := h.launch_memory schema.isSome
      (m.request prompt images file options.timeout) (file.map (·.text))
    obtain ⟨feed', c', hlaunch', hlines', hfailure'⟩ :=
      h.launch_process schema.isSome hr rfl (file'.map (·.text))
    rw [hfile, hfile']
    dsimp only
    rw [hlaunch, hlaunch']
    exact .started ⟨hlines ▸ hlines', hfailure, hfailure'⟩ rfl

/-- **Both turns start in step.** -/
theorem start (h : Interchange lines m s input options) :
    StartInStep (m.start input options) (s.start input options) := by
  obtain ⟨prompt, images, hinput, himages⟩ := h.input.exists_normalize
  rw [Scene.start, Scene.start, ← h.thread_eq]
  -- The two threads are the same, so both are busy or neither, and the schema and the input are
  -- looked at alike.
  cases s.thread.running with
  | true => exact .failed _ h.thread_eq
  | false =>
    rw [if_neg Bool.false_ne_true, if_neg Bool.false_ne_true]
    cases OutputSchema.resolve options.outputSchema with
    | error f => exact .failed f h.thread_eq
    | ok schema =>
      rw [hinput]
      exact h.occupy prompt himages schema.schema

/-- The streams of both turns are in step. -/
theorem inStep (h : Interchange lines m s input options) :
    InStep m (.unstarted input options) s (.unstarted input options) :=
  .unstarted h.thread_eq h.start

end Interchange

/-- **A process and an agent in memory are interchangeable.**  A child that prints lines, in
whatever way and portions, and exits with code 0 makes of a turn what an agent makes of it that
gives these lines: asked for events any number of times, both streams give the same event next, or
end, or fail in the same way, the threads are equal, and they are if the streams are closed then.  A
run gives an equal result, or fails in the same way, and leaves equal threads. -/
theorem interchangeable {lines : List String} {m s : Scene} {input : Input} {options : TurnOptions}
    (h : Interchange lines m s input options) :
    (∀ n {m' s' : Scene} {d e : EventStream}, m.asked n (.unstarted input options) = (m', d) →
      s.asked n (.unstarted input options) = (s', e) →
        (s'.next e).1.outcome = (m'.next d).1.outcome ∧ s'.thread = m'.thread ∧
          (s'.close e).thread = (m'.close d).thread) ∧
      (s.run input options).1.mapError Failure.label
        = (m.run input options).1.mapError Failure.label ∧
      (s.run input options).2.thread = (m.run input options).2.thread := by
  refine ⟨fun n m' s' d e hm hs => ?_, run_of_startInStep h.thread_eq h.start⟩
  -- In step from the start on, after any number of events.
  have hstep := h.inStep.asked n
  rw [hm, hs] at hstep
  exact ⟨hstep.next.1, hstep.thread_eq, hstep.thread_close⟩

/-- Lines of which the last is no event. -/
def startedAndNumber : List String :=
  ["\x7b\"type\":\"thread.started\",\"thread_id\":\"t1\"\x7d", "12"]

/-- The text in which a child prints them: a carriage return, a blank line, and no end. -/
def startedAndNumberText : String :=
  "\x7b\"type\":\"thread.started\",\"thread_id\":\"t1\"\x7d\r\n \t\r\n12"

/-- The child writes it in two portions. -/
def startedAndNumberPortions : List (List UInt8) :=
  let bytes := startedAndNumberText.toList.flatMap String.utf8EncodeChar
  [bytes.take 45, bytes.drop 45]

/-- It takes its prompt, and exits with code 0. -/
def startedAndNumberChild : Script :=
  { output := startedAndNumberPortions.map .bytes }

/-- A thread whose turn runs the child. -/
def processThread : Scene :=
  ⟨clientOfChild startedAndNumberChild, {}⟩

/-- A thread whose turn is answered from memory. -/
def memoryThread : Scene :=
  ⟨.inMemory { environment := [], files := [], schemaDirectory := "/tmp/schemas" } {}
    [{ lines := startedAndNumber }], {}⟩

/-- Both runs fail for the last line, under the id that the first one announces. -/
theorem interchange_startedAndNumber :
    Interchange startedAndNumber memoryThread processThread (.text "go") {} ∧
      (processThread.run (.text "go") {}).1.mapError Failure.label = .error "ProtocolError" ∧
      (processThread.run (.text "go") {}).2.thread.id = some (.plain "t1") := by
  have hprints : Prints startedAndNumber startedAndNumberText.toList := by
    have htext : startedAndNumberText.toList
        = ("\x7b\"type\":\"thread.started\",\"thread_id\":\"t1\"\x7d" ++ "\r").toList
          ++ '\n' :: (" \t\r".toList ++ '\n' :: "12".toList) := by decide +kernel
    rw [htext]
    exact .line ⟨by decide +kernel, by decide +kernel⟩ (.inr rfl)
      (.blank (by decide +kernel) (by decide +kernel)
        (.last ⟨by decide +kernel, by decide +kernel⟩))
  have hchild : startedAndNumberChild.PrintsLines startedAndNumber :=
    ⟨rfl, ⟨rfl, nofun⟩, ⟨_, _, rfl, by simp [startedAndNumberPortions], hprints⟩, rfl, rfl⟩
  have h : Interchange startedAndNumber memoryThread processThread (.text "go") {} :=
    ⟨rfl, ⟨_, rfl, rfl⟩, ⟨_, _, rfl, hchild⟩, .text "go",
      ⟨.absent, .absent, .absent, ⟨false, rfl⟩, .absent, .absent, .absent, .absent, nofun⟩,
        .inl rfl⟩
  obtain ⟨-, hrun, hthread⟩ := interchangeable h
  refine ⟨h, hrun.trans ?_, (congrArg Thread.id hthread).trans ?_⟩
  · decide +kernel
  · decide +kernel

end AgentClient
