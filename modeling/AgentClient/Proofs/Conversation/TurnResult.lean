import AgentClient.Proofs.Conversation.Accounts

/-!
# Proofs/Conversation/TurnResult — a run is the fold of the stream, and the earliest failure wins

Up to the first line that fails the turn, the lines of an answer add up (`deliver_append`).  Asking
the stream for one event after another goes the same way (`asked_append`), so a run asks for the
failing line and for none behind it; what is behind that line, and how the answer would have ended,
shows nowhere (`run_eq_fold`). -/

namespace AgentClient

/-! ## What an event adds

An event does three things to a turn: it announces an id, adds to the result, or reports a failure.
Each is a function of the event by itself, so a list of events is summed up by filters, and the last
id, the last message and the last count are the ones that stay. -/

namespace Event

/-- The id that an event announces. -/
def announcedId? : Event → Option WireText
  | .threadStarted id => some id
  | _ => none

/-- The item that an event completes. -/
def completedItem? : Event → Option Item
  | .item .completed i => some i
  | _ => none

/-- The count of tokens that an event brings. -/
def broughtUsage? : Event → Option Usage
  | .turnCompleted usage => some usage
  | _ => none

/-- The failure that an event reports, on a thread that has this id by then. -/
def failure? (id : Option WireText) : Event → Option Failure
  | .turnFailed text => some (.client (.turnFailed text id))
  | .error text => some (.client (.stream text none))
  | _ => none

/-- The events of lines; a line that is none gives none. -/
def ofLines (lines : List String) : List Event :=
  lines.filterMap fun line => (parse line).toOption

/-- The failure of a turn at a line: its own if it is no event, else the one that the event reports.
-/
def lineFailure? (id : Option WireText) (line : String) : Option Failure :=
  match parse line with
  | .error f => some f
  | .ok e => e.failure? id

/-- Whether a line fails the turn: it is no event, or one that reports a failure. -/
def failsTurn (line : String) : Bool :=
  match parse line with
  | .error _ | .ok (.turnFailed _) | .ok (.error _) => true
  | .ok _ => false

/-- A line that makes the turn fail has a failure, whatever the id. -/
theorem exists_lineFailure {line : String} (h : failsTurn line = true) (id : Option WireText) :
    ∃ f, lineFailure? id line = some f := by
  revert h
  rw [failsTurn, lineFailure?]
  rcases parse line with f | e
  · exact fun _ => ⟨f, rfl⟩
  · cases e with
    | turnFailed text | error text => exact fun _ => ⟨_, rfl⟩
    | _ => exact fun h => absurd h Bool.false_ne_true

/-- A line that does not is an event that reports none. -/
theorem exists_parse {line : String} (h : failsTurn line = false) :
    ∃ e, parse line = .ok e ∧ ∀ id, e.failure? id = none := by
  revert h
  rw [failsTurn]
  rcases parse line with f | e
  · exact fun h => absurd h.symm Bool.false_ne_true
  · cases e with
    | turnFailed text | error text => exact fun h => absurd h.symm Bool.false_ne_true
    | _ => exact fun _ => ⟨_, rfl, fun _ => rfl⟩

theorem ofLines_append (xs ys : List String) : ofLines (xs ++ ys) = ofLines xs ++ ofLines ys :=
  List.filterMap_append

theorem ofLines_cons {line : String} {e : Event} (h : parse line = .ok e) (lines : List String) :
    ofLines (line :: lines) = e :: ofLines lines := by
  simp only [ofLines, List.filterMap_cons, h, Except.toOption]

end Event

namespace Turn

/-- The result with more events. -/
def addAll (t : Turn) (es : List Event) : Turn :=
  { t with
    items := t.items ++ es.filterMap Event.completedItem?
    finalResponse :=
      ((es.filterMap Event.completedItem?).filterMap messageOf?).getLast?.getD t.finalResponse
    usage := (es.filterMap Event.broughtUsage?).getLast?.or t.usage }

/-- One event more is added as the first of several. -/
theorem addAll_cons (t : Turn) (e : Event) (es : List Event) :
    t.addAll (e :: es) = (t.addAll [e]).addAll es := by
  -- What is found last comes from the later events, if they have it, and items are put one behind
  -- another.
  have hlast : ∀ {α : Type} (xs ys : List α) (o : Option α),
      (xs ++ ys).getLast?.or o = ys.getLast?.or (xs.getLast?.or o) := by
    intro α xs ys o
    rw [List.getLast?_append, Option.or_assoc]
  have hcons : ∀ {α : Type} (p : Event → Option α),
      (e :: es).filterMap p = [e].filterMap p ++ es.filterMap p := by
    intro α p
    rw [← List.filterMap_append]
    rfl
  simp only [addAll, hcons, List.filterMap_append, hlast, List.append_assoc]
  congr 1
  rw [List.getLast?_append, Option.getD_or]

/-- An event that reports no failure is added. -/
theorem add_eq {e : Event} {id : Option WireText} (h : e.failure? id = none) (t : Turn) :
    t.add id e = .ok (t.addAll [e]) := by
  have hitems : ∀ usage, Except.ok { t with usage }
      = (Except.ok { t with items := t.items ++ [], usage } : Except Failure Turn) := by
    intro usage
    rw [List.append_nil]
  -- Only usage and completed items change the turn; of the items only a message changes the
  -- response.
  cases e with
  | turnFailed text | error text => exact absurd h (Option.some_ne_none _)
  | turnCompleted usage => exact hitems (some usage)
  | item stage i =>
    cases stage with
    | completed => cases i <;> rfl
    | _ => exact hitems t.usage
  | _ => exact hitems t.usage

/-- An event that reports a failure fails the turn. -/
theorem add_eq_error {e : Event} {id : Option WireText} {f : Failure} (h : e.failure? id = some f)
    (t : Turn) : t.add id e = .error f := by
  cases e with
  | turnFailed text | error text => exact congrArg Except.error (Option.some.inj h)
  | _ => exact absurd h.symm (Option.some_ne_none f)

end Turn

/-! ## Lines that do not fail the turn

`failsTurn` tells the lines that end a turn from those that go on, without looking at the id, which
only decides on the text of the failure. Running and asking for one event after another both get
past the lines that go on, one line at a time. -/

namespace Scene

/-- The scene behind events that were noticed. -/
def noticeAll (s : Scene) (es : List Event) : Scene :=
  es.foldl notice s

/-- The thread then has the id that was announced last. -/
theorem thread_noticeAll (s : Scene) (es : List Event) :
    (s.noticeAll es).thread
      = { s.thread with id := (es.filterMap Event.announcedId?).getLast?.or s.thread.id } := by
  -- Along the events; the last id that is announced stays.
  induction es generalizing s with
  | nil => rfl
  | cons e es ih =>
    show ((s.notice e).noticeAll es).thread = _
    rw [ih]
    cases e with
    | threadStarted id =>
      have hid : (Event.threadStarted id :: es).filterMap Event.announcedId?
          = id :: es.filterMap Event.announcedId? := rfl
      rw [hid, List.getLast?_cons]
      cases (es.filterMap Event.announcedId?).getLast? <;> rfl
    | _ => rfl

/-- A failure is reported by an event that changes nothing. -/
theorem notice_eq_self {e : Event} {id : Option WireText} {f : Failure} (h : e.failure? id = some f)
    (s : Scene) : s.notice e = s := by
  cases e with
  | turnFailed text | error text => rfl
  | _ => exact absurd h.symm (Option.some_ne_none f)

/-- An event changes equal threads equally. -/
theorem thread_notice_eq {s m : Scene} (h : s.thread = m.thread) (e : Event) :
    (s.notice e).thread = (m.notice e).thread := by
  cases e with
  | threadStarted id => exact congrArg (fun thread : Thread => { thread with id := some id }) h
  | _ => exact h

theorem thread_release_eq {s m : Scene} (h : s.thread = m.thread) (t t' : LiveTurn)
    (seen seen' : Bool) : (s.release t' seen').thread = (m.release t seen).thread :=
  congrArg (fun thread : Thread => { thread with running := false }) h

/-- The receiver of a run. -/
def addTo (t : Turn) (thread : Thread) (e : Event) : Except Failure Turn :=
  t.add thread.id e

/-- A run whose schema is valid adds up what its stream gives. -/
theorem run_of_resolve {s : Scene} {input : Input} {options : TurnOptions} {schema : OutputSchema}
    (h : OutputSchema.resolve options.outputSchema = .ok schema) :
    s.run input options = match s.drain addTo {} (.unstarted input options) with
      | (some f, _, s) => (.error f, s)
      | (none, turn, s) => (turn.check schema.model, s) := by
  rw [run, h]
  rfl

variable {before : List String}

/-- **Lines that do not fail the turn** add up, and the rest goes on from there. -/
theorem deliver_append (h : ∀ l ∈ before, Event.failsTurn l = false) (t : LiveTurn)
    (rest : List String) (s : Scene) (turn : Turn) :
    deliver addTo t (before ++ rest) s turn
      = deliver addTo t rest (s.noticeAll (Event.ofLines before))
          (turn.addAll (Event.ofLines before)) := by
  -- The induction is on the lines that go on; result and scene change with each and are
  -- generalized.
  induction before generalizing s turn with
  | nil =>
    have hnone : turn.addAll [] = turn := by
      simp [Turn.addAll]
    show deliver addTo t rest s turn = deliver addTo t rest s (turn.addAll [])
    rw [hnone]
  | cons line before ih =>
    rw [List.forall_mem_cons] at h
    obtain ⟨e, hp, he⟩ := Event.exists_parse h.1
    have hadd : addTo turn (s.notice e).thread e = .ok (turn.addAll [e]) := Turn.add_eq (he _) turn
    rw [List.cons_append, deliver, takeLine, hp, Event.ofLines_cons hp, Turn.addAll_cons]
    simp only [hadd]
    exact ih h.2 _ _

/-- What a turn holds is released alike, whatever it had still to get. -/
theorem release_eq (s : Scene) {t t' : LiveTurn} (hcall : t.feed.call = t'.feed.call)
    (hschema : t.hasSchema = t'.hasSchema) : s.release t false = s.release t' false := by
  rw [release, release, Client.settle, Client.settle, hcall, hschema]
  rfl

/-- Asking a turn that runs for an event takes one line. -/
theorem next_of_parse {line : String} {e : Event} (h : Event.parse line = .ok e) (s : Scene)
    (t : LiveTurn) (rest : List String) :
    s.next (.live (t.withLines (line :: rest)))
      = (.event e, s.notice e, .live (t.withLines rest)) := by
  dsimp only [next, pull, LiveTurn.withLines, takeLine]
  rw [h]

/-- A line that is no event ends the turn. -/
theorem next_of_parse_error {line : String} {f : Failure} (h : Event.parse line = .error f)
    (s : Scene) (t : LiveTurn) (rest : List String) :
    s.next (.live (t.withLines (line :: rest))) = (.failed f, s.release t false, .ended) := by
  dsimp only [next, pull, LiveTurn.withLines, takeLine]
  rw [h]
  exact congrArg (fun s => (Pull.failed f, s, EventStream.ended)) (release_eq s rfl rfl)

/-- A scene after asking a stream for some events, one after another, and the stream. -/
def asked (s : Scene) : Nat → EventStream → Scene × EventStream
  | 0, e => (s, e)
  | n + 1, e => asked (s.next e).2.1 n (s.next e).2.2

/-- Asking a stream for the events of its first lines leaves the others to come. -/
theorem asked_append (h : ∀ l ∈ before, Event.failsTurn l = false) (t : LiveTurn)
    (rest : List String) (n : Nat) (s : Scene) :
    s.asked (before.length + n) (.live (t.withLines (before ++ rest)))
      = (s.noticeAll (Event.ofLines before)).asked n (.live (t.withLines rest)) := by
  induction before generalizing s with
  | nil => rw [List.length_nil, Nat.zero_add]; rfl
  | cons line before ih =>
    rw [List.forall_mem_cons] at h
    obtain ⟨e, hp, -⟩ := Event.exists_parse h.1
    rw [List.length_cons, Nat.succ_add, asked, List.cons_append, next_of_parse hp,
      Event.ofLines_cons hp]
    exact ih h.2 _

/-- The id of the thread behind lines. -/
def idAfter (s : Scene) (lines : List String) : Option WireText :=
  ((Event.ofLines lines).filterMap Event.announcedId?).getLast?.or s.thread.id

end Scene

/-! ## A turn that is accepted

What an accepted turn needs is collected in a structure, so that its start is one equation
(`start_eq`). The run is then taken apart at the first failing line: the lines before it add up, the
line fails, and what is behind it is not looked at. The scene in the end is the one that asking as
often and closing leaves. -/

/-- **A turn that an idle thread accepts**: its schema and its input are valid, and the schema has
been written. -/
structure Accepted (s : Scene) (input : Input) (options : TurnOptions) where
  schema : OutputSchema
  prompt : String
  images : List Value
  file : Option SchemaFile
  idle : s.thread.running = false
  resolve_eq : OutputSchema.resolve options.outputSchema = .ok schema
  normalize_eq : input.normalize = .ok (prompt, images)
  file_eq : SchemaFile.ofSchema? s.client.surroundings.schemaDirectory schema.schema = .ok file

namespace Accepted

variable {s s' : Scene} {input : Input} {options : TurnOptions} {feed : Feed} {c : Client}
  {f : Failure}

/-- What the agent answers, and the client once it has been asked. -/
def answer (a : Accepted s input options) : Except Failure Feed × Client :=
  (s.client.makeDirectory a.schema.schema.isSome).launch
    (s.request a.prompt a.images a.file options.timeout) (a.file.map (·.text))

/-- The lines of the answer. -/
def lines (a : Accepted s input options) : List String :=
  match a.answer.1 with
  | .ok feed => feed.lines
  | .error _ => []

/-- The failure that the answer ends with, if it does. -/
def ending (a : Accepted s input options) : Option Failure :=
  match a.answer.1 with
  | .ok feed => feed.failure
  | .error f => some f

/-- The turn that has an answer to give. -/
def turn (a : Accepted s input options) (feed : Feed) : LiveTurn :=
  ⟨feed, a.schema.schema.isSome⟩

/-- The scene of a turn that has its answer to give. -/
def busy (s : Scene) (c : Client) : Scene :=
  ⟨c, { s.thread with running := true }⟩

/-- The start of the turn is to ask the agent. -/
theorem start_eq (a : Accepted s input options) :
    s.start input options = match a.answer with
      | (.ok feed, c) => (.ok (a.turn feed), busy s c)
      | (.error f, c) => (.error f, ⟨c.removeDirectory a.schema.schema.isSome, s.thread⟩) := by
  have hthread : { s.thread with running := false } = s.thread := by
    rw [← a.idle]
  -- What was accepted says all that the start looks at: the thread is free, and the schema, the
  -- input and the file are there.
  have hfile : SchemaFile.ofSchema?
      (s.client.makeDirectory a.schema.schema.isSome).surroundings.schemaDirectory a.schema.schema
        = .ok a.file := by
    rw [← a.file_eq]
    cases a.schema.schema <;> rfl
  rw [Scene.start, a.idle, if_neg Bool.false_ne_true, a.resolve_eq, a.normalize_eq]
  dsimp only [Scene.occupy]
  rw [hfile]
  dsimp only
  rw [← answer]
  rcases a.answer with ⟨f | feed, c⟩
  · rw [hthread]
  · rfl

/-- A run goes through the lines of the answer. -/
theorem run_eq (a : Accepted s input options) (h : a.answer = (.ok feed, c)) :
    s.run input options
      = match Scene.deliver Scene.addTo (a.turn feed) feed.lines (busy s c) {} with
        | (some f, _, s) => (.error f, s)
        | (none, turn, s) => (turn.check a.schema.model, s) := by
  rw [Scene.run, a.resolve_eq]
  dsimp only [Scene.drain]
  rw [a.start_eq, h]
  rfl

/-- A run fails at once if the agent does not come to an answer. -/
theorem run_eq_error (a : Accepted s input options) (h : a.answer = (.error f, c)) :
    s.run input options
      = (.error f, ⟨c.removeDirectory a.schema.schema.isSome, s.thread⟩) := by
  rw [Scene.run, a.resolve_eq]
  dsimp only [Scene.drain]
  rw [a.start_eq, h]

/-- An answer that has lines was come to. -/
theorem answer_eq_of_lines (a : Accepted s input options) {line : String}
    {before after : List String}
    (h : a.lines = before ++ line :: after) :
    ∃ feed c, a.answer = (.ok feed, c) ∧ feed.lines = before ++ line :: after := by
  rcases hans : a.answer with ⟨f | feed, c⟩
  · rw [lines, hans] at h
    exact absurd h.symm (List.append_ne_nil_of_right_ne_nil _ (List.cons_ne_nil _ _))
  · rw [lines, hans] at h
    exact ⟨feed, c, rfl, h⟩

/-- Asking for an event starts the turn. -/
theorem asked_unstarted (a : Accepted s input options) (h : a.answer = (.ok feed, c)) (n : Nat) :
    s.asked (n + 1) (.unstarted input options)
      = (busy s c).asked (n + 1) (.live (a.turn feed)) := by
  have hnext : s.next (.unstarted input options) = (busy s c).next (.live (a.turn feed)) := by
    dsimp only [Scene.next]
    rw [a.start_eq, h]
  rw [Scene.asked, hnext]
  rfl

variable {line : String} {before after : List String}

/-- The id of the busy thread behind lines is the one that they leave. -/
theorem id_noticeAll_busy (s : Scene) (c : Client) (lines : List String) :
    ((busy s c).noticeAll (Event.ofLines lines)).thread.id = s.idAfter lines := by
  rw [Scene.thread_noticeAll]
  rfl

/-- **A line that fails the turn** ends the run there. -/
theorem run_eq_of_failsTurn (a : Accepted s input options) (h : a.answer = (.ok feed, c))
    (hlines : feed.lines = before ++ line :: after)
    (hbefore : ∀ l ∈ before, Event.failsTurn l = false)
    (hf : Event.lineFailure? (s.idAfter before) line = some f) :
    s.run input options
      = (.error f, ((busy s c).noticeAll (Event.ofLines before)).release (a.turn feed) false) := by
  rw [a.run_eq h, hlines]
  rw [Scene.deliver_append hbefore]
  rw [← id_noticeAll_busy s c] at hf
  -- The scene behind the first lines matters by its id only, so it is made opaque before the line
  -- is taken.
  revert hf
  generalize (busy s c).noticeAll (Event.ofLines before) = s₁
  intro hf
  rw [Scene.deliver, Scene.takeLine]
  rw [Event.lineFailure?] at hf
  rcases hp : Event.parse line with f' | e
  · rw [hp] at hf
    obtain rfl := Option.some.inj hf
    rfl
  · rw [hp] at hf
    have hadd : ∀ turn, Scene.addTo turn s₁.thread e = .error f :=
      fun turn => Turn.add_eq_error hf turn
    simp only [Scene.notice_eq_self hf, hadd]

/-- **The failing line is asked for, and none behind it**: a run leaves the scene that asking the
stream as often and closing it leaves. -/
theorem close_asked (a : Accepted s input options) (h : a.answer = (.ok feed, c))
    (hlines : feed.lines = before ++ line :: after)
    (hbefore : ∀ l ∈ before, Event.failsTurn l = false)
    (hf : Event.lineFailure? (s.idAfter before) line = some f) :
    ∃ s₁ e, s.asked (before.length + 1) (.unstarted input options) = (s₁, e) ∧
      s₁.close e = (s.run input options).2 ∧ ∀ t, e = .live t → t.feed.lines = after := by
  rw [a.run_eq_of_failsTurn h hlines hbefore hf, a.asked_unstarted h]
  have hturn : a.turn feed = (a.turn feed).withLines (before ++ line :: after) := by
    rw [← hlines]
    rfl
  rw [hturn, Scene.asked_append hbefore]
  rw [← id_noticeAll_busy s c] at hf
  revert hf
  generalize (busy s c).noticeAll (Event.ofLines before) = s₁
  intro hf
  rw [Event.lineFailure?] at hf
  -- The line may be no event, and then the stream has ended; or the event reports the failure, and
  -- then the stream goes on until it is closed.
  rcases hp : Event.parse line with f' | e
  · rw [Scene.asked, Scene.next_of_parse_error hp]
    exact ⟨_, _, rfl, Scene.release_eq s₁ rfl rfl, fun t ht => absurd ht nofun⟩
  · rw [hp] at hf
    rw [Scene.asked, Scene.next_of_parse hp, Scene.notice_eq_self hf]
    refine ⟨_, _, rfl, Scene.release_eq s₁ rfl rfl, fun t ht => ?_⟩
    rw [← EventStream.live.inj ht]
    rfl

/-- Calls that leave the same client behind have the same place in its journal. -/
theorem call_eq (a : Accepted s input options) (a' : Accepted s' input options) {feed' : Feed}
    (h : a.answer = (.ok feed, c)) (h' : a'.answer = (.ok feed', c)) : feed.call = feed'.call := by
  obtain ⟨_, hj, -, hcall⟩ := Client.journal_launch h
  obtain ⟨_, hj', -, hcall'⟩ := Client.journal_launch h'
  have hlen := congrArg List.length (hj.symm.trans hj')
  simp only [List.length_append, List.length_singleton] at hlen
  omega

/-- **What is behind the failing line shows nowhere**: another answer that goes as far as that line
makes the same of the run. -/
theorem run_eq_run (a : Accepted s input options) (a' : Accepted s' input options)
    {after' : List String} (hlines : a.lines = before ++ line :: after)
    (hlines' : a'.lines = before ++ line :: after')
    (hbefore : ∀ l ∈ before, Event.failsTurn l = false) (hline : Event.failsTurn line = true)
    (hthread : s'.thread = s.thread) (hclient : a'.answer.2 = a.answer.2) :
    s'.run input options = s.run input options := by
  obtain ⟨feed, c, hans, hfeed⟩ := a.answer_eq_of_lines hlines
  obtain ⟨feed', c', hans', hfeed'⟩ := a'.answer_eq_of_lines hlines'
  rw [hans, hans'] at hclient
  obtain rfl : c' = c := hclient
  obtain ⟨f, hf⟩ := Event.exists_lineFailure hline (s.idAfter before)
  have hf' : Event.lineFailure? (s'.idAfter before) line = some f := by
    rw [Scene.idAfter, hthread]
    exact hf
  rw [a.run_eq_of_failsTurn hans hfeed hbefore hf, a'.run_eq_of_failsTurn hans' hfeed' hbefore hf']
  -- All that the two runs depend on is the same: the thread, the client behind the launch, the call
  -- and the schema.
  have hbusy : busy s' c' = busy s c' := by
    rw [busy, busy, hthread]
  have hcall : feed'.call = feed.call := a'.call_eq a hans' hans
  have hschema : a'.schema = a.schema :=
    Except.ok.inj (a'.resolve_eq.symm.trans a.resolve_eq)
  rw [hbusy]
  refine congrArg (Prod.mk _) (Scene.release_eq _ hcall ?_)
  rw [turn, turn, hschema]

/-- **An answer without a failing line** adds up, unless it ends with a failure. -/
theorem run_eq_of_not_failsTurn (a : Accepted s input options) (h : a.answer = (.ok feed, c))
    (hlines : ∀ l ∈ feed.lines, Event.failsTurn l = false) :
    s.run input options
      = (match feed.failure with
          | some f => .error f
          | none => (Turn.addAll {} (Event.ofLines feed.lines)).check a.schema.model,
        ((busy s c).noticeAll (Event.ofLines feed.lines)).release (a.turn feed) feed.exitSeen) := by
  rw [a.run_eq h]
  -- All lines go on, so what is left to deliver is the end of the answer.
  nth_rewrite 1 [← List.append_nil feed.lines]
  rw [Scene.deliver_append hlines]
  dsimp only [Scene.deliver, Scene.finish, turn]
  cases feed.failure <;> rfl

/-- A failing line announces no id. -/
theorem idAfter_concat (s : Scene) (before : List String) (h : Event.failsTurn line = true) :
    s.idAfter (before ++ [line]) = s.idAfter before := by
  -- The last line announces nothing, for it makes the turn fail.
  have hid : (Event.ofLines [line]).filterMap Event.announcedId? = [] := by
    rw [Event.failsTurn] at h
    rw [Event.ofLines, List.filterMap_cons, List.filterMap_nil]
    rcases hp : Event.parse line with f | e
    · rfl
    · rw [hp] at h
      cases e with
      | turnFailed text | error text => rfl
      | _ => exact absurd h Bool.false_ne_true
  rw [Scene.idAfter, Event.ofLines_append, List.filterMap_append, hid, List.append_nil]
  rfl

/-- The thread behind a turn is idle, and has the id that the lines leave. -/
theorem thread_release (a : Accepted s input options) (lines : List String) (t : LiveTurn)
    (exitSeen : Bool) :
    (((busy s c).noticeAll (Event.ofLines lines)).release t exitSeen).thread
      = { s.thread with id := s.idAfter lines } := by
  rw [Scene.release, Scene.thread_noticeAll, busy, ← a.idle]
  rfl

end Accepted

/-- **A run is the fold of the stream, and the earliest failure wins.**  The first line that is no
event, or reports a failure, is what the run fails with; no line behind it is asked for, and neither
these nor the end of the answer make a difference.  Without such a line the run fails with the
failure that the answer ends with; without one of these it gives all completed items, the text of
the last message among them, and the last count of tokens. -/
theorem run_eq_fold {s : Scene} {input : Input} {options : TurnOptions}
    (a : Accepted s input options) :
    (∀ before line after, a.lines = before ++ line :: after →
      (∀ l ∈ before, Event.failsTurn l = false) → Event.failsTurn line = true →
        (∃ f, Event.lineFailure? (s.idAfter (before ++ [line])) line = some f ∧
          (s.run input options).1 = .error f) ∧
        (s.run input options).2.thread = { s.thread with id := s.idAfter (before ++ [line]) } ∧
        (∃ s₁ e, s.asked (before.length + 1) (.unstarted input options) = (s₁, e) ∧
          s₁.close e = (s.run input options).2 ∧ ∀ t, e = .live t → t.feed.lines = after) ∧
        ∀ {s' : Scene} (a' : Accepted s' input options) (after' : List String),
          a'.lines = before ++ line :: after' → s'.thread = s.thread → a'.answer.2 = a.answer.2 →
            s'.run input options = s.run input options) ∧
    ((∀ l ∈ a.lines, Event.failsTurn l = false) →
      (∀ f, a.ending = some f → (s.run input options).1 = .error f) ∧
      (a.ending = none → a.schema.model = none →
        (s.run input options).1 = .ok
          { items := (Event.ofLines a.lines).filterMap Event.completedItem?
            finalResponse := (((Event.ofLines a.lines).filterMap Event.completedItem?).filterMap
              Turn.messageOf?).getLast?.getD (.str "")
            usage := ((Event.ofLines a.lines).filterMap Event.broughtUsage?).getLast?
            parsed := none }) ∧
      (s.run input options).2.thread = { s.thread with id := s.idAfter a.lines }) := by
  refine ⟨fun before line after hlines hbefore hline => ?_, fun hlines => ?_⟩
  · obtain ⟨feed, c, hans, hfeed⟩ := a.answer_eq_of_lines hlines
    obtain ⟨f, hf⟩ := Event.exists_lineFailure hline (s.idAfter before)
    have hrun := a.run_eq_of_failsTurn hans hfeed hbefore hf
    rw [Accepted.idAfter_concat s before hline]
    refine ⟨⟨f, hf, by rw [hrun]⟩, ?_, a.close_asked hans hfeed hbefore hf,
      fun a' after' hlines' => a.run_eq_run a' hlines hlines' hbefore hline⟩
    rw [hrun]
    exact a.thread_release before _ false
  -- Without such a line the turn has all its events, and it is left to the launch, the end of the
  -- lines and the check.
  · rcases hans : a.answer with ⟨f | feed, c⟩
    · have hrun := a.run_eq_error hans
      rw [Accepted.ending, Accepted.lines, hans, hrun]
      refine ⟨fun f' hf' => congrArg Except.error (Option.some.inj hf'), nofun, rfl⟩
    · have hrun := a.run_eq_of_not_failsTurn hans (by rwa [Accepted.lines, hans] at hlines)
      rw [Accepted.ending, Accepted.lines, hans, hrun]
      refine ⟨fun f hf => ?_, fun hnone hmodel => ?_, a.thread_release _ _ _⟩
      · dsimp only at hf
        rw [hf]
      · dsimp only at hnone
        rw [hnone, hmodel]
        simp [Turn.addAll, Turn.check]

/-- A thread whose agent announces an id and gives an item, and then reports a failure; what comes
behind that is no event. -/
def failingTurn : Scene where
  client := .inMemory { environment := [], files := [], schemaDirectory := "/tmp/schemas" } {}
    [⟨["\x7b\"type\":\"thread.started\",\"thread_id\":\"t1\"\x7d",
      "\x7b\"type\":\"turn.started\"\x7d",
      "\x7b\"type\":\"turn.failed\",\"error\":\x7b\"message\":\"boom\"\x7d\x7d", "nothing"],
      some (.fault .stalled)⟩]
  thread := {}

/-- The turn is accepted. -/
def failingTurnAccepted : Accepted failingTurn (.text "go") {} where
  schema := ⟨none, none⟩
  prompt := "go"
  images := []
  file := none
  idle := rfl
  resolve_eq := rfl
  normalize_eq := rfl
  file_eq := rfl

/-- The run fails with the failure reported, under the id announced; the rest of the answer is not
seen. -/
theorem run_failingTurn :
    (failingTurn.run (.text "go") {}).1
        = .error (.client (.turnFailed (.plain "boom") (some (.plain "t1")))) ∧
      (failingTurn.run (.text "go") {}).2.thread.id = some (.plain "t1") := by
  obtain ⟨⟨f, hf, hrun⟩, hthread, -⟩ := (run_eq_fold failingTurnAccepted).1
    ["\x7b\"type\":\"thread.started\",\"thread_id\":\"t1\"\x7d",
      "\x7b\"type\":\"turn.started\"\x7d"]
    "\x7b\"type\":\"turn.failed\",\"error\":\x7b\"message\":\"boom\"\x7d\x7d" ["nothing"]
    rfl (by decide +kernel) (by decide +kernel)
  have hfailure : f = .client (.turnFailed (.plain "boom") (some (.plain "t1"))) := by
    refine Option.some.inj (hf.symm.trans ?_)
    decide +kernel
  refine ⟨by rw [hrun, hfailure], ?_⟩
  rw [hthread]
  decide +kernel

end AgentClient
