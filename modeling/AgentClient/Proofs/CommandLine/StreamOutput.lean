import AgentClient.CommandLine.Run
import AgentClient.Proofs.Child.Printed
import AgentClient.Proofs.Conversation.Identity
import AgentClient.Proofs.Wire.EventLines
import Mathlib.Data.List.Forall2

/-!
# Proofs/CommandLine/StreamOutput — one line on the output for every event

With its events shown as they come, a turn puts one line on the output for each event that its
stream gives, and nothing for a line that is no event (`stdout_eq_lines`).  Writing an event cannot
fail, for it is made of what was read from a line (`Event.exists_isShownAs`).  But copying it can:
an event may be nested deeper than the machine copies, though not deeper than it reads.  Such an
event is not shown, the program fails there, and what the stream would have given behind it is not
asked for.  Without one the output goes on to the end of the stream, which is the end for whoever
asks it for one event after another (`Scene.exists_heard_live`). -/

namespace AgentClient

/-! ## The line of an event

What is shown of an event is decided by the event alone. That a line reads back as its event has the
two provisos of the wire: an event that reports a failure writes its message where reading does not
look for it, and an item of a type without meaning keeps its members only as one object. -/

namespace Event

/-- **A line that shows an event**: its members as one JSON object of printable ASCII.  It is a line
of that event, if the event is no failed turn, its item has a type with a meaning, and it holds no
floating-point number and no text that is no string. -/
structure IsShownAs (e : Event) (line : String) : Prop where
  written : Json.write .oneLine e.toValue = .ok line
  isAscii : ∀ c ∈ line.toList, 0x20 ≤ c.toNat ∧ c.toNat ≤ 0x7E
  not_mem_newline : '\n' ∉ line.toList
  restored : e.isTurnFailed = false → e.isKnown = true → e.toValue.isPlain = true →
    parse line = .ok e

/-- **What a line says can be shown.** -/
theorem exists_isShownAs {line : String} {e : Event} (h : parse line = .ok e) :
    ∃ text, e.IsShownAs text := by
  obtain ⟨text, htext⟩ := Json.exists_writeAt (s := .oneLine) (isDocument_of_parse h) 0
  have hascii := Json.writesAscii e.toValue htext
  refine ⟨text, htext, fun c hc => ?_, hascii.not_mem_newline, fun hfailed hknown hplain => ?_⟩
  · have hplain := hascii c hc
    rwa [Json.isAsciiPlain, Bool.and_eq_true, decide_eq_true_eq, decide_eq_true_eq] at hplain
  · exact parse_of_write h hknown hfailed hplain htext

/-- What keeps an event from being shown, if something does: the machine does not copy it. -/
def copyFault? (limits : CopyLimits) (e : Event) : Option Fault :=
  CommandLine.copyFault? limits.event e.toValue

/-- Whether the machine copies an event. -/
def fits (limits : CopyLimits) (e : Event) : Bool :=
  (e.copyFault? limits).isNone

/-- It copies what is not nested too deep. -/
theorem fits_of_nesting_le {limits : CopyLimits} {e : Event}
    (h : e.toValue.nesting ≤ limits.event.depth) :
    e.fits limits = true := by
  rw [fits, copyFault?, CommandLine.copyFault?_of_le h]
  rfl

/-- Whether a line is an event. -/
def isEvent (line : String) : Bool :=
  (parse line).toOption.isSome

/-- The events of lines, up to the first that is none. -/
def ofFirstLines (lines : List String) : List Event :=
  ofLines (lines.takeWhile isEvent)

/-- A line that is an event is the first of the events. -/
theorem ofFirstLines_cons {line : String} {e : Event} (h : parse line = .ok e)
    (lines : List String) : ofFirstLines (line :: lines) = e :: ofFirstLines lines := by
  have hevent : isEvent line = true := by rw [isEvent, h]; rfl
  rw [ofFirstLines, List.takeWhile_cons, if_pos hevent, ofLines_cons h]
  rfl

/-- A line that is none is the end of them. -/
theorem ofFirstLines_of_error {line : String} {f : Failure} (h : parse line = .error f)
    (lines : List String) : ofFirstLines (line :: lines) = [] := by
  have hevent : isEvent line = false := by rw [isEvent, h]; rfl
  rw [ofFirstLines, List.takeWhile_cons, hevent, if_neg Bool.false_ne_true]
  rfl

end Event

namespace LiveTurn

/-- The failure behind lines: of the first that is no event, or else the one that the turn ends
with. -/
def failureBehind (t : LiveTurn) : List String → Option Failure
  | [] => t.feed.failure
  | line :: rest =>
    match Event.parse line with
    | .error f => some f
    | .ok _ => t.failureBehind rest

end LiveTurn

/-! ## The stream, asked to its end

The program drains its stream in one go, while a stream is defined by what it gives when it is asked
for the next event. Here the second is brought to the same form as the first: the events of the
lines, up to the first line that is none, and the failure behind them. -/

namespace Scene

/-- **A turn that runs** gives the events of its lines, up to the first that is none, and has then
ended. -/
theorem exists_heard_live (t : LiveTurn) (lines : List String) (s : Scene) :
    ∃ n, (s.asked (n + 1) (.live (t.withLines lines))).2 = .ended ∧
      s.heard (n + 1) (.live (t.withLines lines)) = Event.ofFirstLines lines := by
  -- Along the lines, with one more event asked for at each; a line that is none and the end of the
  -- lines both end the stream.
  induction lines generalizing s with
  | nil =>
    refine ⟨0, rfl, ?_⟩
    show (s.finish (t.withLines [])).1.events ++ [] = []
    dsimp only [finish]
    cases (t.withLines []).feed.failure <;> rfl
  | cons line rest ih =>
    cases hp : Event.parse line with
    | error f =>
      have hnext := next_of_parse_error hp s t rest
      refine ⟨0, ?_, ?_⟩
      · rw [asked_of_next hnext, asked]
      · rw [heard_of_next hnext, Event.ofFirstLines_of_error hp]
        rfl
    | ok e =>
      have hnext := next_of_parse hp s t rest
      obtain ⟨n, hended, hheard⟩ := ih (s.notice e)
      refine ⟨n + 1, ?_, ?_⟩
      · rw [asked_of_next hnext]
        exact hended
      · rw [heard_of_next hnext, Event.ofFirstLines_cons hp, hheard]
        rfl

/-- A stream that cannot be started gives nothing. -/
theorem heard_of_start_error {s s' : Scene} {input : Input} {options : TurnOptions} {f : Failure}
    (h : s.start input options = (.error f, s')) :
    (s.asked 1 (.unstarted input options)).2 = .ended ∧
      s.heard 1 (.unstarted input options) = [] := by
  have hnext := next_of_start_error h
  refine ⟨?_, ?_⟩
  · rw [asked_of_next hnext, asked]
  · rw [heard_of_next hnext]
    rfl

/-- A stream that is started gives the events of the turn. -/
theorem exists_heard_of_start {s s' : Scene} {input : Input} {options : TurnOptions} {t : LiveTurn}
    (h : s.start input options = (.ok t, s')) :
    ∃ n, (s.asked n (.unstarted input options)).2 = .ended ∧
      s.heard n (.unstarted input options) = Event.ofFirstLines t.feed.lines := by
  have hnext := next_of_start h
  obtain ⟨n, hended, hheard⟩ := exists_heard_live t t.feed.lines s'
  refine ⟨n + 1, ?_, ?_⟩
  · rw [asked, hnext]
    exact hended
  · rw [heard, hnext]
    exact hheard

end Scene

namespace Accepted

variable {s s' : Scene} {input : Input} {options : TurnOptions}

/-- A turn that is started has the lines of its answer to give. -/
theorem lines_of_start (a : Accepted s input options) {t : LiveTurn}
    (h : s.start input options = (.ok t, s')) : a.lines = t.feed.lines := by
  rw [a.start_eq] at h
  rcases hans : a.answer with ⟨f | feed, c⟩
  · rw [hans] at h
    cases (Prod.mk.inj h).1
  · rw [hans] at h
    rw [lines, hans, ← Except.ok.inj (Prod.mk.inj h).1]
    rfl

/-- One that cannot be has none. -/
theorem lines_of_start_error (a : Accepted s input options) {f : Failure}
    (h : s.start input options = (.error f, s')) : a.lines = [] := by
  rw [a.start_eq] at h
  rcases hans : a.answer with ⟨f | feed, c⟩
  · rw [lines, hans]
  · rw [hans] at h
    cases (Prod.mk.inj h).1

end Accepted

namespace CommandLine

/-! ## The output

The induction is on the lines of the turn. Nothing that was shown is taken back when a later line
fails, so the output is that of the events before, whatever ends the stream. -/

variable {limits : CopyLimits} {e : Event}

/-- An event that can be copied is shown on a line of its own. -/
theorem showEvent_eq {line : String} (h : e.IsShownAs line) (hfits : e.fits limits = true)
    (shown : String) (t : Thread) : showEvent limits shown t e = .ok (shown ++ (line ++ "\n")) := by
  have hnone : CommandLine.copyFault? limits.event e.toValue = none :=
    Option.isNone_iff_eq_none.mp hfits
  rw [showEvent, copied, hnone]
  show (do return shown ++ (← documentLine .oneLine e.toValue)) = _
  rw [documentLine, h.written]
  rfl

/-- An event that the machine does not copy is not shown. -/
theorem showEvent_of_copyFault {f : Fault} (h : e.copyFault? limits = some f) (shown : String)
    (t : Thread) : showEvent limits shown t e = .error (.fault f) := by
  rw [showEvent, copied, show CommandLine.copyFault? limits.event e.toValue = some f from h]
  rfl

/-- **A turn whose events are shown** puts a line on the output for each of its events, up to the
first that the machine does not copy.  It fails there, and ends by itself if there is none. -/
theorem exists_deliver_showEvent (limits : CopyLimits) (t : LiveTurn) (lines : List String)
    (s : Scene) (shown : String) :
    ∃ printed,
      List.Forall₂ Event.IsShownAs ((Event.ofFirstLines lines).takeWhile (Event.fits limits))
        printed ∧
      (Scene.deliver (showEvent limits) t lines s shown).2.1 = shown ++ textLines printed ∧
      (Scene.deliver (showEvent limits) t lines s shown).1
        = (((Event.ofFirstLines lines).findSome? (Event.copyFault? limits)).map .fault).or
            (t.failureBehind lines) := by
  induction lines generalizing s shown with
  | nil =>
    refine ⟨[], .nil, ?_, ?_⟩ <;> dsimp only [Scene.deliver, Scene.finish, LiveTurn.failureBehind]
    · cases t.feed.failure <;> exact String.append_empty.symm
    · cases t.feed.failure <;> rfl
  | cons line rest ih =>
    rw [Scene.deliver, Scene.takeLine, LiveTurn.failureBehind]
    cases hp : Event.parse line with
    | error f =>
      rw [Event.ofFirstLines_of_error hp]
      exact ⟨[], .nil, String.append_empty.symm, rfl⟩
    | ok e =>
      rw [Event.ofFirstLines_cons hp, List.takeWhile_cons, List.findSome?_cons]
      -- An event that is not copied is where the output ends, whatever comes behind it.
      cases hfault : e.copyFault? limits with
      | some f =>
        have hfits : e.fits limits = false := by rw [Event.fits, hfault]; rfl
        rw [hfits, if_neg Bool.false_ne_true]
        dsimp only
        rw [showEvent_of_copyFault hfault]
        exact ⟨[], .nil, String.append_empty.symm, rfl⟩
      | none =>
        have hfits : e.fits limits = true := by rw [Event.fits, hfault]; rfl
        obtain ⟨text, htext⟩ := Event.exists_isShownAs hp
        obtain ⟨printed, hprinted, hout, hfailure⟩ := ih (s.notice e) (shown ++ (text ++ "\n"))
        rw [hfits, if_pos rfl]
        dsimp only
        rw [showEvent_eq htext hfits]
        refine ⟨text :: printed, .cons htext hprinted, ?_, hfailure⟩
        dsimp only
        rw [hout, textLines, textLines, List.map_cons, String.join_cons, String.append_assoc]

section

variable {w : World} {words : List String} {a : RunArguments}

/-- The scene of the turn. -/
def sceneOf (client : Client) (a : RunArguments) : Scene :=
  ⟨client, threadOf a⟩

/-- The stream of the turn, before anything is asked for. -/
def streamOf (w : World) (a : RunArguments) (schema : Value) : EventStream :=
  .unstarted (inputOf w a) (turnOptionsOf a schema)

/-- A turn that cannot be prepared has failed. -/
theorem run_of_prepare_error {f : Failure} (hwords : invocation words = .ok (.run a))
    (h : prepare w a = .error f) : run w words = failed f := by
  rw [run, hwords]
  dsimp only
  rw [runTurn, h]

/-- **A turn that can be prepared** is shown, and the program goes by how it ends. -/
theorem run_of_prepare {schema : Value} {client : Client} (hwords : invocation words = .ok (.run a))
    (h : prepare w a = .ok (schema, client)) {failure : Option Failure} {shown : Shown} {s : Scene}
    (hshown : shownTurn w.surroundings.copyLimits a.output (sceneOf client a) (inputOf w a)
      (turnOptionsOf a schema)
      = (failure, shown, s)) :
    run w words = ⟨failure.elim 0 exitCodeOf, shown.stdout,
      logTexts a.verbose s.client.log ++ failure.elim shown.stderr failureLine,
        s.client.journal⟩ := by
  rw [sceneOf] at hshown
  rw [run, hwords]
  dsimp only
  rw [runTurn, h]
  dsimp only
  rw [hshown]
  cases failure <;> rfl

theorem stdout_of_prepare_error {f : Failure} (hwords : invocation words = .ok (.run a))
    (h : prepare w a = .error f) : (run w words).stdout = "" := by
  rw [run_of_prepare_error hwords h]
  rfl

/-- **What is left behind by events that are shown as they come**: one line on the output for each
of them, up to the first that the machine does not copy.  If there is one, the program has failed
for it. -/
structure Outcome.ShowsEvents (o : Outcome) (limits : CopyLimits) (es : List Event) : Prop where
  exists_lines : ∃ printed,
    List.Forall₂ Event.IsShownAs (es.takeWhile (Event.fits limits)) printed ∧
    o.stdout = textLines printed
  failed : ∀ f, es.findSome? (Event.copyFault? limits) = some f →
    o.code = 1 ∧ ∃ front, o.stderr = front ++ failureLine (.fault f)

/-- Where no event is nested too deep, there is one line for each. -/
theorem Outcome.ShowsEvents.exists_line_for_each {o : Outcome} {limits : CopyLimits}
    {es : List Event} (h : o.ShowsEvents limits es)
    (hflat : ∀ e ∈ es, e.toValue.nesting ≤ limits.event.depth) :
    ∃ printed, List.Forall₂ Event.IsShownAs es printed ∧ o.stdout = textLines printed := by
  obtain ⟨printed, hprinted, hout⟩ := h.exists_lines
  rw [List.takeWhile_eq_self_iff.mpr fun e he => Event.fits_of_nesting_le (hflat e he)] at hprinted
  exact ⟨printed, hprinted, hout⟩

/-- A turn that can be prepared and is then shown as it comes leaves behind what its stream leaves.
-/
theorem run_of_stream (hwords : invocation words = .ok (.run a)) (hformat : a.output = .stream)
    {schema : Value} {client : Client} (h : prepare w a = .ok (schema, client))
    {failure : Option Failure} {shown : String} {s : Scene}
    (hdrain : (sceneOf client a).drain (showEvent w.surroundings.copyLimits) ""
      (streamOf w a schema)
      = (failure, shown, s)) :
    run w words = ⟨failure.elim 0 exitCodeOf, shown,
      logTexts a.verbose s.client.log ++ failure.elim "" failureLine, s.client.journal⟩ := by
  have hshown : shownTurn w.surroundings.copyLimits a.output (sceneOf client a) (inputOf w a)
      (turnOptionsOf a schema) = (failure, { stdout := shown }, s) := by
    rw [hformat, shownTurn, streamTurn, ← streamOf, hdrain]
  exact run_of_prepare hwords h hshown

/-- **A stream that is shown** is shown as far as it is when it is asked for one event after
another. -/
theorem exists_showsEvents (hwords : invocation words = .ok (.run a)) (hformat : a.output = .stream)
    {schema : Value} {client : Client} (h : prepare w a = .ok (schema, client)) :
    ∃ n,
      ((sceneOf client a).asked n (streamOf w a schema)).2 = .ended ∧
        (run w words).ShowsEvents w.surroundings.copyLimits
          ((sceneOf client a).heard n (streamOf w a schema)) ∧
        ∀ turn : Accepted (sceneOf client a) (inputOf w a) (turnOptionsOf a schema),
          (sceneOf client a).heard n (streamOf w a schema) = Event.ofFirstLines turn.lines := by
  rw [run_of_stream hwords hformat h rfl]
  dsimp only [streamOf, Scene.drain]
  -- A stream that cannot be started has no events, and its failure is that of the program. Else
  -- what is heard is what is printed.
  rcases hstart : (sceneOf client a).start (inputOf w a) (turnOptionsOf a schema) with ⟨f | t, s'⟩
  · obtain ⟨hended, hheard⟩ := Scene.heard_of_start_error hstart
    refine ⟨1, hended, ?_, fun turn => ?_⟩
    · rw [hheard]
      exact ⟨⟨[], .nil, rfl⟩, nofun⟩
    · rw [hheard, turn.lines_of_start_error hstart]
      rfl
  · obtain ⟨n, hended, hheard⟩ := Scene.exists_heard_of_start hstart
    obtain ⟨printed, hprinted, hout, hfailure⟩ :=
      exists_deliver_showEvent w.surroundings.copyLimits t t.feed.lines s' ""
    refine ⟨n, hended, ?_, fun turn => ?_⟩
    · rw [hheard]
      refine ⟨⟨printed, hprinted, hout.trans String.empty_append⟩, fun f hf => ?_⟩
      dsimp only
      rw [hfailure, hf]
      exact ⟨rfl, _, rfl⟩
    · rw [hheard, turn.lines_of_start hstart]

/-- **With its events shown as they come**, a turn that can be prepared puts on the output one line
for each event that its stream gives until it has ended, in their order.  These are the events of
the lines of the agent, up to the first line that is none.  Where nothing can be prepared, there is
no output.  The one event that is not shown is one that the machine does not copy; the program then
fails. -/
theorem stdout_eq_lines (hwords : invocation words = .ok (.run a)) (hformat : a.output = .stream) :
    (∀ f, prepare w a = .error f → (run w words).stdout = "") ∧
      ∀ schema client, prepare w a = .ok (schema, client) →
        ∃ n,
          ((sceneOf client a).asked n (streamOf w a schema)).2 = .ended ∧
            (run w words).ShowsEvents w.surroundings.copyLimits
              ((sceneOf client a).heard n (streamOf w a schema)) ∧
            ∀ turn : Accepted (sceneOf client a) (inputOf w a) (turnOptionsOf a schema),
              (sceneOf client a).heard n (streamOf w a schema) = Event.ofFirstLines turn.lines :=
  ⟨fun _ h => stdout_of_prepare_error hwords h, fun _ _ h => exists_showsEvents hwords hformat h⟩

end

/-! ### A child that breaks off

Of the four lines of this child the third is no JSON, so the fourth is never asked for. -/

/-- The conversation is announced, under an id of two characters that are escaped. -/
def announcingLine : String :=
  "\x7b\"type\": \"thread.started\", \"thread_id\": \"é\\n\"\x7d"

/-- An item whose id is no text, and whose text is none. -/
def reasoningLine : String :=
  "\x7b\"item\": \x7b\"id\": 7, \"text\": \x7b\"a\": [-1, null]\x7d, \"type\": \"reasoning\"\x7d,"
    ++ " \"type\": \"item.completed\"\x7d"

/-- A child that writes a line that is no event, and goes on. -/
def brokenChild : Script :=
  let output := Text.join "\n" [announcingLine, reasoningLine, "\x7b", announcingLine]
  { output := [.bytes output.toUTF8.data.toList] }

/-- A host with an executable, whose process will do so. -/
def hostOfBrokenChild : World :=
  { surroundings :=
      { environment := []
        files := FileTree.ofFile ["/", "bin", "trill"] .executable
        schemaDirectory := "/tmp/schemas" }
    stdin := ""
    scripts := [brokenChild] }

/-- What `run -o stream hi` asks for. -/
def streamArguments : RunArguments :=
  { prompt := "hi", resume := .null, schema := .null, model := .null, sandbox := .null
    workingDirectory := .null, skipRepositoryCheck := false, config := [], images := []
    timeout := .null, executable := .null, output := .stream, verbose := false }

/-- The client that is made for it. -/
def clientOfBrokenChild : Client :=
  { surroundings := hostOfBrokenChild.surroundings
    options := {}
    agent := .executable ⟨"/bin/trill", none, [], .null, .null⟩ [brokenChild]
    log := [⟨.debug, Client.clientPart, "Using trill executable /bin/trill"⟩] }

/-- Its turn. -/
def turnOfBrokenChild : Accepted (sceneOf clientOfBrokenChild streamArguments)
    (inputOf hostOfBrokenChild streamArguments) (turnOptionsOf streamArguments .null) where
  schema := ⟨none, none⟩
  prompt := "hi"
  images := []
  file := none
  idle := rfl
  resolve_eq := rfl
  normalize_eq := rfl
  file_eq := rfl

/-- The two events before the line that is none are shown, each on a line that is read as it. -/
theorem stdout_brokenChild :
    invocation ["run", "-o", "stream", "hi"] = .ok (.run streamArguments) ∧
      streamArguments.output = .stream ∧
      ∃ first second,
        (run hostOfBrokenChild ["run", "-o", "stream", "hi"]).stdout = textLines [first, second] ∧
          first = "\x7b\"thread_id\": \"\\u00e9\\n\", \"type\": \"thread.started\"\x7d" ∧
          Event.parse first = .ok (.threadStarted (.plain "é\n")) ∧
          Event.parse second = .ok (.item .completed
            (.reasoning (.plain "7") (.named [("a", .list [.int (-1), .null])]))) := by
  have hwords : invocation ["run", "-o", "stream", "hi"] = .ok (.run streamArguments) := by
    decide +kernel
  have hprepare :
      prepare hostOfBrokenChild streamArguments = .ok (.null, clientOfBrokenChild) := rfl
  have hevents : Event.ofFirstLines turnOfBrokenChild.lines
      = [.threadStarted (.plain "é\n"), .item .completed
          (.reasoning (.plain "7") (.named [("a", .list [.int (-1), .null])]))] := by
    decide +kernel
  have hwritten : Json.write .oneLine (Event.threadStarted (.plain "é\n")).toValue
      = .ok "\x7b\"thread_id\": \"\\u00e9\\n\", \"type\": \"thread.started\"\x7d" := by
    decide +kernel
  obtain ⟨n, -, hshows, hlines⟩ :=
    (stdout_eq_lines (w := hostOfBrokenChild) hwords rfl).2 _ _ hprepare
  rw [hlines turnOfBrokenChild, hevents] at hshows
  obtain ⟨printed, hprinted, hout⟩ := hshows.exists_line_for_each (by decide +kernel)
  rcases hprinted with _ | ⟨hfirst, _ | ⟨hsecond, _ | _⟩⟩
  exact ⟨hwords, rfl, _, _, hout, Except.ok.inj (hfirst.written.symm.trans hwritten),
    hfirst.restored rfl rfl (by decide), hsecond.restored rfl rfl (by decide)⟩

end CommandLine

/-! ### An event that is nested too deep

Reading a line takes one call for every list and table, copying an event two.  So a machine with
the same limit for both reads lines whose events it does not copy (`Event.exists_not_fits`), and an
agent may write one. -/

namespace Value

/-- Lists in one another. -/
def nestedLists : Nat → Value
  | 0 => .null
  | n + 1 => .list [nestedLists n]

theorem nesting_nestedLists (n : Nat) : (nestedLists n).nesting = n + 1 := by
  induction n with
  | zero => rfl
  | succ n ih => rw [nestedLists, nesting, nestingItems, nestingItems, ih, Nat.max_zero]

theorem isDocument_nestedLists (n : Nat) : (nestedLists n).IsDocument n := by
  induction n with
  | zero => exact .null
  | succ n ih => exact .list (List.forall_mem_singleton.mpr ih)

theorem isPlain_nestedLists (n : Nat) : (nestedLists n).isPlain = true := by
  induction n with
  | zero => rfl
  | succ n ih => rw [nestedLists, isPlain, allPlain, ih]; rfl

end Value

namespace Event

/-- A message that has lists in one another for its text. -/
def nestedMessage (n : Nat) : Event :=
  .item .completed (.agentMessage (.plain "m") (.nestedLists n))

theorem nesting_nestedMessage (n : Nat) : (nestedMessage n).toValue.nesting = n + 3 := by
  simp [nestedMessage, toValue, Item.toValue, WireText.toValue, Value.named, Table.named,
    Value.nesting, Value.nestingEntries, Value.nesting_nestedLists]

/-- A message of nested lists is two levels deeper than they are. -/
theorem isDocument_nestedMessage (n : Nat) : (nestedMessage n).toValue.IsDocument (n + 2) := by
  have hitem : (Item.agentMessage (.plain "m") (.nestedLists n)).toValue.IsDocument (n + 1) :=
    .named (by simp)
      (by simp [WireText.toValue, Value.IsDocument.str, Value.isDocument_nestedLists])
  exact .named (by simp) (by simp [hitem, Value.IsDocument.str])

theorem isPlain_nestedMessage (n : Nat) : (nestedMessage n).toValue.isPlain = true := by
  simp [nestedMessage, toValue, Item.toValue, WireText.toValue, Value.named, Table.named,
    Value.isPlain, Value.entriesPlain, Value.isPlain_nestedLists]

/-- What is written of an event carries something, and has no line feed. -/
theorem isWireLine_of_write {e : Event} {text : String}
    (h : Json.write .oneLine e.toValue = .ok text) :
    IsWireLine text := by
  refine ⟨(Json.writesAscii e.toValue h).not_mem_newline, ?_⟩
  -- An event is written as an object, so its line is ASCII without a line feed and begins with a
  -- brace: it is not blank, and nothing at its ends is dropped.
  obtain ⟨entries, hentries⟩ : ∃ entries, e.toValue = .table entries := by
    cases e <;> exact ⟨_, rfl⟩
  rw [hentries] at h
  obtain ⟨parts, -, rfl⟩ := Json.exists_of_writeAt_table h
  have hfront :
      ∃ rest, (Json.Spacing.oneLine.enclose 0 "\x7b" "\x7d" parts).toList = '\x7b' :: rest := by
    rw [Json.Spacing.enclose]
    split
    · exact ⟨_, rfl⟩
    · simp only [String.append_assoc, String.toList_append]
      exact ⟨_, rfl⟩
  obtain ⟨rest, hrest⟩ := hfront
  rw [hrest]
  rfl

/-- **A line can be read that is nested deeper than the machine copies**, if it copies less deep
than it reads. -/
theorem exists_not_fits {limits : CopyLimits} {depth : Nat} (hlimit : limits.event = .exactly depth)
    (h : depth < Json.Dialect.wire.maxDepth) :
    ∃ line e, IsWireLine line ∧ parse line = .ok e ∧ e.fits limits = false := by
  obtain ⟨n, hdepth, hlt⟩ : ∃ n, n + 2 ≤ Json.Dialect.wire.maxDepth ∧ depth < n + 3 :=
    have hwire : Json.Dialect.wire.maxDepth = 1000 := rfl
    ⟨depth - 2, by omega, by omega⟩
  have hdoc := (isDocument_nestedMessage n).mono hdepth
  obtain ⟨line, hline⟩ := Json.exists_writeAt (s := .oneLine) hdoc 0
  refine ⟨line, nestedMessage n, isWireLine_of_write hline,
    parse_of_isDocument hdoc rfl rfl (isPlain_nestedMessage n) hline, ?_⟩
  have hdeep : depth < (nestedMessage n).toValue.nesting := by
    rwa [nesting_nestedMessage]
  rw [fits, copyFault?, CommandLine.copyFault?, hlimit, CopyLimit.refusal?_exactly hdeep]
  rfl

end Event

namespace CommandLine

/-- A child that prints one line. -/
def printingChild (line : String) : Script :=
  { output := [.bytes (line.toList.flatMap String.utf8EncodeChar)] }

/-- A host with an executable, whose process will do so. -/
def hostOfPrintingChild (line : String) : World :=
  { hostOfBrokenChild with scripts := [printingChild line] }

/-- The client that is made for it. -/
def clientOfPrintingChild (line : String) : Client :=
  { clientOfBrokenChild with
    agent := .executable ⟨"/bin/trill", none, [], .null, .null⟩ [printingChild line] }

/-- Its turn. -/
def turnOfPrintingChild (line : String) :
    Accepted (sceneOf (clientOfPrintingChild line) streamArguments)
      (inputOf (hostOfPrintingChild line) streamArguments) (turnOptionsOf streamArguments .null) :=
  { turnOfBrokenChild with idle := rfl, resolve_eq := rfl, normalize_eq := rfl, file_eq := rfl }

/-- Its process, about to start. -/
def spawnOfPrintingChild (line : String) :
    Spawn (clientOfPrintingChild line)
      ((sceneOf (clientOfPrintingChild line) streamArguments).request "hi" [] none .null)
      (printingChild line) where
  executor := ⟨"/bin/trill", none, [], .null, .null⟩
  scripts := [printingChild line]
  later := []
  command := ["/bin/trill", "exec", "--experimental-json"]
  deadline := .never
  agent_eq := rfl
  takeScript_eq := rfl
  command_eq := rfl
  deadline_eq := rfl
  refusal_eq := rfl

/-- The child that prints a line gives that line to its parent. -/
theorem lines_turnOfPrintingChild {line : String} (h : IsWireLine line) :
    (turnOfPrintingChild line).lines = [line] := by
  let p := spawnOfPrintingChild line
  have hcut : (({} : Framing).lines (printingChild line).output).1 = [line] := by
    rw [show (printingChild line).output
      = [line.toList.flatMap String.utf8EncodeChar].map .bytes from rfl,
      Framing.lines_bytes List.not_mem_nil]
    show Framing.carrying (Text.splitAt '\n' (Text.Utf8.decode _)) = _
    rw [List.flatten_singleton, Text.Utf8.decode_encode,
      Text.splitAt_eq_singleton h.newline_not_mem,
      Framing.carrying_cons_of_isWireLine h]
    rfl
  have hanswer : (turnOfPrintingChild line).answer = (.ok p.feed, p.client none) := p.launch_eq none
  rw [Accepted.lines, hanswer, ← hcut]
  exact p.lines_delivery ⟨rfl, by rintro ⟨⟩⟩

/-- The client is made. -/
theorem prepare_hostOfPrintingChild (line : String) :
    prepare (hostOfPrintingChild line) streamArguments
      = .ok (.null, clientOfPrintingChild line) := by
  have hschema : schemaOf (hostOfPrintingChild line) streamArguments = .ok .null := rfl
  have hoptions : clientOptionsOf (hostOfPrintingChild line) streamArguments = .ok {} := rfl
  have hexecutor : Executor.ofOptions (hostOfPrintingChild line).surroundings {}
      = .ok ⟨"/bin/trill", none, [], .null, .null⟩ := by
    show Executor.ofOptions hostOfBrokenChild.surroundings {} = _
    rfl
  rw [prepare, hschema, hoptions]
  dsimp only [bind, Except.bind]
  rw [Client.ofOptions, hexecutor]
  rfl

/-- An event that the stream gives is not shown, where the machine copies less deep than it reads.
-/
theorem not_forall_event_shown :
    ¬ ∀ (w : World) (words : List String) (a : RunArguments) (schema : Value) (client : Client)
      (n : Nat),
      invocation words = .ok (.run a) → a.output = .stream → prepare w a = .ok (schema, client) →
      ((sceneOf client a).asked n (streamOf w a schema)).2 = .ended →
        ∃ printed,
          List.Forall₂ Event.IsShownAs ((sceneOf client a).heard n (streamOf w a schema)) printed ∧
          (run w words).stdout = textLines printed := by
  intro hclaim
  have hwords : invocation ["run", "-o", "stream", "hi"] = .ok (.run streamArguments) := by
    decide +kernel
  have hlimit : ({} : CopyLimits).event = .exactly 490 := rfl
  obtain ⟨line, e, hline, hparse, hfits⟩ := Event.exists_not_fits hlimit (by decide)
  have hdepths : (hostOfPrintingChild line).surroundings.copyLimits = {} := rfl
  have hprepare := prepare_hostOfPrintingChild line
  obtain ⟨n, hended, hshows, hheard⟩ := exists_showsEvents hwords rfl hprepare
  have hevents : (sceneOf (clientOfPrintingChild line) streamArguments).heard n
      (streamOf (hostOfPrintingChild line) streamArguments .null) = [e] := by
    rw [hheard (turnOfPrintingChild line), lines_turnOfPrintingChild hline,
      Event.ofFirstLines_cons hparse]
    rfl
  -- the event is not shown, so there is no output at all
  have hempty : (run (hostOfPrintingChild line) ["run", "-o", "stream", "hi"]).stdout = "" := by
    rw [hevents, hdepths] at hshows
    obtain ⟨printed, hprinted, hout⟩ := hshows.exists_lines
    rw [List.takeWhile_cons, hfits, if_neg Bool.false_ne_true] at hprinted
    cases hprinted
    exact hout
  obtain ⟨printed, hprinted, hout⟩ := hclaim _ _ _ _ _ n hwords rfl hprepare hended
  rw [hevents] at hprinted
  obtain ⟨text, rest, -, -, rfl⟩ := List.forall₂_cons_left_iff.mp hprinted
  rw [hempty, textLines, List.map_cons, String.join_cons] at hout
  have hlength := congrArg String.length hout
  rw [String.length_append, String.length_append, show "".length = 0 from rfl,
    show "\n".length = 1 from rfl] at hlength
  omega

end CommandLine

end AgentClient
