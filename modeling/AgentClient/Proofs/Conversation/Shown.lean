import AgentClient.Proofs.Conversation.SameKind
import AgentClient.Proofs.Executor.CommandParts

/-!
# Proofs/Conversation/Shown — what a turn shows is what its thread and its answer make of it

Who takes part in a turn sees what asking for events gives, and the thread.  None of this looks at
the client: a turn that runs shows what the lines still to come and the failure behind them make of
the thread (`Scene.shown_pull`, `Scene.told_deliver`), and one that starts shows what the thread
itself has to say (`Thread.question`) or the lines and the failure that it is served
(`Accepted.shown_next`).  So two scenes with equal threads show the same if both turns are served
alike, whatever else their clients have done (`Scene.shown_next_eq`, `Scene.told_drain_eq`,
`Scene.told_run_eq`). -/

namespace AgentClient

/-! ## A turn that runs

The outline of a turn keeps its lines and the failure behind them. Where the call stands in the
journal, whether the exit was seen and whether there is a directory are the business of the client.
By induction on the lines, two turns with one outline over equal threads show the same. -/

/-- What a running turn still has to show: not the place of its call, nor how it will be closed. -/
def LiveTurn.outline (t : LiveTurn) : LiveTurn :=
  ⟨⟨t.feed.lines, t.feed.failure, false, 0⟩, false⟩

/-- What a stream still has to show. -/
def EventStream.outline : EventStream → EventStream
  | .live t => .live t.outline
  | e => e

/-- Streams with one outline have turns running with one outline, or are in the same state. -/
theorem EventStream.cases_of_outline_eq {e e' : EventStream} (h : e'.outline = e.outline) :
    (∃ t u : LiveTurn, e = .live t ∧ e' = .live u ∧ u.outline = t.outline) ∨
      e' = e ∧ ∀ t, e ≠ .live t := by
  cases e with
  | live t =>
    cases e' with
    | live u => exact .inl ⟨t, u, rfl, rfl, EventStream.live.inj h⟩
    | _ => simp [outline] at h
  | _ =>
    cases e' with
    | live u => simp [outline] at h
    | _ => exact .inr ⟨h, by simp⟩

namespace LiveTurn

variable {t u : LiveTurn}

theorem outline_eq_iff :
    t.outline = u.outline ↔ t.feed.lines = u.feed.lines ∧ t.feed.failure = u.feed.failure := by
  simp [outline]

theorem outline_withLines (h : t.outline = u.outline) (lines : List String) :
    (t.withLines lines).outline = (u.withLines lines).outline :=
  outline_eq_iff.mpr ⟨rfl, (outline_eq_iff.mp h).2⟩

end LiveTurn

namespace Scene

/-- What asking a stream for an event shows. -/
def shown (x : Pull × Scene × EventStream) : Pull × Thread × EventStream :=
  (x.1, x.2.1.thread, x.2.2.outline)

/-- What going through a stream to the end shows. -/
def told {σ : Type} (x : Option Failure × σ × Scene) : Option Failure × σ × Thread :=
  (x.1, x.2.1, x.2.2.thread)

variable {s m : Scene} {t u : LiveTurn}

/-- **Asking a running turn for an event** shows what the thread and the lines to come make of it.
-/
theorem shown_pull (hthread : m.thread = s.thread) (h : u.outline = t.outline) :
    shown (m.pull u) = shown (s.pull t) := by
  obtain ⟨hlines, hfailure⟩ := LiveTurn.outline_eq_iff.mp h
  have hreleased : ∀ seen seen', (m.release u seen').thread = (s.release t seen).thread :=
    thread_release_eq hthread t u
  rw [pull, pull, hlines]
  cases t.feed.lines with
  | nil => simp only [finish, shown, hfailure, hreleased t.feed.exitSeen]
  | cons line rest =>
    dsimp only [takeLine]
    -- A line that is no event releases the thread, as the end of the lines does.
    cases Event.parse line with
    | error f => simp only [shown, hreleased false]
    | ok e =>
      simp only [shown, thread_notice_eq hthread e, EventStream.outline,
        LiveTurn.outline_withLines h]

/-- **Giving the events of a turn to a receiver** shows it what the thread and the lines make of it.
-/
theorem told_deliver {σ : Type} (receive : σ → Thread → Event → Except Failure σ)
    (hthread : m.thread = s.thread) (h : u.feed.failure = t.feed.failure) (lines : List String)
    (state : σ) :
    told (deliver receive u lines m state) = told (deliver receive t lines s state) := by
  -- Each line either ends the turn for both, with the same failure, or is noticed by both threads
  -- alike.
  induction lines generalizing s m state with
  | nil =>
    have hreleased := thread_release_eq hthread t u t.feed.exitSeen u.feed.exitSeen
    dsimp only [deliver, finish]
    rw [h]
    cases t.feed.failure <;> simp only [told, hreleased]
  | cons line rest ih =>
    dsimp only [deliver, takeLine]
    cases Event.parse line with
    | error f => simp only [told, thread_release_eq hthread t u false false]
    | ok e =>
      have hnoticed := thread_notice_eq hthread e
      dsimp only
      rw [hnoticed]
      cases receive state (s.notice e).thread e with
      | error f => simp only [told, thread_release_eq hnoticed t u false false]
      | ok state => exact ih hnoticed state

end Scene

/-! ## A turn that starts

Before it runs, a turn has to be accepted, which depends on the thread and the options, and then to
be served. Once it is, it is a running turn with an outline, so the lemmas of the section before
this one apply. A turn that gets no answer is seen as one without lines that ends with the failure.
-/

namespace Accepted

variable {s m : Scene} {input : Input} {options : TurnOptions}

/-- The turn that an accepted one is for who takes part in it. -/
def outline (a : Accepted s input options) : LiveTurn :=
  ⟨⟨a.lines, a.ending, false, 0⟩, false⟩

/-- A thread that is idle is so again when a turn has been released. -/
theorem thread_release_busy (a : Accepted s input options) (c : Client) (t : LiveTurn)
    (exitSeen : Bool) : ((busy s c).release t exitSeen).thread = s.thread := by
  rw [Scene.release, busy, ← a.idle]

/-- **Asking a stream for its first event** shows what the thread and the answer make of it; whether
the agent came to an answer at all is not seen. -/
theorem shown_next (a : Accepted s input options) :
    Scene.shown (s.next (.unstarted input options))
      = Scene.shown ((busy s s.client).pull a.outline) := by
  rw [Scene.next, a.start_eq]
  -- A launch that fails is the end of a stream without lines.
  rcases hans : a.answer with ⟨f | feed, c⟩
  · have houtline : a.outline = ⟨⟨[], some f, false, 0⟩, false⟩ := by
      rw [outline, lines, ending, hans]
    rw [houtline]
    dsimp only [Scene.pull, Scene.finish, Scene.shown]
    rw [a.thread_release_busy]
  · have houtline : (a.turn feed).outline = a.outline := by
      rw [outline, lines, ending, hans]
      rfl
    exact Scene.shown_pull rfl houtline

/-- So does going through it to the end. -/
theorem told_drain {σ : Type} (a : Accepted s input options)
    (receive : σ → Thread → Event → Except Failure σ) (state : σ) :
    Scene.told (s.drain receive state (.unstarted input options))
      = Scene.told (Scene.deliver receive a.outline a.lines (busy s s.client) state) := by
  rw [Scene.drain, a.start_eq]
  rcases hans : a.answer with ⟨f | feed, c⟩
  · rw [outline, lines, ending, hans]
    dsimp only [Scene.deliver, Scene.finish, Scene.told]
    rw [a.thread_release_busy]
  · have houtline : (a.turn feed).outline = a.outline ∧ feed.lines = a.lines := by
      rw [outline, lines, ending, hans]
      exact ⟨rfl, rfl⟩
    rw [← houtline.1, ← houtline.2]
    exact Scene.told_deliver (s := busy s s.client) (m := busy s c) (t := (a.turn feed).outline)
      (u := a.turn feed) receive rfl rfl feed.lines state

/-- Turns that are served alike are one turn for who takes part in them. -/
theorem outline_eq (a : Accepted s input options) (a' : Accepted m input options)
    (h : a'.lines = a.lines ∧ a'.ending = a.ending) : a'.outline = a.outline := by
  rw [outline, outline, h.1, h.2]

end Accepted

namespace Scene

variable {s m : Scene} {input : Input} {options : TurnOptions} {e e' : EventStream}

/-- **Both scenes serve a turn alike**, if both accept it. -/
def ServeAlike (s m : Scene) (input : Input) (options : TurnOptions) : Prop :=
  ∀ (a : Accepted s input options) (a' : Accepted m input options),
    a'.lines = a.lines ∧ a'.ending = a.ending

/-- Both accept it, or both fail for what is wrong about it. -/
theorem accepted_or (hthread : m.thread = s.thread) (input : Input) (options : TurnOptions) :
    (Nonempty (Accepted s input options) ∧ Nonempty (Accepted m input options)) ∨
      ∃ f, (s.start input options).1 = .error f ∧ (s.start input options).2.thread = s.thread ∧
        (m.start input options).1 = .error f ∧ (m.start input options).2.thread = s.thread := by
  have hsame : m.thread.question "" input options = s.thread.question "" input options := by
    rw [hthread]
  rcases hquestion : s.thread.question "" input options with f | q
  · obtain ⟨hf, hkept, -⟩ := start_of_question_error hquestion
    obtain ⟨hf', hkept', -⟩ := start_of_question_error (hsame.trans hquestion)
    exact .inr ⟨f, hf, hkept, hf', hkept'.trans hthread⟩
  · exact .inl ⟨exists_accepted hquestion, exists_accepted (hsame.trans hquestion)⟩

theorem thread_busy_eq (hthread : m.thread = s.thread) (c c' : Client) :
    (Accepted.busy m c').thread = (Accepted.busy s c).thread :=
  congrArg (fun thread : Thread => { thread with running := true }) hthread

/-- A start that fails is known by its failure. -/
theorem start_eq_of {f : Failure} (h : (s.start input options).1 = .error f) :
    s.start input options = (.error f, (s.start input options).2) :=
  Prod.ext h rfl

/-- **Asking for an event** shows the same in both scenes, if they serve the turn that it starts
alike. -/
theorem shown_next_eq (hthread : m.thread = s.thread) (h : e'.outline = e.outline)
    (hserved : ∀ input options, e = .unstarted input options → ServeAlike s m input options) :
    shown (m.next e') = shown (s.next e) := by
  rcases EventStream.cases_of_outline_eq h with ⟨t, u, rfl, rfl, hturn⟩ | ⟨rfl, hlive⟩
  · exact shown_pull hthread hturn
  · cases e' with
    | live t => exact absurd rfl (hlive t)
    | ended => exact congrArg (fun thread => (Pull.ended, thread, EventStream.ended)) hthread
    | unstarted input options =>
      -- A refused turn shows its failure and nothing else; an accepted one shows its outline.
      rcases accepted_or hthread input options with ⟨⟨a⟩, ⟨a'⟩⟩ | ⟨f, hf, hsame, hf', hsame'⟩
      · rw [a.shown_next, a'.shown_next, a.outline_eq a' (hserved input options rfl a a')]
        exact shown_pull (thread_busy_eq hthread _ _) rfl
      · rw [next, next, start_eq_of hf, start_eq_of hf']
        simp only [shown, hsame, hsame']

/-- So does going through a stream to the end. -/
theorem told_drain_eq {σ : Type} (receive : σ → Thread → Event → Except Failure σ)
    (hthread : m.thread = s.thread) (h : e'.outline = e.outline)
    (hserved : ∀ input options, e = .unstarted input options → ServeAlike s m input options)
    (state : σ) : told (m.drain receive state e') = told (s.drain receive state e) := by
  -- Only a stream that is not yet started looks at the client, and it is served alike.
  rcases EventStream.cases_of_outline_eq h with ⟨t, u, rfl, rfl, hturn⟩ | ⟨rfl, hlive⟩
  · obtain ⟨hlines, hfailure⟩ := LiveTurn.outline_eq_iff.mp hturn
    rw [drain, drain, hlines]
    exact told_deliver receive hthread hfailure _ state
  · cases e' with
    | live t => exact absurd rfl (hlive t)
    | ended => exact congrArg (fun thread => (none, state, thread)) hthread
    | unstarted input options =>
      rcases accepted_or hthread input options with ⟨⟨a⟩, ⟨a'⟩⟩ | ⟨f, hf, hsame, hf', hsame'⟩
      · have hlike := hserved input options rfl a a'
        rw [a.told_drain, a'.told_drain, a.outline_eq a' hlike, hlike.1]
        exact told_deliver receive (thread_busy_eq hthread _ _) rfl _ state
      · rw [drain, drain, start_eq_of hf, start_eq_of hf']
        simp only [told, hsame, hsame']

/-- Closing it leaves equal threads. -/
theorem thread_close_eq (hthread : m.thread = s.thread) (h : e'.outline = e.outline) :
    (m.close e').thread = (s.close e).thread := by
  rcases EventStream.cases_of_outline_eq h with ⟨t, u, rfl, rfl, -⟩ | ⟨rfl, hlive⟩
  · exact thread_release_eq hthread t u false false
  · cases e' with
    | live t => exact absurd rfl (hlive t)
    | _ => exact hthread

/-- **A run** has the same result in both scenes, if they serve it alike. -/
theorem told_run_eq (hthread : m.thread = s.thread) (hserved : ServeAlike s m input options) :
    (m.run input options).1 = (s.run input options).1 ∧
      (m.run input options).2.thread = (s.run input options).2.thread := by
  rcases hresolve : OutputSchema.resolve options.outputSchema with f | schema
  · rw [run, run, hresolve]
    exact ⟨rfl, hthread⟩
  -- A run is a stream that is drained into a turn.
  · have htold := told_drain_eq addTo hthread (e := .unstarted input options) rfl
      (fun _ _ h => by obtain ⟨rfl, rfl⟩ := EventStream.unstarted.inj h; exact hserved) {}
    rw [run_of_resolve hresolve, run_of_resolve hresolve]
    generalize s.drain addTo {} (.unstarted input options) = x at htold
    generalize m.drain addTo {} (.unstarted input options) = x' at htold
    obtain ⟨failure, turn, s'⟩ := x
    obtain ⟨failure', turn', m'⟩ := x'
    obtain ⟨rfl, rfl, hsame⟩ : failure' = failure ∧ turn' = turn ∧ m'.thread = s'.thread := by
      simpa only [told, Prod.mk.injEq] using htold
    cases failure' <;> exact ⟨rfl, hsame⟩

end Scene

/-! ## What a turn is served

Two clients of one kind refuse the same requests: the command and the timeout are checked against
what the kind fixes, and only the path of the schema file may differ. What they answer is up to
their scripts, so it is compared as a hypothesis, and only for turns that both serve. -/

namespace Client

/-- What keeps a turn from being served: a command or a timeout that is none. -/
def obstacle? (c : Client) (r : TurnRequest) : Option Failure :=
  match c.agent with
  | .memory _ => none
  | .executable e _ =>
    match e.command r with
    | .error f => some f
    | .ok _ =>
      match Deadline.ofTimeout r.timeout with
      | .error f => some (.fault f)
      | .ok _ => none

/-- The lines and the failure behind them that a turn is served. -/
def serves (c : Client) (r : TurnRequest) (schema : Option String) : List String × Option Failure :=
  match (c.launch r schema).1 with
  | .ok feed => (feed.lines, feed.failure)
  | .error f => ([], some f)

variable {c c' : Client} {r : TurnRequest} {schema : Option String}

/-- A turn that is not served fails for what keeps it from that. -/
theorem serves_of_obstacle? {f : Failure} (h : c.obstacle? r = some f) :
    c.serves r schema = ([], some f) := by
  revert h
  rw [obstacle?, serves, launch]
  cases c.agent with
  | memory replies => rintro ⟨⟩
  | executable e scripts =>
    dsimp only [launchProcess]
    cases e.command r with
    | error f =>
      rintro ⟨⟩
      rfl
    | ok command =>
      dsimp only
      cases Deadline.ofTimeout r.timeout with
      | error f =>
        rintro ⟨⟩
        rfl
      | ok deadline => rintro ⟨⟩

/-- The directory of a schema changes nothing of what a turn is served. -/
theorem serves_makeDirectory (hasSchema : Bool) :
    (c.makeDirectory hasSchema).serves r schema = c.serves r schema := by
  cases hasSchema with
  | false => rfl
  | true =>
    have hagent : (c.makeDirectory true).agent = c.agent := rfl
    rw [serves, serves, launch, launch, hagent]
    cases c.agent with
    | memory replies => rfl
    | executable e scripts =>
      dsimp only [launchProcess]
      cases e.command r with
      | error f => rfl
      | ok command =>
        cases Deadline.ofTimeout r.timeout with
        | error f => rfl
        | ok deadline =>
          rcases takeScript scripts with ⟨script, later⟩
          cases script.refusal <;> rfl

/-- What keeps a turn from being served keeps it from that at any client of the kind, wherever its
schema file is. -/
theorem obstacle?_eq (h : c.Akin c') (r : TurnRequest) (schema : Option String)
    {path path' : String}
    (hne : path ≠ "") (hne' : path' ≠ "") :
    c'.obstacle? { r with schemaPath := schema.map fun _ => path' }
      = c.obstacle? { r with schemaPath := schema.map fun _ => path } := by
  obtain ⟨-, hagent⟩ := h
  rw [obstacle?, obstacle?]
  generalize c.agent = agent at hagent
  generalize c'.agent = agent' at hagent
  cases hagent with
  | memory => rfl
  | executable e =>
    dsimp only
    rcases e.command_cases r schema hne hne' with ⟨f, hf, hf'⟩ | ⟨words, words', hwords, hwords'⟩
    · rw [hf, hf']
    · rw [hwords, hwords']

end Client

namespace Scene

/-- **What a turn is served**, if it comes to be. -/
def served? (s : Scene) (input : Input) (options : TurnOptions) :
    Option (List String × Option Failure) :=
  match s.thread.question s.client.surroundings.schemaDirectory input options with
  | .error _ => none
  | .ok (r, schema) =>
    if (s.client.obstacle? r).isSome then none else some (s.client.serves r schema)

end Scene

namespace Accepted

variable {s m : Scene} {input : Input} {options : TurnOptions}

theorem serves_eq (a : Accepted s input options) :
    s.client.serves a.request a.schemaText = (a.lines, a.ending) := by
  rw [← Client.serves_makeDirectory a.schema.schema.isSome]
  show (match a.answer.1 with
    | .ok feed => (feed.lines, feed.failure)
    | .error f => ([], some f)) = _
  rw [lines, ending]
  cases a.answer.1 <;> rfl

theorem served?_eq (a : Accepted s input options) :
    s.served? input options
      = if (s.client.obstacle? a.request).isSome then none else some (a.lines, a.ending) := by
  rw [Scene.served?, a.question_eq, ← a.serves_eq]

/-- The same turn asks the same of both clients, but for the place of its schema file. -/
theorem obstacle?_request (a : Accepted s input options) (a' : Accepted m input options)
    (hthread : m.thread = s.thread) (h : s.client.Akin m.client) :
    m.client.obstacle? a'.request = s.client.obstacle? a.request := by
  have hschema : a'.schema = a.schema := Except.ok.inj (a'.resolve_eq.symm.trans a.resolve_eq)
  obtain ⟨hprompt, himages⟩ :=
    Prod.mk.inj (Except.ok.inj (a'.normalize_eq.symm.trans a.normalize_eq))
  obtain ⟨htext, hfile⟩ := a.text?_eq
  obtain ⟨htext', hfile'⟩ := a'.text?_eq
  have hsame : a'.schemaText = a.schemaText := by
    rw [hschema] at htext'
    exact Except.ok.inj (htext'.symm.trans htext)
  have heq := Client.obstacle?_eq h a.request a.schemaText
    (SchemaFile.path_ne_empty s.client.surroundings.schemaDirectory)
    (SchemaFile.path_ne_empty m.client.surroundings.schemaDirectory)
  -- Both requests are one request but for the path, which is the only thing that depends on the
  -- client.
  have hrequest : a.request = { a.request with
      schemaPath :=
        a.schemaText.map fun _ => s.client.surroundings.schemaDirectory ++ "/schema.json" } := by
    rw [request, Scene.request, hfile]
    cases a.schemaText <;> rfl
  have hrequest' : a'.request = { a.request with
      schemaPath :=
        a.schemaText.map fun _ => m.client.surroundings.schemaDirectory ++ "/schema.json" } := by
    rw [request, request, Scene.request, Scene.request, hfile', hprompt, himages, hthread, hsame]
    cases a.schemaText <;> rfl
  rw [hrequest', heq, ← hrequest]

end Accepted

namespace Scene

variable {s m : Scene} {input : Input} {options : TurnOptions}

/-- A turn is served by both clients of a kind, or by none. -/
theorem isSome_served?_eq (hthread : m.thread = s.thread) (h : s.client.Akin m.client) :
    (m.served? input options).isSome = (s.served? input options).isSome := by
  have hsame : m.thread.question "" input options = s.thread.question "" input options := by
    rw [hthread]
  rcases hquestion : s.thread.question "" input options with f | q
  · rw [served?, served?, Thread.question_eq_error hquestion,
      Thread.question_eq_error (hsame.trans hquestion)]
  · obtain ⟨a⟩ := exists_accepted hquestion
    obtain ⟨a'⟩ := exists_accepted (hsame.trans hquestion)
    rw [a.served?_eq, a'.served?_eq, a.obstacle?_request a' hthread h]
    cases (s.client.obstacle? a.request).isSome <;> rfl

/-- **A turn that is served the same by clients of a kind** is served alike, or kept from it alike.
-/
theorem serveAlike_of_served?_eq (hthread : m.thread = s.thread) (h : s.client.Akin m.client)
    (hserved : m.served? input options = s.served? input options) :
    ServeAlike s m input options := by
  intro a a'
  have hobstacle := a.obstacle?_request a' hthread h
  rw [a.served?_eq, a'.served?_eq, hobstacle] at hserved
  -- Where something stands in the way neither client is asked, and the failure is that obstacle in
  -- both.
  cases ho : s.client.obstacle? a.request with
  | none =>
    rw [ho] at hserved
    exact Prod.mk.inj (Option.some.inj hserved)
  | some f =>
    have hpair : (a'.lines, a'.ending) = (a.lines, a.ending) := by
      rw [← a.serves_eq, ← a'.serves_eq, Client.serves_of_obstacle? ho,
        Client.serves_of_obstacle? (hobstacle.trans ho)]
    exact Prod.mk.inj hpair

end Scene

end AgentClient
