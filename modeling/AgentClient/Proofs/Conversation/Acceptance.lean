import AgentClient.Proofs.Conversation.TurnResult

/-!
# Proofs/Conversation/Acceptance — what a turn asks of the agent, the thread decides alone

Before the agent is asked, a turn is looked at: is the thread idle, is the schema one, is the input
one, can the schema be written.  None of this depends on the client but for the directory of the
schema file, so `Thread.question` is a function of the thread, and the start of a turn asks what it
says (`Scene.start_of_question`) or fails as it says and leaves nothing behind
(`Scene.start_of_question_error`). -/

namespace AgentClient

/-! ## The text of a schema file

The file is made in a directory of the client, the text comes from the schema alone. Whether there
is a text decides whether the turn can go on, so that much is known before there is a directory. -/

namespace SchemaFile

/-- The text of the file of a schema, if there is one. -/
def text? : Option Table → Except Failure (Option String)
  | none => .ok none
  | some t =>
    match Json.write .oneLine (.table t) with
    | .ok text => .ok (some text)
    | .error f => .error (.fault (.unwritable f))

/-- The path of a schema file is never empty. -/
theorem path_ne_empty (directory : String) : directory ++ "/schema.json" ≠ "" := by
  simp

/-- The directory decides on the path of a schema file, and on nothing else. -/
theorem ofSchema?_eq_map (directory : String) (schema : Option Table) :
    ofSchema? directory schema
      = (text? schema).map (Option.map fun text => ⟨directory ++ "/schema.json", text⟩) := by
  cases schema with
  | none => rfl
  | some t =>
    rw [ofSchema?, ofSchema, text?]
    cases Json.write .oneLine (.table t) <;> rfl

end SchemaFile

/-! ## What a turn asks

The request holds the path of the schema file, which the client decides on. So the question is asked
with the directory as an argument, and what depends on it is that path and nothing else. -/

namespace Thread

/-- **What a turn asks of the agent**: the request, with a schema file in this directory, and the
text of the file; or what is wrong with the turn. -/
def question (t : Thread) (directory : String) (input : Input) (options : TurnOptions) :
    Except Failure (TurnRequest × Option String) :=
  if t.running then .error (.client .busy)
  else
    match OutputSchema.resolve options.outputSchema with
    | .error f => .error f
    | .ok schema =>
      match input.normalize with
      | .error f => .error f
      | .ok (prompt, images) =>
        (SchemaFile.text? schema.schema).map fun text =>
          ({ prompt, images, threadId := t.id, options := t.options
             schemaPath := text.map fun _ => directory ++ "/schema.json"
             timeout := options.timeout }, text)

variable {t : Thread} {input : Input} {options : TurnOptions} {directory : String} {f : Failure}

/-- What is wrong with a turn is so wherever the schema file would be. -/
theorem question_eq_error (h : t.question directory input options = .error f)
    (directory' : String) :
    t.question directory' input options = .error f := by
  revert h
  rw [question, question]
  cases t.running with
  | true => exact fun h => h
  | false =>
    cases OutputSchema.resolve options.outputSchema with
    | error f' => exact fun h => h
    | ok schema =>
      cases input.normalize with
      | error f' => exact fun h => h
      | ok given =>
        cases htext : SchemaFile.text? schema.schema with
        | error f' =>
          simp only [htext]
          exact fun h => h
        | ok text =>
          simp only [htext]
          exact fun h => absurd h nofun

/-- So is what it asks, but for the path of the file. -/
theorem question_anywhere (t : Thread) (directory directory' : String) (input : Input)
    (options : TurnOptions) :
    ((t.question directory' input options).toOption.map fun (r, schema) =>
        ({ r with schemaPath := r.schemaPath.map fun _ => "" }, schema))
      = (t.question directory input options).toOption.map fun (r, schema) =>
        ({ r with schemaPath := r.schemaPath.map fun _ => "" }, schema) := by
  rw [question, question]
  cases t.running with
  | true => rfl
  | false =>
    cases OutputSchema.resolve options.outputSchema with
    | error f => rfl
    | ok schema =>
      cases input.normalize with
      | error f => rfl
      | ok given =>
        cases htext : SchemaFile.text? schema.schema with
        | error f => simp only [htext, Except.map, Except.toOption]
        | ok text => cases text <;> simp [htext, Except.map, Except.toOption]

end Thread

/-! ## The start of a turn

What the start of a turn does between its checks and the agent is to make a directory, and to take
it back where the schema turns out to be none that can be written. Both leave lines in the log. -/

namespace Client

/-- **Only the log has changed.** -/
structure Unmoved (c c' : Client) : Prop where
  surroundings_eq : c'.surroundings = c.surroundings
  options_eq : c'.options = c.options
  agent_eq : c'.agent = c.agent
  journal_eq : c'.journal = c.journal
  directories_eq : c'.directories = c.directories

theorem Unmoved.refl (c : Client) : c.Unmoved c :=
  ⟨rfl, rfl, rfl, rfl, rfl⟩

/-- A directory that was made and is taken back leaves a line in the log. -/
theorem unmoved_removeDirectory (c : Client) (hasSchema : Bool) :
    c.Unmoved ((c.makeDirectory hasSchema).removeDirectory hasSchema) := by
  cases hasSchema with
  | false => exact .refl c
  | true => exact ⟨rfl, rfl, rfl, rfl, Nat.add_sub_cancel _ _⟩

end Client

namespace Accepted

variable {s : Scene} {input : Input} {options : TurnOptions}

/-- The request of an accepted turn. -/
def request (a : Accepted s input options) : TurnRequest :=
  s.request a.prompt a.images a.file options.timeout

/-- The text of its schema file. -/
def schemaText (a : Accepted s input options) : Option String :=
  a.file.map (·.text)

theorem text?_eq (a : Accepted s input options) :
    SchemaFile.text? a.schema.schema = .ok a.schemaText ∧
      a.file = a.schemaText.map
        fun text => ⟨s.client.surroundings.schemaDirectory ++ "/schema.json", text⟩ := by
  have hfile := a.file_eq
  rw [SchemaFile.ofSchema?_eq_map] at hfile
  cases htext : SchemaFile.text? a.schema.schema with
  | error f =>
    rw [htext] at hfile
    exact absurd hfile nofun
  | ok text =>
    rw [htext] at hfile
    have hfile : a.file = text.map _ := (Except.ok.inj hfile).symm
    have hschema : a.schemaText = text := by
      rw [schemaText, hfile]
      cases text <;> rfl
    rw [hschema]
    exact ⟨rfl, hfile⟩

/-- There is a text just if there is a schema. -/
theorem isSome_schemaText (a : Accepted s input options) :
    a.schema.schema.isSome = a.schemaText.isSome := by
  have htext := a.text?_eq.1
  revert htext
  cases a.schema.schema with
  | none =>
    intro h
    rw [← Except.ok.inj h]
    rfl
  | some t =>
    rw [SchemaFile.text?]
    cases Json.write .oneLine (.table t) with
    | error f => exact fun h => absurd h nofun
    | ok text =>
      intro h
      rw [← Except.ok.inj h]
      rfl

/-- An accepted turn asks its request. -/
theorem question_eq (a : Accepted s input options) :
    s.thread.question s.client.surroundings.schemaDirectory input options
      = .ok (a.request, a.schemaText) := by
  obtain ⟨htext, hfile⟩ := a.text?_eq
  rw [Thread.question, a.idle, if_neg Bool.false_ne_true, a.resolve_eq]
  dsimp only
  rw [a.normalize_eq]
  dsimp only
  rw [htext, request, Scene.request, hfile]
  cases a.schemaText <;> rfl

/-- The run of an accepted turn without a failing line adds up its lines, or fails as they end. -/
theorem run_of_not_failsTurn (a : Accepted s input options)
    (h : ∀ l ∈ a.lines, Event.failsTurn l = false) :
    (s.run input options).1 = (match a.ending with
        | some f => .error f
        | none => (Turn.addAll {} (Event.ofLines a.lines)).check a.schema.model) ∧
      (s.run input options).2.thread = { s.thread with id := s.idAfter a.lines } := by
  rcases hans : a.answer with ⟨f | feed, c⟩
  · rw [ending, lines, hans, a.run_eq_error hans]
    exact ⟨rfl, rfl⟩
  · rw [lines, hans] at h
    rw [ending, lines, hans, a.run_eq_of_not_failsTurn hans h]
    exact ⟨rfl, a.thread_release _ _ _⟩

/-- With a failing line it fails there. -/
theorem run_of_failsTurn (a : Accepted s input options) {line : String} {before after : List String}
    (hlines : a.lines = before ++ line :: after)
    (hbefore : ∀ l ∈ before, Event.failsTurn l = false) {f : Failure}
    (hf : Event.lineFailure? (s.idAfter before) line = some f) :
    (s.run input options).1 = .error f ∧
      (s.run input options).2.thread = { s.thread with id := s.idAfter before } := by
  obtain ⟨feed, c, hans, hfeed⟩ := a.answer_eq_of_lines hlines
  rw [a.run_eq_of_failsTurn hans hfeed hbefore hf]
  exact ⟨rfl, a.thread_release _ _ _⟩

/-- What an agent in memory answers is its next reply. -/
theorem lines_of_memory (a : Accepted s input options) {replies : List Reply}
    (h : s.client.agent = .memory replies) :
    a.lines = (replies.headD {}).lines ∧ a.ending = (replies.headD {}).failure := by
  have hagent : (s.client.makeDirectory a.schema.schema.isSome).agent = .memory replies := by
    rw [← h]
    cases a.schema.schema.isSome <;> rfl
  rw [lines, ending, answer, Client.launch, hagent]
  exact ⟨rfl, rfl⟩

end Accepted

namespace Scene

variable {s : Scene} {input : Input} {options : TurnOptions} {directory : String} {f : Failure}

/-- A turn with nothing wrong about it is accepted. -/
theorem exists_accepted {q : TurnRequest × Option String}
    (h : s.thread.question directory input options = .ok q) :
    Nonempty (Accepted s input options) := by
  revert h
  rw [Thread.question]
  split
  · rintro ⟨⟩
  · next hidle =>
    split
    · rintro ⟨⟩
    · next schema hresolve =>
      split
      · rintro ⟨⟩
      · next prompt images hnormalize =>
        cases htext : SchemaFile.text? schema.schema with
        | error f => rintro ⟨⟩
        | ok text =>
          intro _
          exact ⟨{
            schema, prompt, images
            file := text.map fun text =>
              ⟨s.client.surroundings.schemaDirectory ++ "/schema.json", text⟩
            idle := Bool.eq_false_iff.mpr hidle
            resolve_eq := hresolve
            normalize_eq := hnormalize
            file_eq := by rw [SchemaFile.ofSchema?_eq_map, htext]; rfl }⟩

/-- **A turn with nothing wrong about it** asks of the agent what it has to ask, and is started if
the agent comes to an answer. -/
theorem start_of_question {r : TurnRequest} {schema : Option String}
    (h : s.thread.question s.client.surroundings.schemaDirectory input options = .ok (r, schema)) :
    s.start input options =
      match (s.client.makeDirectory schema.isSome).launch r schema with
      | (.ok feed, c) => (.ok ⟨feed, schema.isSome⟩, ⟨c, { s.thread with running := true }⟩)
      | (.error f, c) => (.error f, ⟨c.removeDirectory schema.isSome, s.thread⟩) := by
  obtain ⟨a⟩ := exists_accepted h
  obtain ⟨rfl, rfl⟩ := Prod.mk.inj (Except.ok.inj (h.symm.trans a.question_eq))
  rw [← a.isSome_schemaText]
  exact a.start_eq

/-- **A turn with something wrong about it** fails for that, and leaves nothing but a line in the
log. -/
theorem start_of_question_error (h : s.thread.question directory input options = .error f) :
    (s.start input options).1 = .error f ∧ (s.start input options).2.thread = s.thread ∧
      s.client.Unmoved (s.start input options).2.client := by
  revert h
  rw [Thread.question, Scene.start]
  cases hidle : s.thread.running with
  | true =>
    rintro ⟨⟩
    exact ⟨rfl, rfl, .refl _⟩
  | false =>
    rcases OutputSchema.resolve options.outputSchema with f' | schema
    · rintro ⟨⟩
      exact ⟨rfl, rfl, .refl _⟩
    · rcases input.normalize with f' | ⟨prompt, images⟩
      · rintro ⟨⟩
        exact ⟨rfl, rfl, .refl _⟩
      · dsimp only [occupy]
        rw [if_neg Bool.false_ne_true, if_neg Bool.false_ne_true, SchemaFile.ofSchema?_eq_map]
        cases SchemaFile.text? schema.schema with
        | ok text => rintro ⟨⟩
        | error f' =>
          intro h
          have hthread : { s.thread with running := false } = s.thread := by
            rw [← hidle]
          exact ⟨congrArg _ (Except.error.inj h), hthread, s.client.unmoved_removeDirectory _⟩

/-- A run with something wrong about it fails for the same reason whatever its client is; a schema
that is none comes before a thread that is busy. -/
theorem exists_run_eq_error (h : s.thread.question directory input options = .error f) :
    ∃ f', ∀ s' : Scene, s'.thread = s.thread →
      (s'.run input options).1 = .error f' ∧ (s'.run input options).2.thread = s.thread ∧
        s'.client.Unmoved (s'.run input options).2.client := by
  rcases hresolve : OutputSchema.resolve options.outputSchema with f' | schema
  · refine ⟨f', fun s' hthread => ?_⟩
    rw [run, hresolve]
    exact ⟨rfl, hthread, .refl _⟩
  · refine ⟨f, fun s' hthread => ?_⟩
    obtain ⟨hfailed, hsame, hunmoved⟩ := start_of_question_error (hthread ▸ h)
    rw [run_of_resolve hresolve, drain]
    rcases hstart : s'.start input options with ⟨f' | t, s''⟩
    · rw [hstart] at hfailed hsame hunmoved
      obtain rfl : f' = f := Except.error.inj hfailed
      exact ⟨rfl, hsame.trans hthread, hunmoved⟩
    · rw [hstart] at hfailed
      cases hfailed

end Scene

end AgentClient
