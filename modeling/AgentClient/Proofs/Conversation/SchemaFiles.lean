import AgentClient.Proofs.Conversation.Exclusive
import AgentClient.Proofs.Conversation.SameKind
import AgentClient.Proofs.Json.RoundTrip

/-!
# Proofs/Conversation/SchemaFiles — a schema file is there while its turn runs, and only then

The options of a turn decide on its schema file (`SchemaFile.ofOptions`).  The call that starts the
turn names the file (`Call.NamesFile`), and names it until the turn is over, whatever is done with
other turns meanwhile (`Session.keepsFile_steps`): no step changes a call but to close it, and a
stream keeps its call.  The directory of the file is made at the start and removed at the end, and a
start that fails takes it back (`Scene.holdsDirectories_next`). -/

namespace AgentClient

open Session (collectEvents)

/-! ## The file that options ask for

Whether there is a file, and what is in it, is settled before a client is looked at: the options
give a schema, or are refused, and the schema is written in one line of ASCII. The client adds the
directory only. -/

/-- **The schema file that the options of a turn ask for**, if they ask for one. -/
def SchemaFile.ofOptions (directory : String) (options : TurnOptions) :
    Except Failure (Option SchemaFile) :=
  match OutputSchema.resolve options.outputSchema with
  | .error f => .error f
  | .ok schema => ofSchema? directory schema.schema

namespace SchemaFile

/-- **A schema that a document may hold** is written in ASCII, and reads back as it was. -/
theorem exists_ofOptions {depth : Nat} {options : TurnOptions} {t : Table}
    {model : Option RecordModel}
    (h : OutputSchema.resolve options.outputSchema = .ok ⟨some t, model⟩)
    (hdocument : (Value.table t).IsDocument depth) (hplain : (Value.table t).isPlain = true)
    (directory : String) :
    ∃ text, ofOptions directory options = .ok (some ⟨directory ++ "/schema.json", text⟩) ∧
      Json.IsAscii text.toList ∧
      ∀ d : Json.Dialect, depth ≤ d.maxDepth → Json.read d text = .ok (.table t) := by
  -- A plain document can be written, and what is written is read back as it was.
  obtain ⟨text, htext⟩ := Json.exists_writeAt hdocument 0
  have hwrite : Json.write .oneLine (.table t) = .ok text := htext
  refine ⟨text, ?_, Json.writesAscii _ htext, fun d hd =>
    Json.read_of_write (hdocument.mono hd) hplain hwrite⟩
  rw [ofOptions, h]
  dsimp only [ofSchema?, ofSchema]
  rw [hwrite]
  rfl

end SchemaFile

namespace Accepted

variable {s : Scene} {input : Input} {options : TurnOptions}

/-- The file of an accepted turn is the one that its options ask for. -/
theorem ofOptions_eq (a : Accepted s input options) :
    SchemaFile.ofOptions s.client.surroundings.schemaDirectory options = .ok a.file := by
  rw [SchemaFile.ofOptions, a.resolve_eq]
  exact a.file_eq

theorem isSome_file (a : Accepted s input options) : a.schema.schema.isSome = a.file.isSome := by
  rw [a.isSome_schemaText, schemaText, Option.isSome_map]

/-- The path of a schema file is never empty. -/
theorem path_ne_empty (a : Accepted s input options) : ∀ file ∈ a.file, file.path ≠ "" := by
  intro file hfile
  rw [a.text?_eq.2] at hfile
  obtain ⟨text, -, rfl⟩ := Option.map_eq_some_iff.mp hfile
  exact SchemaFile.path_ne_empty _

end Accepted

/-! ## The call that names it

The file is named where the call is recorded: in the request of an agent in memory, or behind the
flag in the command of a process. Closing a call leaves both alone, and a journal that gains calls
keeps the ones it has at their places, so a file once named stays named. -/

/-- **A call that names a schema file**, or none.  In memory the request has the path and the agent
is given the text.  The command of a process has the path behind its flag and no other flag like it;
the text is on record unless a word before it looks like the flag. -/
def Call.NamesFile (file : Option SchemaFile) : Call → Prop
  | .memory request schema _ => request.schemaPath = file.map (·.path) ∧ schema = file.map (·.text)
  | .refused => False
  | .process record =>
    (CommandPart.read (record.command.drop 3)).filter (·.flag = "--output-schema")
        = (file.map fun f => WordPart.setting "--output-schema" f.path).toList ∧
      record.schema
        = if file.map (·.path) = Executor.wordAfter? "--output-schema" record.command then
            file.map (·.text)
          else none

theorem Call.namesFile_close {file : Option SchemaFile} {call : Call} {exitSeen : Bool} :
    (call.close exitSeen).NamesFile file ↔ call.NamesFile file := by
  cases call <;> rfl

/-- A call stays where it is, whatever is gained. -/
theorem Journal.Gains.exists_namesFile {j j' : Journal} {new : List Call} (h : Gains j j' new)
    {place : Nat} {file : Option SchemaFile}
    (hcall : ∃ call, j[place]? = some call ∧ call.NamesFile file) :
    ∃ call, j'[place]? = some call ∧ call.NamesFile file := by
  obtain ⟨call, hplace, hnames⟩ := hcall
  have hlt : place < j.length := (List.getElem?_eq_some_iff.mp hplace).1
  -- The journals are known to be equal up to the flags of closing, so the call is looked up among
  -- the closed ones and reopened.
  have hclosed : (j'.map (Call.close true))[place]?
      = ((j ++ new).map (Call.close true))[place]? := by rw [h]
  rw [List.getElem?_map, List.getElem?_map, List.getElem?_append_left hlt, hplace] at hclosed
  obtain ⟨call', hcall', heq⟩ := Option.map_eq_some_iff.mp hclosed
  have hclose : (call'.close true).NamesFile file ↔ call'.NamesFile file := Call.namesFile_close
  rw [heq, Call.namesFile_close] at hclose
  exact ⟨call', hcall', hclose.mp hnames⟩

/-- The part of a command that names a file. -/
theorem Executor.schemaParts_map {file : Option SchemaFile} (h : ∀ f ∈ file, f.path ≠ "") :
    schemaParts (file.map (·.path))
      = (file.map fun f => WordPart.setting "--output-schema" f.path).toList := by
  cases file with
  | none => rfl
  | some f => exact schemaParts_some (h f rfl)

/-- **Asking the agent** leaves a call that names the file. -/
theorem Client.exists_namesFile_launch {c c' : Client} {r : TurnRequest} {file : Option SchemaFile}
    {feed : Feed} (hpath : r.schemaPath = file.map (·.path)) (hne : ∀ f ∈ file, f.path ≠ "")
    (h : c.launch r (file.map (·.text)) = (.ok feed, c')) :
    ∃ call, c'.journal[feed.call]? = some call ∧ call.NamesFile file := by
  -- A call to an agent in memory has the file itself. That of a process names it by its command,
  -- where only the flag for it gives a path.
  cases hagent : c.agent with
  | memory replies =>
    rw [launch, hagent] at h
    obtain ⟨hfeed, rfl⟩ := Prod.mk.inj h
    obtain rfl := Except.ok.inj hfeed
    exact ⟨_, List.getElem?_concat_length, hpath, rfl⟩
  | executable e scripts =>
    rcases launch_cases hagent r (file.map (·.text)) with
      ⟨f, -, hl⟩ | ⟨command, fault, -, -, hl⟩ | ⟨command, error, -, hl⟩ | ⟨p, -⟩
    · exact absurd (h.symm.trans hl) (by simp)
    · exact absurd (h.symm.trans hl) (by simp)
    · exact absurd (h.symm.trans hl) (by simp)
    · rw [p.launch_eq] at h
      obtain ⟨hfeed, rfl⟩ := Prod.mk.inj h
      obtain rfl := Except.ok.inj hfeed
      refine ⟨_, List.getElem?_concat_length, ?_, ?_⟩
      · have hparts := Executor.settingsOf_command p.command_eq
        rw [hpath, Executor.schemaParts_map hne] at hparts
        exact hparts
      · rw [← hpath]
        rfl

/-! ## A turn that keeps its file

The invariant of one stream is `LiveTurn.KeepsFile`. It is made by the start of the turn, kept by
every line that is taken, and kept by whatever other turns do with the client, because the
directories are fixed there and calls are only gained and closed. -/

/-- **A running turn keeps the file that its options ask for**: it holds a directory just if there
is a file, and its call names the file. -/
structure LiveTurn.KeepsFile (t : LiveTurn) (c : Client) (options : TurnOptions) : Prop where
  exists_file : ∃ file, SchemaFile.ofOptions c.surroundings.schemaDirectory options = .ok file ∧
    t.hasSchema = file.isSome ∧ ∃ call, c.journal[t.feed.call]? = some call ∧ call.NamesFile file

/-- A stream that was made with some options keeps their file while it runs. -/
def EventStream.KeepsFile (c : Client) (options : TurnOptions) : EventStream → Prop
  | .unstarted _ given => given = options
  | .live t => t.KeepsFile c options
  | .ended => True

section

variable {c c' : Client} {options : TurnOptions} {new : List Call}

/-- A turn keeps its file while its client keeps its surroundings and only adds calls. -/
theorem LiveTurn.KeepsFile.of_gains {t : LiveTurn} (h : t.KeepsFile c options)
    (hc : c.Becomes c') (hgains : Journal.Gains c.journal c'.journal new) :
    t.KeepsFile c' options := by
  obtain ⟨file, hfile, hschema, hcall⟩ := h
  rw [← hc.surroundings_eq] at hfile
  exact ⟨file, hfile, hschema, hgains.exists_namesFile hcall⟩

/-- What other turns do leaves the file of a stream alone. -/
theorem EventStream.KeepsFile.of_gains {e : EventStream} (h : e.KeepsFile c options)
    (hc : c.Becomes c') (hgains : Journal.Gains c.journal c'.journal new) :
    e.KeepsFile c' options := by
  cases e with
  | unstarted | ended => exact h
  | live t => exact LiveTurn.KeepsFile.of_gains h hc hgains

end

namespace Scene

variable {s s' : Scene} {t : LiveTurn} {e : EventStream} {input : Input} {options : TurnOptions}

/-- **A turn that has started** keeps its file. -/
theorem keepsFile_start (h : s.start input options = (.ok t, s')) :
    t.KeepsFile s'.client options := by
  -- A turn that has been started was accepted, and its file is the one that was made for its
  -- schema.
  rcases hquestion : s.thread.question "" input options with f | q
  · obtain ⟨hf, -⟩ := start_of_question_error hquestion
    rw [h] at hf
    exact absurd hf (by simp)
  · obtain ⟨a⟩ := exists_accepted hquestion
    rw [a.start_eq] at h
    rcases hans : a.answer with ⟨f | feed, c⟩
    · rw [hans] at h
      exact absurd h (by simp)
    · rw [hans] at h
      obtain ⟨hturn, rfl⟩ := Prod.mk.inj h
      obtain rfl := Except.ok.inj hturn
      have hbecomes : s.client.Becomes c := by
        have hlaunched := (s.client.becomes_makeDirectory a.schema.schema.isSome).trans
          (Client.becomes_launch _ (s.request a.prompt a.images a.file options.timeout)
            (a.file.map (·.text)))
        rwa [← Accepted.answer, hans] at hlaunched
      refine ⟨a.file, ?_, a.isSome_file, Client.exists_namesFile_launch rfl a.path_ne_empty hans⟩
      show SchemaFile.ofOptions c.surroundings.schemaDirectory options = _
      rw [hbecomes.surroundings_eq]
      exact a.ofOptions_eq

/-- **Taking a line keeps the file** while the turn goes on. -/
theorem keepsFile_pull (h : t.KeepsFile s.client options) :
    (s.pull t).2.2.KeepsFile (s.pull t).2.1.client options := by
  -- Letting go of the turn may close its call; the file is compared behind that.
  have hkept := h.of_gains (s.becomes_pull t) (s.advances_pull t).gains
  revert hkept
  dsimp only [pull, takeLine]
  cases t.feed.lines with
  | nil => exact fun _ => trivial
  | cons line rest =>
    dsimp only
    cases Event.parse line with
    | error f => exact fun _ => trivial
    | ok e => exact fun ⟨hfile⟩ => ⟨hfile⟩

/-- **A stream that is asked for an event** keeps its file until it has ended. -/
theorem keepsFile_next (h : e.KeepsFile s.client options) :
    (s.next e).2.2.KeepsFile (s.next e).2.1.client options := by
  cases e with
  | ended => trivial
  | live t => exact keepsFile_pull h
  | unstarted input given =>
    obtain rfl : given = options := h
    dsimp only [next]
    rcases hst : s.start input given with ⟨f | t, s'⟩
    · trivial
    · exact keepsFile_pull (keepsFile_start hst)

/-- So does asking for any number of events. -/
theorem keepsFile_asked (h : e.KeepsFile s.client options) (n : Nat) :
    (s.asked n e).2.KeepsFile (s.asked n e).1.client options := by
  induction n generalizing s e with
  | zero => exact h
  | succ n ih => exact ih (keepsFile_next h)

end Scene

/-! ## Its directory

The client counts the directories that exist. The invariant `HoldsDirectories` says how many there
are besides those of other turns: one while the stream runs with a schema, none before and after. A
start that fails in between has taken its directory back by then. -/

namespace Scene

variable {s : Scene} {t : LiveTurn} {e : EventStream} {d : Nat}

/-- There are some directories and, if a stream runs with a schema, one more. -/
def HoldsDirectories (d : Nat) (s : Scene) (e : EventStream) : Prop :=
  s.client.directories = d + e.held.countP (·.hasSchema)

/-- A turn that is released takes its directory away. -/
theorem directories_release (h : s.HoldsDirectories d (.live t)) (exitSeen : Bool) :
    (s.release t exitSeen).client.directories = d := by
  rw [HoldsDirectories, EventStream.held, List.countP_singleton] at h
  rw [release, Client.directories_removeDirectory, Client.directories_settle, h]
  cases t.hasSchema <;> simp

/-- **The start of a turn** makes a directory just if it starts a turn with a schema. -/
theorem directories_start (s : Scene) (input : Input) (options : TurnOptions) :
    (s.start input options).2.client.directories
      = s.client.directories + (begun (s.start input options).1).countP (·.hasSchema) := by
  -- Where nothing is accepted no directory is made. Else one is made if there is a schema, and
  -- removed if the launch fails.
  rcases hquestion : s.thread.question "" input options with f | q
  · obtain ⟨hf, -, h⟩ := start_of_question_error hquestion
    rw [hf, h.directories_eq]
    rfl
  · obtain ⟨a⟩ := exists_accepted hquestion
    have hmade : a.answer.2.directories
        = s.client.directories + a.schema.schema.isSome.toNat := by
      rw [Accepted.answer, Client.directories_launch, Client.directories_makeDirectory]
    rw [a.start_eq]
    rcases hans : a.answer with ⟨f | feed, c⟩
    · rw [hans] at hmade
      show (c.removeDirectory _).directories = _
      rw [Client.directories_removeDirectory, hmade, Nat.add_sub_cancel]
      rfl
    · rw [hans] at hmade
      show c.directories = _ + [a.turn feed].countP _
      rw [hmade, List.countP_singleton, Accepted.turn]
      cases a.schema.schema.isSome <;> rfl

/-- Taking a line keeps the directory of the turn, or gives it back at the end. -/
theorem holdsDirectories_pull (h : s.HoldsDirectories d (.live t)) :
    (s.pull t).2.1.HoldsDirectories d (s.pull t).2.2 := by
  rw [pull]
  cases t.feed.lines with
  | nil => exact directories_release h _
  | cons line rest =>
    dsimp only [takeLine]
    cases Event.parse line with
    | error f => exact directories_release h false
    | ok e => cases e <;> exact h

/-- **Asking a stream for an event** leaves a directory just if the stream runs with a schema. -/
theorem holdsDirectories_next (h : s.HoldsDirectories d e) :
    (s.next e).2.1.HoldsDirectories d (s.next e).2.2 := by
  cases e with
  | ended => exact h
  | live t => exact holdsDirectories_pull h
  | unstarted input options =>
    have hd : s.client.directories = d := h
    have hstart := s.directories_start input options
    dsimp only [next]
    -- A start that fails has given back what it made.
    rcases hst : s.start input options with ⟨f | t, s'⟩
    · rw [hst, hd] at hstart
      exact hstart
    · rw [hst, hd] at hstart
      exact holdsDirectories_pull hstart

/-- So after any number of events the directories are those before, and one if the turn still has a
schema. -/
theorem holdsDirectories_asked (h : s.HoldsDirectories d e) (n : Nat) :
    (s.asked n e).1.HoldsDirectories d (s.asked n e).2 := by
  induction n generalizing s e with
  | zero => exact h
  | succ n ih => exact ih (holdsDirectories_next h)

/-- Closing a stream leaves none. -/
theorem directories_close (h : s.HoldsDirectories d e) : (s.close e).client.directories = d := by
  cases e with
  | live t => exact directories_release h false
  | _ => exact h

/-- Nor does going through it to the end, whatever the receiver makes of the events. -/
theorem directories_drain {σ : Type} (h : s.HoldsDirectories d e)
    (receive : σ → Thread → Event → Except Failure σ) (state : σ) :
    (s.drain receive state e).2.2.client.directories = d := by
  obtain ⟨n, -, hdrain⟩ := s.exists_drain_eq_asked receive state e
  rw [hdrain]
  exact directories_close (holdsDirectories_asked h n)

/-- **A whole turn leaves no directory behind**, however it ends. -/
theorem directories_run (s : Scene) (input : Input) (options : TurnOptions) :
    (s.run input options).2.client.directories = s.client.directories := by
  obtain ⟨n, -, hrun⟩ := s.exists_run_eq_asked input options
  rw [hrun]
  exact directories_close (holdsDirectories_asked (e := .unstarted input options) rfl n)

end Scene

/-! ## Any steps of a session

Seen from one stream, a step of a session does one of three things (`stream_step`): it leaves the
stream as it is, asks it for an event, or ends it. The invariant of the stream is kept by each. -/

namespace Session

variable {s : Session} {i k : Nat} {e : EventStream} {options : TurnOptions}

/-- **What a step does to a stream**: it leaves it alone, asks it for an event, or brings it to its
end. -/
theorem stream_step (hk : s.streams[k]? = some (i, e)) (x : Step) :
    (s.step x).2.streams[k]? = some (i, e) ∨
      (∃ t, (s.step x).2.streams[k]? = some (i, ((s.scene t).next e).2.2) ∧
        (s.step x).2.client = ((s.scene t).next e).2.1.client) ∨
      (s.step x).2.streams[k]? = some (i, .ended) := by
  have hset : ∀ {k' i' : Nat} {e' : EventStream}, k' ≠ k →
      (s.streams.set k' (i', e'))[k]? = some (i, e) :=
    fun hne => (List.getElem?_set_ne hne).trans hk
  have hself : ∀ e' : EventStream, (s.streams.set k (i, e'))[k]? = some (i, e') :=
    fun e' => List.getElem?_set_self (List.getElem?_eq_some_iff.mp hk).1
  have hsame : ∀ {k' i' : Nat} {d : EventStream}, s.streams[k']? = some (i', d) → k' = k →
      i' = i ∧ d = e := by
    rintro k' i' d hk' rfl
    exact Prod.mk.inj (Option.some.inj (hk'.symm.trans hk))
  -- Only the last three groups of steps touch streams, and only the one that they name.
  cases x with
  | startThread | resumeThread | clientOptions => exact .inl hk
  | threadId j =>
    rcases s.onThread_cases j with ⟨t, -, hact⟩ | ⟨-, hact⟩ <;> exact .inl (by rw [step, hact, hk])
  | openStream j input given =>
    rcases s.onThread_cases j with ⟨t, -, hact⟩ | ⟨-, hact⟩
    · refine .inl ?_
      rw [step, hact]
      exact (List.getElem?_append_left (List.getElem?_eq_some_iff.mp hk).1).trans hk
    · exact .inl (by rw [step, hact, hk])
  | run j input given =>
    rcases s.onThread_cases j with ⟨t, ht, -⟩ | ⟨-, hact⟩
    · exact .inl (by rw [step_run ht]; exact hk)
    · exact .inl (by rw [step, hact, hk])
  | next k' =>
    rcases s.onStream_cases k' with ⟨j, d, t, hk', ht⟩ | ⟨hact, -⟩
    · rw [step, onStream_eq hk' ht]
      by_cases hne : k' = k
      · obtain ⟨rfl, rfl⟩ := hsame hk' hne
        exact .inr (.inl ⟨t, by rw [hne]; exact hself _, rfl⟩)
      · exact .inl (hset hne)
    · exact .inl (by rw [step, hact, hk])
  | drain k' | closeStream k' =>
    rcases s.onStream_cases k' with ⟨j, d, t, hk', ht⟩ | ⟨hact, -⟩
    · rw [step, onStream_eq hk' ht]
      by_cases hne : k' = k
      · obtain ⟨rfl, rfl⟩ := hsame hk' hne
        exact .inr (.inr (by rw [hne]; exact hself _))
      · exact .inl (hset hne)
    · exact .inl (by rw [step, hact, hk])

/-- **No step** takes the file from a stream that runs. -/
theorem keepsFile_step (hk : s.streams[k]? = some (i, e)) (h : e.KeepsFile s.client options)
    (x : Step) :
    ∃ e', (s.step x).2.streams[k]? = some (i, e') ∧ e'.KeepsFile (s.step x).2.client options := by
  rcases stream_step hk x with hsame | ⟨t, hnext, hclient⟩ | hended
  · obtain ⟨new, hgains, -⟩ := s.exists_gains_step x
    exact ⟨e, hsame, h.of_gains (s.becomes_step x) hgains⟩
  · refine ⟨_, hnext, ?_⟩
    rw [hclient]
    exact Scene.keepsFile_next (s := s.scene t) h
  · exact ⟨.ended, hended, trivial⟩

/-- **Nor do any steps.** -/
theorem keepsFile_steps (hk : s.streams[k]? = some (i, e)) (h : e.KeepsFile s.client options)
    (xs : List Step) :
    ∃ e', (s.steps xs).2.streams[k]? = some (i, e') ∧
      e'.KeepsFile (s.steps xs).2.client options := by
  induction xs generalizing s e with
  | nil => exact ⟨e, hk, h⟩
  | cons x xs ih =>
    obtain ⟨e', hk', h'⟩ := keepsFile_step hk h x
    exact ih hk' h'

end Session

/-! ## From the start of a turn to its end

What was shown for a stream and for its directory is put together here, first for one turn by
itself, then for the turns of a session on a fresh client, where the directories of all turns are
counted. -/

/-- **A turn has its schema file while it runs, and leaves none**, at any client: when it has
started, and after any number of events, a directory more exists just if it runs with a schema; and
none when the stream is closed there or gone through to the end, or when the turn was run at once.
-/
structure Scene.TidiesUp (s : Scene) (input : Input) (options : TurnOptions) : Prop where
  started : ∀ t s', s.start input options = (.ok t, s') →
    t.KeepsFile s'.client options ∧ s'.HoldsDirectories s.client.directories (.live t)
  asked : ∀ n s' e, s.asked n (.unstarted input options) = (s', e) →
    e.KeepsFile s'.client options ∧ s'.HoldsDirectories s.client.directories e ∧
      (s'.close e).client.directories = s.client.directories ∧
      ∀ {σ : Type} (receive : σ → Thread → Event → Except Failure σ) (state : σ),
        (s'.drain receive state e).2.2.client.directories = s.client.directories
  ran : (s.run input options).2.client.directories = s.client.directories

/-- **Every turn tidies up**: whatever has been asked for and however it ends. -/
theorem Scene.tidiesUp (s : Scene) (input : Input) (options : TurnOptions) :
    s.TidiesUp input options where
  started t s' h := by
    have hstart := s.directories_start input options
    rw [h] at hstart
    exact ⟨keepsFile_start h, hstart⟩
  asked n s' e h := by
    have hasked : EventStream.KeepsFile s.client options (.unstarted input options) := rfl
    have hkept := keepsFile_asked hasked n
    have hheld := holdsDirectories_asked (s := s) (e := .unstarted input options) rfl n
    rw [h] at hkept hheld
    exact ⟨hkept, hheld, directories_close hheld, directories_drain hheld⟩
  ran := s.directories_run input options

namespace Session

/-- **A schema file is there while its turn runs, and only then.**  In any session on a fresh
client, a stream that runs has an open call that names the file its options ask for, and there are
as many directories as turns that run with a schema.  A schema that a document may hold is read back
from its file as it was; without a schema there is no file. -/
theorem schemaFile_of_live {c : Client} (hc : c.IsFresh) (before after : List Step) :
    let s := (Session.steps ⟨c, [], []⟩ before).2
    let s' := (s.steps after).2
    (∀ (k i : Nat) (input : Input) (options : TurnOptions) (t : LiveTurn),
        s.streams[k]? = some (i, .unstarted input options) → s'.streams[k]? = some (i, .live t) →
          t.KeepsFile s'.client options ∧ t.feed.call ∈ Journal.openPlaces s'.client.journal) ∧
      s'.client.directories = (Streams.turns s'.streams).countP (·.hasSchema) ∧
      (∀ (scene : Scene) (input : Input) (options : TurnOptions), scene.TidiesUp input options) ∧
      (∀ (directory : String) (options : TurnOptions) (t : Table) (model : Option RecordModel)
        (depth : Nat), OutputSchema.resolve options.outputSchema = .ok ⟨some t, model⟩ →
          (Value.table t).IsDocument depth → (Value.table t).isPlain = true →
          ∃ text, SchemaFile.ofOptions directory options
              = .ok (some ⟨directory ++ "/schema.json", text⟩) ∧
            Json.IsAscii text.toList ∧
            ∀ d : Json.Dialect, depth ≤ d.maxDepth → Json.read d text = .ok (.table t)) ∧
      ∀ (directory : String) (options : TurnOptions), options.outputSchema = .null →
        SchemaFile.ofOptions directory options = .ok none := by
  intro s s'
  -- The directories are those of the account; the file is kept from the start of the turn on.
  have h : s'.Accounted := accounted_steps (accounted_steps (.fresh hc) before) after
  refine ⟨fun k i input options t hk hk' => ⟨?_, ?_⟩, h.accounts.directories,
    fun scene input options => scene.tidiesUp input options,
    fun directory options t model depth hresolve hdocument hplain =>
      SchemaFile.exists_ofOptions hresolve hdocument hplain directory,
    fun directory options hnull => by rw [SchemaFile.ofOptions, hnull]; rfl⟩
  · have hunstarted : EventStream.KeepsFile (steps ⟨c, [], []⟩ before).2.client options
        (.unstarted input options) := rfl
    obtain ⟨e, he, hkept⟩ := keepsFile_steps hk hunstarted after
    obtain rfl : e = .live t := congrArg Prod.snd (Option.some.inj (he.symm.trans hk'))
    exact hkept
  · refine h.accounts.calls.subset (List.mem_map_of_mem ?_)
    exact List.mem_flatMap.mpr ⟨_, List.mem_of_getElem? hk', List.mem_singleton_self t⟩

/-- A schema of one entry. -/
def statusSchema : Table :=
  [(.str "type", .str "object")]

/-- A stream with that schema, not asked for anything yet. -/
def openedWithSchema : List Step :=
  [.startThread {}, .openStream 0 (.text "go") { outputSchema := .table statusSchema }]

/-- Once it runs its call names a file that holds the schema; its directory is gone when it is
closed. -/
theorem schemaFile_openedWithSchema :
    answeredOnce.IsFresh ∧
      let s := (Session.steps ⟨answeredOnce, [], []⟩ openedWithSchema).2
      let s' := (s.steps [.next 0]).2
      ∃ t call text, s'.streams[0]? = some (0, .live t) ∧
        s'.client.journal[t.feed.call]? = some call ∧
        call.NamesFile (some ⟨"/tmp/schemas/schema.json", text⟩) ∧
        Json.read .wire text = .ok (.table statusSchema) ∧
        s'.client.directories = 1 ∧
          (s.steps [.next 0, .closeStream 0]).2.client.directories = 0 := by
  have hc : answeredOnce.IsFresh := Client.isFresh_inMemory _ _ _
  obtain ⟨hlive, hdirectories, -, hfile, -⟩ := schemaFile_of_live hc openedWithSchema [.next 0]
  have hopened : (Session.steps ⟨answeredOnce, [], []⟩ openedWithSchema).2.streams
      = [(0, .unstarted (.text "go") { outputSchema := .table statusSchema })] := by decide +kernel
  have hruns : ((Session.steps ⟨answeredOnce, [], []⟩ openedWithSchema).2.steps [.next 0]).2.streams
      = [(0, .live ⟨⟨[], none, false, 0⟩, true⟩)] := by decide +kernel
  have hclosed : ((Session.steps ⟨answeredOnce, [], []⟩ openedWithSchema).2.steps
      [.next 0, .closeStream 0]).2.client.directories = 0 := by decide +kernel
  have hdocument : (Value.named [("type", .str "object")]).IsDocument 1 :=
    .named (List.nodup_singleton _) (List.forall_mem_singleton.mpr (.str "object"))
  obtain ⟨text, hmade, -, hread⟩ := hfile "/tmp/schemas" { outputSchema := .table statusSchema }
    statusSchema none 1 rfl hdocument rfl
  obtain ⟨⟨⟨file, hgiven, -, call, hcall, hnames⟩⟩, -⟩ :=
    hlive 0 0 _ _ _ (by rw [hopened]; rfl) (by rw [hruns]; rfl)
  rw [((becomes_steps _ _).trans (becomes_steps _ _)).surroundings_eq] at hgiven
  obtain rfl : file = some _ := Except.ok.inj (hgiven.symm.trans hmade)
  refine ⟨hc, _, call, text,
    by rw [hruns]; rfl, hcall, hnames, hread .wire (by decide), ?_, hclosed⟩
  rw [hdirectories, hruns]
  rfl

end Session

end AgentClient
