import AgentClient.Conversation.Session
import Mathlib.Algebra.BigOperators.Group.Finset.Piecewise

/-!
# Proofs/Conversation/Accounts — what the running turns of a session hold, and nothing else is held

A turn that runs holds three things: its thread, an open call to the agent and, with a schema, a
directory.  `Accounts` says that a list of turns holds exactly what a client has open; every
operation of a scene keeps it for whatever other turns there are (`Balanced`), so a session keeps it
for all its streams (`Session.accounted_steps`). -/

namespace AgentClient

/-! ## Calls that are open

Calls are told apart by their places in the journal, which never change. A refused process has a
call that is over from the start, since no turn is left to close it. -/

namespace Call

/-- Whether the turn of a call is over: it was closed, or the process was refused and never came up.
-/
def isOver (c : Call) : Bool :=
  c.isClosed || c = .refused

/-- Closing a call is the end of it, whatever it was. -/
theorem isOver_close (c : Call) (exitSeen : Bool) : (c.close exitSeen).isOver = true := by
  cases c <;> rfl

end Call

namespace Journal

/-- The places of the calls that are not over. -/
def openPlaces (j : Journal) : List Nat :=
  j.findIdxs fun c => !c.isOver

theorem openPlaces_concat (j : Journal) (c : Call) :
    openPlaces (j ++ [c]) = openPlaces j ++ if c.isOver then [] else [j.length] := by
  rw [openPlaces, List.findIdxs_append, List.findIdxs_singleton, Nat.zero_add]
  cases c.isOver <;> rfl

theorem nodup_openPlaces (j : Journal) : (openPlaces j).Nodup :=
  List.nodup_findIdxs

theorem mem_openPlaces {j : Journal} {i : Nat} :
    i ∈ openPlaces j ↔ ∃ h : i < j.length, j[i].isOver = false := by
  simp only [openPlaces, List.mem_findIdxs_iff_exists_getElem_pos, Bool.not_eq_true']

/-- Closing a call takes its place away and no other. -/
theorem openPlaces_modify (j : Journal) (i : Nat) (exitSeen : Bool) :
    (openPlaces (j.modify i (Call.close exitSeen))).Perm ((openPlaces j).erase i) := by
  rw [List.perm_ext_iff_of_nodup (nodup_openPlaces _) ((nodup_openPlaces j).erase i)]
  intro k
  rw [(nodup_openPlaces j).mem_erase_iff, mem_openPlaces, mem_openPlaces]
  by_cases h : k = i
  · subst h
    simp [Call.isOver_close]
  · simp [h, Ne.symm h]

/-- Every call is over or at an open place. -/
theorem length_eq_countP_add_openPlaces (j : Journal) :
    j.length = j.countP Call.isOver + (openPlaces j).length := by
  rw [openPlaces, List.length_findIdxs, List.length_eq_countP_add_countP Call.isOver]
  congr 1
  exact List.countP_congr fun c _ => by simp

end Journal

/-! ## What turns hold

The three parts of `Accounts` are counts or lists of places, and none of them mentions threads. So
the order in which the turns are listed does not matter, and a turn can be taken out wherever it
stands. -/

/-- **Turns hold what a client has open**: their calls are the open ones, each held once, and there
are as many schema directories as turns with a schema. -/
structure Accounts (c : Client) (turns : List LiveTurn) : Prop where
  calls : (turns.map (·.feed.call)).Perm (Journal.openPlaces c.journal)
  directories : c.directories = turns.countP (·.hasSchema)

namespace Accounts

variable {c c' : Client} {t : LiveTurn} {turns turns' : List LiveTurn}

/-- The order of the turns does not matter. -/
theorem perm (h : Accounts c turns) (hp : turns.Perm turns') : Accounts c turns' :=
  ⟨(hp.map _).symm.trans h.calls, h.directories.trans (hp.countP_eq _)⟩

/-- Neither do the calls that are over, nor the rest of the client. -/
theorem congr (h : Accounts c turns)
    (hj : Journal.openPlaces c'.journal = Journal.openPlaces c.journal)
    (hd : c'.directories = c.directories) : Accounts c' turns :=
  ⟨hj ▸ h.calls, hd ▸ h.directories⟩

/-- Neither do the lines that a turn has still to get. -/
theorem withLines (h : Accounts c (t :: turns)) (lines : List String) :
    Accounts c (t.withLines lines :: turns) := by
  refine ⟨h.calls, h.directories.trans ?_⟩
  rw [List.countP_cons, List.countP_cons]
  rfl

/-- A turn that begins takes a place at the end of the journal. -/
theorem cons (h : Accounts c turns)
    (hj : Journal.openPlaces c'.journal = Journal.openPlaces c.journal ++ [t.feed.call])
    (hd : c'.directories = c.directories + t.hasSchema.toNat) : Accounts c' (t :: turns) := by
  refine ⟨?_, ?_⟩
  · rw [hj, List.map_cons]
    exact (h.calls.cons _).trans (List.perm_append_singleton _ _).symm
  · rw [hd, h.directories, List.countP_cons]
    cases t.hasSchema <;> rfl

/-- A turn that ends gives its place back. -/
theorem of_cons (h : Accounts c (t :: turns))
    (hj : (Journal.openPlaces c'.journal).Perm ((Journal.openPlaces c.journal).erase t.feed.call))
    (hd : c'.directories = c.directories - t.hasSchema.toNat) : Accounts c' turns := by
  refine ⟨?_, ?_⟩
  · exact (List.cons_perm_iff_perm_erase.mp h.calls).2.trans hj.symm
  · rw [hd, h.directories, List.countP_cons]
    cases t.hasSchema <;> simp

end Accounts

/-! ## What starting and ending a turn does to the accounts

One lemma for each operation of the client and each part of the accounts. Most of them say that the
operation leaves that part alone. -/

namespace Client

variable {c c' : Client}

/-- A turn that has started leaves its call behind all others, and it is open. -/
theorem journal_launch {r : TurnRequest} {schema : Option String} {feed : Feed}
    (h : c.launch r schema = (.ok feed, c')) :
    ∃ call, c'.journal = c.journal ++ [call] ∧ call.isOver = false ∧
      feed.call = c.journal.length := by
  revert h
  rw [launch]
  cases c.agent with
  | memory replies =>
    rintro ⟨⟩
    exact ⟨_, rfl, rfl, rfl⟩
  | executable e scripts =>
    dsimp only [launchProcess]
    cases e.command r with
    | error f => rintro ⟨⟩
    | ok command =>
      cases Deadline.ofTimeout r.timeout with
      | error f => rintro ⟨⟩
      | ok deadline =>
        rcases takeScript scripts with ⟨script, later⟩
        cases script.refusal with
        | some error => rintro ⟨⟩
        | none =>
          rintro ⟨⟩
          exact ⟨_, rfl, rfl, rfl⟩

/-- It is the one place more that is open. -/
theorem openPlaces_launch {r : TurnRequest} {schema : Option String} {feed : Feed}
    (h : c.launch r schema = (.ok feed, c')) :
    Journal.openPlaces c'.journal = Journal.openPlaces c.journal ++ [feed.call] := by
  obtain ⟨call, hj, hopen, hcall⟩ := journal_launch h
  rw [hj, Journal.openPlaces_concat, hopen, hcall]
  rfl

/-- A turn that has not started leaves no call open; a refused process is on record. -/
theorem openPlaces_launch_error {r : TurnRequest} {schema : Option String} {f : Failure}
    (h : c.launch r schema = (.error f, c')) :
    Journal.openPlaces c'.journal = Journal.openPlaces c.journal := by
  revert h
  rw [launch]
  cases c.agent with
  | memory replies => rintro ⟨⟩
  | executable e scripts =>
    dsimp only [launchProcess]
    cases e.command r with
    | error f =>
      rintro ⟨⟩
      rfl
    | ok command =>
      cases Deadline.ofTimeout r.timeout with
      | error f =>
        rintro ⟨⟩
        rfl
      | ok deadline =>
        rcases takeScript scripts with ⟨script, later⟩
        cases script.refusal with
        | none => rintro ⟨⟩
        | some error =>
          rintro ⟨⟩
          exact (Journal.openPlaces_concat _ _).trans (List.append_nil _)

/-- Asking the agent makes no directory. -/
theorem directories_launch (r : TurnRequest) (schema : Option String) :
    (c.launch r schema).2.directories = c.directories := by
  rw [launch]
  cases c.agent with
  | memory replies => rfl
  | executable e scripts =>
    dsimp only [launchProcess]
    cases e.command r with
    | error f => rfl
    | ok command =>
      cases Deadline.ofTimeout r.timeout with
      | error f => rfl
      | ok deadline =>
        rcases takeScript scripts with ⟨script, later⟩
        cases script.refusal <;> rfl

theorem journal_settle (f : Feed) (exitSeen : Bool) :
    (c.settle f exitSeen).journal = c.journal.modify f.call (Call.close exitSeen) := by
  rw [settle]
  cases c.runsProcesses <;> rfl

theorem directories_settle (f : Feed) (exitSeen : Bool) :
    (c.settle f exitSeen).directories = c.directories := by
  rw [settle]
  cases c.runsProcesses <;> rfl

theorem journal_makeDirectory (hasSchema : Bool) :
    (c.makeDirectory hasSchema).journal = c.journal := by
  cases hasSchema <;> rfl

theorem directories_makeDirectory (hasSchema : Bool) :
    (c.makeDirectory hasSchema).directories = c.directories + hasSchema.toNat := by
  cases hasSchema <;> rfl

theorem journal_removeDirectory (hasSchema : Bool) :
    (c.removeDirectory hasSchema).journal = c.journal := by
  cases hasSchema <;> rfl

theorem directories_removeDirectory (hasSchema : Bool) :
    (c.removeDirectory hasSchema).directories = c.directories - hasSchema.toNat := by
  cases hasSchema <;> rfl

end Client

/-- Options that give a schema are all but null. -/
theorem OutputSchema.isSome_schema_of_resolve {v : Value} {o : OutputSchema}
    (h : resolve v = .ok o) : o.schema.isSome = decide (v ≠ .null) := by
  cases v with
  | null | model | table =>
    obtain rfl := Except.ok.inj h
    simp
  | _ => exact absurd h nofun

/-! ## What a step of a turn does to the accounts

An operation on one thread is looked at without the rest of the session: `Balanced` has the turns of
all other threads as an argument, so what is shown of one thread holds next to any others. -/

/-- The turn that a stream has running, if it has one. -/
def EventStream.held : EventStream → List LiveTurn
  | .live t => [t]
  | _ => []

/-- Whether a stream is one of a turn with a schema. -/
def EventStream.wantsSchema : EventStream → Bool
  | .unstarted _ options => options.outputSchema ≠ .null
  | .live t => t.hasSchema
  | .ended => false

/-- The turn that an attempt to start one has begun. -/
def begun : Except Failure LiveTurn → List LiveTurn
  | .ok t => [t]
  | .error _ => []

/-- **A change of a scene that balances**: it ends the turns `held` and begins the turns `held'`,
whatever other turns there are, and the thread is busy with one of them before or after. -/
structure Balanced (s : Scene) (held : List LiveTurn) (s' : Scene) (held' : List LiveTurn) :
    Prop where
  accounts : ∀ others, Accounts s.client (held ++ others) → Accounts s'.client (held' ++ others)
  running : s.thread.running.toNat + held'.length = s'.thread.running.toNat + held.length

namespace Balanced

variable {s s' s'' : Scene} {held held' held'' : List LiveTurn}

theorem refl (s : Scene) (held : List LiveTurn) : Balanced s held s held :=
  ⟨fun _ h => h, rfl⟩

theorem trans (h : Balanced s held s' held') (h' : Balanced s' held' s'' held'') :
    Balanced s held s'' held'' := by
  obtain ⟨ha, hr⟩ := h
  obtain ⟨ha', hr'⟩ := h'
  exact ⟨fun others hs => ha' others (ha others hs), by omega⟩

/-- Nothing that the accounts look at has changed. -/
theorem of_eq (held : List LiveTurn)
    (hj : Journal.openPlaces s'.client.journal = Journal.openPlaces s.client.journal)
    (hd : s'.client.directories = s.client.directories)
    (hr : s'.thread.running = s.thread.running) : Balanced s held s' held :=
  ⟨fun _ h => h.congr hj hd, by rw [hr]⟩

/-- A thread whose turn has begun is busy. -/
theorem running_eq {t : LiveTurn} (h : Balanced s [] s' [t]) : s'.thread.running = true := by
  have hr : s.thread.running.toNat + 1 = s'.thread.running.toNat := h.running
  have hle := Bool.toNat_le s'.thread.running
  exact Bool.toNat_eq_one.mp (by omega)

end Balanced

namespace Scene

variable {s s' : Scene} {t : LiveTurn}

/-- **The end of a turn** gives back its thread, its call and its directory. -/
theorem balanced_release (hs : s.thread.running = true) (t : LiveTurn) (exitSeen : Bool) :
    Balanced s [t] (s.release t exitSeen) [] := by
  refine ⟨fun others h => h.of_cons ?_ ?_, by rw [hs]; rfl⟩
  · rw [release, Client.journal_removeDirectory, Client.journal_settle]
    exact Journal.openPlaces_modify _ _ _
  · rw [release, Client.directories_removeDirectory, Client.directories_settle]

/-- An event is noticed without anything being opened or closed. -/
theorem balanced_notice (s : Scene) (held : List LiveTurn) (e : Event) :
    Balanced s held (s.notice e) held := by
  cases e <;> exact .of_eq held rfl rfl rfl

theorem running_notice (s : Scene) (e : Event) :
    (s.notice e).thread.running = s.thread.running := by
  cases e <;> rfl

/-- An attempt that has left no call open balances when its directory is taken back. -/
theorem balanced_takeBack (hs : s.thread.running = false) {c : Client} {hasSchema : Bool}
    (hj : Journal.openPlaces c.journal = Journal.openPlaces s.client.journal)
    (hd : c.directories = s.client.directories + hasSchema.toNat) :
    Balanced s [] ⟨c.removeDirectory hasSchema, { s.thread with running := false }⟩ [] := by
  refine .of_eq [] ?_ ?_ hs.symm
  · rw [Client.journal_removeDirectory, hj]
  · rw [Client.directories_removeDirectory, hd, Nat.add_sub_cancel]

/-- Starting an accepted turn begins it, or takes everything back. -/
theorem balanced_occupy (hs : s.thread.running = false) (prompt : String) (images : List Value)
    (schema : Option Table) (timeout : Value) :
    Balanced s [] (s.occupy prompt images schema timeout).2
      (begun (s.occupy prompt images schema timeout).1) := by
  dsimp only [occupy]
  cases SchemaFile.ofSchema? (s.client.makeDirectory schema.isSome).surroundings.schemaDirectory
      schema with
  | error f =>
    refine balanced_takeBack hs ?_ (Client.directories_makeDirectory _)
    rw [Client.journal_makeDirectory]
  | ok file =>
    have hdir := Client.directories_launch (c := s.client.makeDirectory schema.isSome)
      (s.request prompt images file timeout) (file.map (·.text))
    rw [Client.directories_makeDirectory] at hdir
    rcases hl : (s.client.makeDirectory schema.isSome).launch
        (s.request prompt images file timeout) (file.map (·.text)) with ⟨f | feed, c⟩
    · have hopen := Client.openPlaces_launch_error hl
      rw [Client.journal_makeDirectory] at hopen
      dsimp only
      rw [hl] at hdir ⊢
      exact balanced_takeBack hs hopen hdir
    · have hopen := Client.openPlaces_launch hl
      rw [Client.journal_makeDirectory] at hopen
      dsimp only
      rw [hl] at hdir ⊢
      refine ⟨fun others h => h.cons hopen hdir, ?_⟩
      rw [hs]
      rfl

/-- **The start of a turn** takes its thread, a call and a directory, or nothing at all. -/
theorem balanced_start (s : Scene) (input : Input) (options : TurnOptions) :
    Balanced s [] (s.start input options).2 (begun (s.start input options).1) := by
  dsimp only [start]
  cases hs : s.thread.running with
  | true => exact .refl s []
  | false =>
    cases OutputSchema.resolve options.outputSchema with
    | error f => exact .refl s []
    | ok schema =>
      cases input.normalize with
      | error f => exact .refl s []
      | ok request => exact balanced_occupy hs _ _ _ _

/-- **Asking a running turn for an event** leaves it running or ends it. -/
theorem balanced_pull (hs : s.thread.running = true) (t : LiveTurn) :
    Balanced s [t] (s.pull t).2.1 (s.pull t).2.2.held := by
  dsimp only [pull]
  cases t.feed.lines with
  | nil => exact balanced_release hs t _
  | cons line rest =>
    dsimp only [takeLine]
    cases Event.parse line with
    | error f => exact balanced_release hs t false
    | ok e =>
      obtain ⟨haccounts, hrunning⟩ := balanced_notice s [t] e
      -- a turn with fewer lines to come holds what it has held
      exact ⟨fun others h => (haccounts others h : Accounts _ (t :: others)).withLines rest,
        hrunning⟩

/-- **Asking a stream for an event** balances, whatever state the stream is in. -/
theorem balanced_next (s : Scene) {e : EventStream}
    (hs : e.held ≠ [] → s.thread.running = true) :
    Balanced s e.held (s.next e).2.1 (s.next e).2.2.held := by
  cases e with
  | ended => exact .refl s []
  | live t => exact balanced_pull (hs (List.cons_ne_nil _ _)) t
  | unstarted input options =>
    have hstart := s.balanced_start input options
    dsimp only [next]
    rcases hst : s.start input options with ⟨f | t, s'⟩
    · rw [hst] at hstart
      exact hstart
    · rw [hst] at hstart
      exact hstart.trans (balanced_pull hstart.running_eq t)

theorem hasSchema_occupy {prompt : String} {images : List Value} {schema : Option Table}
    {timeout : Value} (h : s.occupy prompt images schema timeout = (.ok t, s')) :
    t.hasSchema = schema.isSome := by
  revert h
  dsimp only [occupy]
  split
  · rintro ⟨⟩
  · split
    · rintro ⟨⟩
      rfl
    · rintro ⟨⟩

/-- A turn that has started has a schema if its options give one. -/
theorem hasSchema_start {input : Input} {options : TurnOptions}
    (h : s.start input options = (.ok t, s')) :
    t.hasSchema = (EventStream.unstarted input options).wantsSchema := by
  revert h
  dsimp only [start]
  split
  · rintro ⟨⟩
  · rcases hresolve : OutputSchema.resolve options.outputSchema with f | schema
    · rintro ⟨⟩
    · rcases input.normalize with f | ⟨prompt, images⟩
      · rintro ⟨⟩
      · intro h
        rw [hasSchema_occupy h]
        exact OutputSchema.isSome_schema_of_resolve hresolve

theorem hasSchema_pull {turn : LiveTurn} (h : (s.pull t).2.2 = .live turn) :
    turn.hasSchema = t.hasSchema := by
  revert h
  dsimp only [pull, takeLine]
  cases t.feed.lines with
  | nil => rintro ⟨⟩
  | cons line rest =>
    dsimp only
    cases Event.parse line with
    | error f => rintro ⟨⟩
    | ok e =>
      rintro ⟨⟩
      rfl

/-- A stream that runs has a schema if it was made with one. -/
theorem hasSchema_next {e : EventStream} {turn : LiveTurn} (h : (s.next e).2.2 = .live turn) :
    turn.hasSchema = e.wantsSchema := by
  cases e with
  | ended => exact absurd h nofun
  | live t => exact hasSchema_pull h
  | unstarted input options =>
    revert h
    dsimp only [next]
    rcases hst : s.start input options with ⟨f | t, s'⟩
    · rintro ⟨⟩
    · exact fun h => (hasSchema_pull h).trans (hasSchema_start hst)

/-- **Closing a stream** ends its turn, if it has one running. -/
theorem balanced_close (s : Scene) {e : EventStream}
    (hs : e.held ≠ [] → s.thread.running = true) : Balanced s e.held (s.close e) [] := by
  cases e with
  | live t => exact balanced_release (hs (List.cons_ne_nil _ _)) t false
  | _ => exact .refl s []

/-- **A turn that is given to a receiver** is over afterwards, however it has ended: behind its last
line, at a line that is no event, or when the receiver has had enough. -/
theorem balanced_deliver {σ : Type} (receive : σ → Thread → Event → Except Failure σ) (t : LiveTurn)
    (lines : List String) (hs : s.thread.running = true) (state : σ) :
    Balanced s [t] (deliver receive t lines s state).2.2 [] := by
  induction lines generalizing s state with
  | nil =>
    dsimp only [deliver, finish]
    cases t.feed.failure <;> exact balanced_release hs t _
  | cons line rest ih =>
    dsimp only [deliver, takeLine]
    cases Event.parse line with
    | error f => exact balanced_release hs t false
    | ok e =>
      have hbusy : (s.notice e).thread.running = true := (running_notice s e).trans hs
      refine (balanced_notice s [t] e).trans ?_
      dsimp only
      cases receive state (s.notice e).thread e with
      | error f => exact balanced_release hbusy t false
      | ok state => exact ih hbusy state

theorem balanced_drain {σ : Type} (receive : σ → Thread → Event → Except Failure σ) (s : Scene)
    (state : σ) {e : EventStream} (hs : e.held ≠ [] → s.thread.running = true) :
    Balanced s e.held (s.drain receive state e).2.2 [] := by
  cases e with
  | ended => exact .refl s []
  | live t => exact balanced_deliver receive t _ (hs (List.cons_ne_nil _ _)) state
  | unstarted input options =>
    have hstart := s.balanced_start input options
    dsimp only [drain]
    rcases hst : s.start input options with ⟨f | t, s'⟩
    · rw [hst] at hstart
      exact hstart
    · rw [hst] at hstart
      exact hstart.trans (balanced_deliver receive t _ hstart.running_eq state)

/-- **Running a turn to its end** opens nothing that it does not close. -/
theorem balanced_run (s : Scene) (input : Input) (options : TurnOptions) :
    Balanced s [] (s.run input options).2 [] := by
  dsimp only [run]
  cases OutputSchema.resolve options.outputSchema with
  | error f => exact .refl s []
  | ok schema =>
    have hdrain := s.balanced_drain (fun t thread e => Turn.add t thread.id e) {}
      (e := .unstarted input options) nofun
    dsimp only
    rcases hd : s.drain (fun t thread e => Turn.add t thread.id e) {}
        (.unstarted input options) with ⟨_ | f, turn, s'⟩
    · rw [hd] at hdrain
      exact hdrain
    · rw [hd] at hdrain
      exact hdrain

/-- The thread is as busy behind a run as it was before. -/
theorem running_run (s : Scene) (input : Input) (options : TurnOptions) :
    (s.run input options).2.thread.running = s.thread.running := by
  have h : s.thread.running.toNat = (s.run input options).2.thread.running.toNat :=
    (s.balanced_run input options).running
  rw [← Bool.ofNat_toNat s.thread.running, h, Bool.ofNat_toNat]

end Scene

end AgentClient
