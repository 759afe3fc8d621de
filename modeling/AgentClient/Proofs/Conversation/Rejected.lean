import AgentClient.Proofs.Conversation.UnreadLog
import AgentClient.Proofs.Json.Documents

/-!
# Proofs/Conversation/Rejected — a rejected turn leaves no trace

A turn is rejected before the agent is asked if the thread is busy, if its schema or its input is
none, or if its schema cannot be written (`Thread.Rejects`).  The last of these is found when the
thread is busy with the turn already and its directory exists, and a run looks at its schema before
it looks at the thread, but whichever reason is found first, the scene is left as it was, the log
apart (`Scene.start_of_rejects`, `Scene.run_of_rejects`).  The log is never read, so **all that is
done later is as if the turn had never been attempted** (`Session.rejected_without_trace`).
-/

namespace AgentClient

/-! ## Why a turn is rejected

The reasons are stated for the thread, the input and the options alone. Several of them may hold at
once, and then the order of the checks decides which one is reported. -/

/-- **The reasons to reject a turn** before the agent is asked, each with its failure. -/
inductive Thread.Rejects (t : Thread) (input : Input) (options : TurnOptions) : Failure → Prop
  | busy (h : t.running = true) : t.Rejects input options (.client .busy)
  /-- The schema is neither a table nor a record model. -/
  | badSchema (hnull : options.outputSchema ≠ .null)
    (htable : ∀ schema, options.outputSchema ≠ .table schema)
    (hmodel : ∀ m, options.outputSchema ≠ .model m) :
    t.Rejects input options (.client (.config (.badSchema options.outputSchema.typeName)))
  /-- An entry of the input is neither a text nor an image. -/
  | badEntry {items : List InputEntry} {v : Value} (hinput : input = .entries items)
    (hv : .other v ∈ items) : t.Rejects input options (Input.badEntry v)
  /-- The schema, a table or that of a record model, cannot be written. -/
  | unwritable {schema : Table} {f : Json.WriteFault}
    (hschema : options.outputSchema = .table schema
      ∨ ∃ m, options.outputSchema = .model m ∧ m.schema = schema)
    (hwrite : Json.write .oneLine (.table schema) = .error f) :
    t.Rejects input options (.fault (.unwritable f))

namespace OutputSchema

variable {v : Value} {f : Failure} {schema : OutputSchema}

theorem eq_badSchema_of_resolve (h : resolve v = .error f) :
    f = .client (.config (.badSchema v.typeName)) ∧ v ≠ .null ∧ (∀ t, v ≠ .table t)
      ∧ ∀ m, v ≠ .model m := by
  cases v with
  | null | table | model => exact absurd h nofun
  | _ => exact ⟨(Except.error.inj h).symm, nofun, nofun, nofun⟩

/-- A schema that is there was given as it is or by a record model. -/
theorem schema_of_resolve (h : resolve v = .ok schema) {t : Table} (ht : schema.schema = some t) :
    v = .table t ∨ ∃ m, v = .model m ∧ m.schema = t := by
  cases v with
  | null =>
    obtain rfl := Except.ok.inj h
    exact absurd ht nofun
  | table u =>
    obtain rfl := Except.ok.inj h
    exact .inl (congrArg Value.table (Option.some.inj ht))
  | model m =>
    obtain rfl := Except.ok.inj h
    exact .inr ⟨m, rfl, Option.some.inj ht⟩
  | _ => exact absurd h nofun

end OutputSchema

namespace Input

variable {items : List InputEntry} {depth : Nat}

/-- Entries are rejected for one that is neither a text nor an image. -/
theorem exists_badEntry_of_collect {f : Failure} (h : collect depth items = .error f) :
    ∃ v, .other v ∈ items ∧ f = .fault (entryFault depth v) := by
  -- The first entry that is wrong is the one that is refused, wherever it stands.
  induction items with
  | nil => exact absurd h nofun
  | cons entry items ih =>
    have hrest : collect depth items = .error f → ∃ v, .other v ∈ entry :: items ∧
      f = .fault (entryFault depth v) := by
      intro h
      obtain ⟨v, hv, hf⟩ := ih h
      exact ⟨v, List.mem_cons_of_mem _ hv, hf⟩
    cases entry with
    | other v => exact ⟨v, List.mem_cons_self, (Except.error.inj h).symm⟩
    | text s | image path =>
      rw [collect] at h
      cases hcollect : collect depth items with
      | ok given =>
        rw [hcollect] at h
        exact absurd h nofun
      | error f' =>
        rw [hcollect] at h
        exact hrest (hcollect.trans h)

/-- For any such entry they are. -/
theorem exists_collect_eq_error {v : Value} (hv : .other v ∈ items) :
    ∃ f, collect depth items = .error f := by
  induction items with
  | nil => exact absurd hv List.not_mem_nil
  | cons entry items ih =>
    cases entry with
    | other w => exact ⟨_, rfl⟩
    | text s | image path =>
      obtain ⟨f, hf⟩ := ih ((List.mem_cons.mp hv).resolve_left nofun)
      exact ⟨f, by rw [collect, hf]; rfl⟩

variable {input : Input}

/-- An input that is refused has an entry that is neither a text nor an image. -/
theorem exists_badEntry_of_normalize {f : Failure} (h : input.normalize = .error f) :
    ∃ items v, input = .entries items ∧ .other v ∈ items ∧ f = badEntry v := by
  cases input with
  | text s => exact absurd h nofun
  | entries items =>
    rw [normalize, normalizeAt] at h
    cases hcollect : collect Value.displayDepth items with
    | ok given =>
      rw [hcollect] at h
      exact absurd h nofun
    | error f' =>
      rw [hcollect] at h
      obtain rfl := Except.error.inj h
      obtain ⟨v, hv, rfl⟩ := exists_badEntry_of_collect hcollect
      exact ⟨items, v, rfl, hv, rfl⟩

theorem normalize_ne_ok {v : Value} (hv : .other v ∈ items) (given : String × List Value) :
    (entries items).normalize ≠ .ok given := by
  obtain ⟨f, hf⟩ : ∃ f, collect Value.displayDepth items = .error f := exists_collect_eq_error hv
  rw [normalize, normalizeAt, hf]
  exact nofun

end Input

theorem SchemaFile.text?_of_write_error {table : Table} {fault : Json.WriteFault}
    (h : Json.write .oneLine (.table table) = .error fault) :
    text? (some table) = .error (.fault (.unwritable fault)) := by
  rw [text?, h]

/-- A schema without a text is one that cannot be written. -/
theorem SchemaFile.write_of_text? {schema : Option Table} {f : Failure}
    (h : text? schema = .error f) :
    ∃ table fault, schema = some table ∧ Json.write .oneLine (.table table) = .error fault
      ∧ f = .fault (.unwritable fault) := by
  cases schema with
  | none => exact absurd h nofun
  | some table =>
    rw [text?.eq_def] at h
    dsimp only at h
    -- The text of the schema is the only one that may be missing.
    cases hwrite : Json.write .oneLine (.table table) with
    | ok text =>
      rw [hwrite] at h
      exact absurd h nofun
    | error fault =>
      rw [hwrite] at h
      exact ⟨table, fault, rfl, hwrite, (Except.error.inj h).symm⟩

/-! ## Starting a rejected turn

Being rejected for some reason is shown to be the same as having no question to ask the agent, so
that what is known of the start of a turn without a question applies. -/

section

variable {input : Input} {options : TurnOptions} {f : Failure}

/-- **What is wrong with a turn is one of the reasons.** -/
theorem Thread.rejects_of_question {t : Thread} {directory : String}
    (h : t.question directory input options = .error f) : t.Rejects input options f := by
  -- The reasons in the order of the checks: the thread, the schema, the entries, the text of the
  -- schema.
  rw [question.eq_def] at h
  split at h
  · next hbusy => exact Except.error.inj h ▸ .busy hbusy
  · split at h
    · next f' hresolve =>
      obtain rfl := Except.error.inj h
      obtain ⟨rfl, hnull, htable, hmodel⟩ := OutputSchema.eq_badSchema_of_resolve hresolve
      exact .badSchema hnull htable hmodel
    · next schema hresolve =>
      split at h
      · next f' hnormalize =>
        obtain rfl := Except.error.inj h
        obtain ⟨items, v, hinput, hv, rfl⟩ := Input.exists_badEntry_of_normalize hnormalize
        exact .badEntry hinput hv
      · next prompt images _ =>
        cases htext : SchemaFile.text? schema.schema with
        | ok text =>
          rw [htext] at h
          exact absurd h nofun
        | error f' =>
          rw [htext] at h
          obtain rfl := Except.error.inj h
          obtain ⟨table, fault, hschema, hwrite, rfl⟩ := SchemaFile.write_of_text? htext
          exact .unwritable (OutputSchema.schema_of_resolve hresolve hschema) hwrite

/-- What an idle thread rejects, every thread does. -/
theorem Thread.Rejects.of_idle {t : Thread} (h : t.Rejects input options f)
    (hidle : t.running = false) (u : Thread) : u.Rejects input options f := by
  cases h with
  | busy hbusy => exact absurd (hidle.symm.trans hbusy) Bool.false_ne_true
  | badSchema hnull htable hmodel => exact .badSchema hnull htable hmodel
  | badEntry hinput hv => exact .badEntry hinput hv
  | unwritable hschema hwrite => exact .unwritable hschema hwrite

variable {s : Scene}

/-- An accepted turn is at odds with each of the reasons. -/
theorem Accepted.not_rejects (a : Accepted s input options) :
    ¬ s.thread.Rejects input options f := by
  -- Each of the reasons contradicts one thing that an accepted turn has passed.
  rintro (hbusy | ⟨hnull, htable, hmodel⟩ | @⟨items, v, rfl, hv⟩ |
    @⟨schema, fault, hschema, hwrite⟩)
  · exact Bool.false_ne_true (a.idle.symm.trans hbusy)
  · have hresolve := a.resolve_eq
    cases hv : options.outputSchema with
    | null => exact hnull hv
    | table schema => exact htable schema hv
    | model m => exact hmodel m hv
    | _ =>
      rw [hv] at hresolve
      exact absurd hresolve nofun
  · exact Input.normalize_ne_ok hv _ a.normalize_eq
  · have hresolve := a.resolve_eq
    have hsome : a.schema.schema = some schema := by
      rcases hschema with hschema | ⟨m, hschema, rfl⟩ <;> rw [hschema] at hresolve <;>
        rw [← Except.ok.inj hresolve]
    have htext := a.text?_eq.1
    rw [hsome, SchemaFile.text?_of_write_error hwrite] at htext
    exact absurd htext nofun

/-- **Any of the reasons is enough**, though another one may be found first. -/
theorem Scene.exists_question_eq_error (h : s.thread.Rejects input options f) :
    ∃ f', s.thread.Rejects input options f'
      ∧ s.thread.question s.client.surroundings.schemaDirectory input options = .error f' := by
  cases hquestion : s.thread.question s.client.surroundings.schemaDirectory input options with
  | error f' => exact ⟨f', s.thread.rejects_of_question hquestion, rfl⟩
  | ok q =>
    obtain ⟨a⟩ := exists_accepted hquestion
    exact (a.not_rejects h).elim

/-- So a turn with none of them is accepted. -/
theorem Scene.exists_accepted_of_not_rejects (h : ∀ f, ¬ s.thread.Rejects input options f) :
    Nonempty (Accepted s input options) := by
  cases hquestion : s.thread.question s.client.surroundings.schemaDirectory input options with
  | error f => exact (h f (s.thread.rejects_of_question hquestion)).elim
  | ok q => exact exists_accepted hquestion

/-- **A rejected turn is not started**, and leaves a line in the log at most. -/
theorem Scene.start_of_rejects (h : s.thread.Rejects input options f) :
    ∃ f' m, s.thread.Rejects input options f' ∧ s.SameButLog m
      ∧ s.start input options = (.error f', m) := by
  obtain ⟨f', hf', hquestion⟩ := exists_question_eq_error h
  obtain ⟨hfailed, hthread, hclient⟩ := start_of_question_error hquestion
  exact ⟨f', (s.start input options).2, hf', ⟨hclient, hthread⟩, Prod.ext hfailed rfl⟩

/-- So it is if its result is asked for; then its schema is looked at first. -/
theorem Scene.run_of_rejects (h : s.thread.Rejects input options f) :
    ∃ f' m, s.thread.Rejects input options f' ∧ s.SameButLog m
      ∧ s.run input options = (.error f', m) := by
  rcases hresolve : OutputSchema.resolve options.outputSchema with f' | schema
  · obtain ⟨rfl, hnull, htable, hmodel⟩ := OutputSchema.eq_badSchema_of_resolve hresolve
    refine ⟨_, s, .badSchema hnull htable hmodel, ⟨.refl _, rfl⟩, ?_⟩
    rw [run, hresolve]
  · obtain ⟨f', m, hf', hm, hstart⟩ := start_of_rejects h
    refine ⟨f', m, hf', hm, ?_⟩
    rw [run_of_resolve hresolve, drain, hstart]

end

/-! ## Sessions with a rejected turn

A rejected stream stays in the session as one that has failed, and gives nothing any more. So a
session with the attempt and one without it differ in such streams and in the log, and in nothing
that a step looks at. -/

namespace Session

variable {s : Session} {i k : Nat} {t : Thread} {input : Input} {options : TurnOptions}
  {f : Failure}

/-- **A step that leaves no trace** but in some odd streams and in the log: the client, the threads
and all other streams are as before, and so are the reports of all steps that come later. -/
structure LeavesNoTrace (s : Session) (odd : Nat → Prop) (x : Step) : Prop where
  alike : s.AlikeBut odd (s.step x).2
  later (xs : List Step) (hxs : ∀ y ∈ xs, ∀ k ∈ y.stream?, ¬ odd k) :
    ((s.step x).2.steps xs).1 = (s.steps xs).1
      ∧ (s.steps xs).2.AlikeBut odd ((s.step x).2.steps xs).2

theorem AlikeBut.leavesNoTrace {odd : Nat → Prop} {x : Step} (h : s.AlikeBut odd (s.step x).2) :
    s.LeavesNoTrace odd x :=
  ⟨h, fun _ hxs => h.steps hxs⟩

/-- A scene that is the same but for the log leaves a session like that. -/
theorem alikeBut_after (ht : s.threads[i]? = some t) {m : Scene} (hm : (s.scene t).SameButLog m)
    (odd : Nat → Prop) : s.AlikeBut odd (s.after i m) := by
  obtain ⟨hlt, hget⟩ := List.getElem?_eq_some_iff.mp ht
  refine ⟨hm.client, ?_, rfl, fun _ _ => rfl⟩
  rw [after, hm.thread_eq, scene, ← hget, List.set_getElem_self]

theorem alikeBut_putStream {p : Session} (h : s.AlikeBut (· = k) p) (e : EventStream) :
    s.AlikeBut (· = k) (p.putStream k i e) := by
  refine ⟨h.client, h.threads_eq, ?_, fun j hj => ?_⟩
  · rw [putStream, List.length_set, h.length_eq]
  · rw [putStream, List.getElem?_set_ne (Ne.symm hj), h.stream_eq j hj]

/-- **A rejected turn leaves no trace**, whether its result is asked for or its events are: it fails
for one of the reasons, the agent is not called, no directory is left, the threads and the other
streams are as they were, and every later step gives what it would have given otherwise.  Its own
stream has ended. -/
theorem rejected_without_trace (ht : s.threads[i]? = some t) (h : t.Rejects input options f) :
    (∃ f', t.Rejects input options f'
      ∧ (s.step (.run i input options)).1 = .failed f'
      ∧ s.LeavesNoTrace (fun _ => False) (.run i input options))
    ∧ ∀ k, s.streams[k]? = some (i, .unstarted input options) →
      ∃ f', t.Rejects input options f'
        ∧ (s.step (.next k)).1 = .failed f' ∧ (s.step (.drain k)).1 = .events [] (some f')
        ∧ ∀ x ∈ [Step.next k, .drain k], s.LeavesNoTrace (· = k) x
          ∧ (s.step x).2.streams[k]? = some (i, .ended) := by
  constructor
  · obtain ⟨f', m, hf', hm, hrun⟩ := Scene.run_of_rejects (s := s.scene t) h
    have hstep : s.step (.run i input options) = (.failed f', s.after i m) := by
      rw [step, onThread_eq ht, hrun]
    refine ⟨f', hf', by rw [hstep], AlikeBut.leavesNoTrace ?_⟩
    rw [hstep]
    exact alikeBut_after ht hm _
  · intro k hk
    -- A stream that has not been started asks its question at the first event, so both ways to read
    -- it are refused alike.
    obtain ⟨f', m, hf', hm, hstart⟩ := Scene.start_of_rejects (s := s.scene t) h
    have hnext : s.step (.next k) = (.failed f', (s.after i m).putStream k i .ended) := by
      rw [step, onStream_eq hk ht, Scene.next, hstart]
      rfl
    have hdrain : s.step (.drain k)
        = (.events [] (some f'), (s.after i m).putStream k i .ended) := by
      rw [step, onStream_eq hk ht, Scene.drain, hstart]
    have hlt := (List.getElem?_eq_some_iff.mp hk).1
    have hended : ((s.after i m).putStream k i .ended).streams[k]? = some (i, .ended) :=
      List.getElem?_set_self hlt
    refine ⟨f', hf', by rw [hnext], by rw [hdrain], fun x hx => ?_⟩
    have hx : (s.step x).2 = (s.after i m).putStream k i .ended := by
      simp only [List.mem_cons, List.not_mem_nil, or_false] at hx
      rcases hx with rfl | rfl
      · rw [hnext]
      · rw [hdrain]
    refine ⟨AlikeBut.leavesNoTrace ?_, by rw [hx, hended]⟩
    rw [hx]
    exact alikeBut_putStream (alikeBut_after ht hm _) _

/-- A stream on a thread, asked once, and a second one that has not been asked. -/
def suspendedStream : List Step :=
  [.startThread {}, .openStream 0 (.text "first") { outputSchema := .table [] }, .next 0,
    .openStream 0 (.text "second") {}]

/-- The second one is refused, and then the first one gives what it has left. -/
theorem rejected_suspendedStream :
    let s := (Session.steps ⟨answeredOnce, [], []⟩ suspendedStream).2
    ∃ f, (s.step (.next 1)).1 = .failed f
      ∧ ((s.step (.next 1)).2.steps [.drain 0, .threadId 0]).1
        = (s.steps [.drain 0, .threadId 0]).1 := by
  intro s
  have ht : s.threads[0]? = some { running := true } := by decide +kernel
  have hk : s.streams[1]? = some (0, .unstarted (.text "second") {}) := by decide +kernel
  obtain ⟨f, -, hf, -, htrace⟩ := (rejected_without_trace ht (.busy rfl)).2 1 hk
  have hlater := ((htrace (.next 1) List.mem_cons_self).1).later [.drain 0, .threadId 0]
    (by simp [Step.stream?])
  exact ⟨f, hf, hlater.1⟩

end Session

end AgentClient
