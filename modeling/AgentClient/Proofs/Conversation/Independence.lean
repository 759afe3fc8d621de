import AgentClient.Proofs.Conversation.Exclusive
import AgentClient.Proofs.Conversation.Shown

/-!
# Proofs/Conversation/Independence — threads do not influence each other

What is seen of a thread in a session is what its own steps give, the thread behind them, and what
its turns ask of the agent (`Session.sights`).  The steps on all other threads can be left out
(`Session.alone`): the session that is left mirrors the one thread (`Session.Mirrors`), which steps
on other threads do not touch (`Mirrors.step_of_other`) and its own steps change as they change the
mirror (`Mirrors.step_of_own`).  The one thing that the threads share is the agent, so all this
takes is that the turns of the thread are served the same in both sessions (`sights_alone`). -/

namespace AgentClient

/-! ## The streams of one thread

In the session of one thread alone its streams have other numbers, since those of other threads are
not there. `placeOn` translates the numbers; the lemmas say what happens to it when a stream is
added or replaced. -/

namespace Streams

/-- What the streams of one thread still have to show. -/
def outlinesOn (xs : Streams) (i : Nat) : List EventStream :=
  (xs.filter (·.1 = i)).map (·.2.outline)

/-- The place of a stream among those of one thread. -/
def placeOn (xs : Streams) (i k : Nat) : Nat :=
  (xs.take k).countP (·.1 = i)

variable {xs : Streams} {i j k : Nat} {e : EventStream}

theorem outlinesOn_append (xs ys : Streams) (i : Nat) :
    outlinesOn (xs ++ ys) i = outlinesOn xs i ++ outlinesOn ys i := by
  simp [outlinesOn]

theorem outlinesOn_cons (j : Nat) (e : EventStream) (xs : Streams) (i : Nat) :
    outlinesOn ((j, e) :: xs) i = (if j = i then [e.outline] else []) ++ outlinesOn xs i := by
  by_cases h : j = i <;> simp [outlinesOn, h]

theorem length_outlinesOn_take (xs : Streams) (i k : Nat) :
    (outlinesOn (xs.take k) i).length = placeOn xs i k := by
  rw [outlinesOn, List.length_map, placeOn, List.countP_eq_length_filter]

/-- A stream, those in front of it and those behind. -/
theorem set_eq (hk : xs[k]? = some (i, e)) (p : Nat × EventStream) :
    xs.set k p = xs.take k ++ p :: xs.drop (k + 1) := by
  obtain ⟨hlt, -⟩ := List.getElem?_eq_some_iff.mp hk
  exact List.set_eq_take_append_cons_drop.trans (if_pos hlt)

/-- A list is what stands before a place, what is at it, and what is behind it. -/
theorem eq_of_getElem? (hk : xs[k]? = some (i, e)) :
    xs = xs.take k ++ (i, e) :: xs.drop (k + 1) := by
  rw [← set_eq hk]
  obtain ⟨hlt, hget⟩ := List.getElem?_eq_some_iff.mp hk
  rw [← hget, List.set_getElem_self]

/-- A stream of a thread stands at its place among them. -/
theorem getElem?_outlinesOn (hk : xs[k]? = some (i, e)) :
    (outlinesOn xs i)[placeOn xs i k]? = some e.outline := by
  rw [← length_outlinesOn_take]
  nth_rewrite 1 [eq_of_getElem? hk]
  simp [outlinesOn_append, outlinesOn_cons]

/-- Behind the last stream there is none of the thread. -/
theorem placeOn_of_length_le (h : xs.length ≤ k) : placeOn xs i k = (outlinesOn xs i).length := by
  rw [← length_outlinesOn_take, List.take_of_length_le h]

/-- Another state of a stream is another state at its place. -/
theorem outlinesOn_set (hk : xs[k]? = some (i, e)) (e' : EventStream) :
    outlinesOn (xs.set k (i, e')) i = (outlinesOn xs i).set (placeOn xs i k) e'.outline := by
  have houtlines : outlinesOn xs i
      = outlinesOn (xs.take k) i ++ e.outline :: outlinesOn (xs.drop (k + 1)) i := by
    nth_rewrite 1 [eq_of_getElem? hk]
    simp [outlinesOn_append, outlinesOn_cons]
  rw [houtlines, ← length_outlinesOn_take, set_eq hk]
  simp [outlinesOn_append, outlinesOn_cons]

/-- It is none to the other threads. -/
theorem outlinesOn_set_of_ne (hk : xs[k]? = some (j, e)) (hne : j ≠ i) (e' : EventStream) :
    outlinesOn (xs.set k (j, e')) i = outlinesOn xs i := by
  rw [set_eq hk]
  nth_rewrite 3 [eq_of_getElem? hk]
  simp [outlinesOn_append, outlinesOn_cons, hne]

end Streams

/-! ## What is seen of a thread

A sight leaves out all that other threads may change without touching this one: the log, the numbers
of the steps, and where the schema file was. -/

/-- **What is seen of a step on a thread**: its result and the thread behind it, what it has asked
of the agent, wherever its schema file is, and what it was served. -/
structure Sight where
  result : StepResult
  thread : Option Thread
  asked : Option (TurnRequest × Option String)
  served : Option (List String × Option Failure)
  deriving DecidableEq

namespace Session

/-- The thread that a step is on, or makes. -/
def owner? (s : Session) : Step → Option Nat
  | .startThread _ | .resumeThread .. => some s.threads.length
  | .clientOptions => none
  | .threadId i | .run i .. | .openStream i .. => some i
  | .next k | .drain k | .closeStream k => s.streams[k]?.map (·.1)

/-- The turn that a step begins: its thread, its input and its options. -/
def begins? (s : Session) : Step → Option (Thread × Input × TurnOptions)
  | .run i input options => s.threads[i]?.map fun t => (t, input, options)
  | .next k | .drain k =>
    match s.streams[k]? with
    | some (i, .unstarted input options) => s.threads[i]?.map fun t => (t, input, options)
    | _ => none
  | _ => none

/-- What a step asks of the agent, with any schema file at a place without a name. -/
def asked? (s : Session) (x : Step) : Option (TurnRequest × Option String) :=
  (s.begins? x).bind fun (t, input, options) =>
    (t.question s.client.surroundings.schemaDirectory input options).toOption.map fun (r, schema) =>
      ({ r with schemaPath := r.schemaPath.map fun _ => "" }, schema)

/-- What the turn that a step begins is served. -/
def served? (s : Session) (x : Step) : Option (List String × Option Failure) :=
  (s.begins? x).bind fun (t, input, options) => (s.scene t).served? input options

/-- What is seen of a thread at a step. -/
def sight (s : Session) (i : Nat) (x : Step) : Sight where
  result := (s.step x).1
  thread := (s.step x).2.threads[i]?
  asked := s.asked? x
  served := s.served? x

/-- **What is seen of a thread**, one step on it after another. -/
def sights (s : Session) (i : Nat) : List Step → List Sight
  | [] => []
  | x :: xs => (if s.owner? x = some i then [s.sight i x] else []) ++ sights (s.step x).2 i xs

/-! ## One thread alone

The mirror is a session of its own, with one thread, and both sessions run side by side. They need
not have the same client, only one of the same kind, for the agent has answered more turns in the
one than in the other. -/

/-- A step by the numbers that thread and streams have when there are no others. -/
def renumber (s : Session) (i : Nat) : Step → Step
  | .startThread options => .startThread options
  | .resumeThread id options => .resumeThread id options
  | .clientOptions => .clientOptions
  | .threadId _ => .threadId 0
  | .run _ input options => .run 0 input options
  | .openStream _ input options => .openStream 0 input options
  | .next k => .next (Streams.placeOn s.streams i k)
  | .drain k => .drain (Streams.placeOn s.streams i k)
  | .closeStream k => .closeStream (Streams.placeOn s.streams i k)

/-- **The steps without those on other threads.** -/
def alone (s : Session) (i : Nat) : List Step → List Step
  | [] => []
  | x :: xs =>
    (if (s.owner? x).all (· = i) then [s.renumber i x] else []) ++ alone (s.step x).2 i xs

/-- **A session that mirrors one thread of another**: it has that thread, if it was made yet, and
its streams, as far as they show, and its client is of the same kind. -/
structure Mirrors (i : Nat) (s p : Session) : Prop where
  akin : s.client.Akin p.client
  threads_eq : p.threads = s.threads[i]?.toList
  streams_eq : p.streams.map (fun q => (q.1, q.2.outline))
    = (Streams.outlinesOn s.streams i).map fun e => (0, e)

namespace Mirrors

variable {i : Nat} {s p : Session}

/-- Two clients of a kind that have nothing running mirror each other. -/
theorem fresh {c c' : Client} (h : c.Akin c') (i : Nat) : Mirrors i ⟨c, [], []⟩ ⟨c', [], []⟩ :=
  ⟨h, rfl, rfl⟩

/-- The thread is the first one of the mirror. -/
theorem getElem?_threads (h : Mirrors i s p) : p.threads[0]? = s.threads[i]? := by
  rw [h.threads_eq]
  cases s.threads[i]? <;> rfl

theorem length_streams (h : Mirrors i s p) :
    p.streams.length = (Streams.outlinesOn s.streams i).length := by
  have hlength := congrArg List.length h.streams_eq
  rwa [List.length_map, List.length_map] at hlength

variable {k : Nat} {e : EventStream}

/-- A stream of the thread is one of the mirror, at its place among them. -/
theorem exists_stream (h : Mirrors i s p) (hk : s.streams[k]? = some (i, e)) :
    ∃ e', p.streams[Streams.placeOn s.streams i k]? = some (0, e') ∧ e'.outline = e.outline := by
  have hget := congrArg (·[Streams.placeOn s.streams i k]?) h.streams_eq
  simp only [List.getElem?_map, Streams.getElem?_outlinesOn hk, Option.map_some,
    Option.map_eq_some_iff, Prod.mk.injEq] at hget
  obtain ⟨⟨j, e'⟩, hp, rfl, houtline⟩ := hget
  exact ⟨e', hp, houtline⟩

/-- What is no stream is none of the mirror. -/
theorem getElem?_streams_eq_none (h : Mirrors i s p) (hk : s.streams[k]? = none) :
    p.streams[Streams.placeOn s.streams i k]? = none := by
  rw [Streams.placeOn_of_length_le (List.getElem?_eq_none_iff.mp hk), ← h.length_streams]
  exact List.getElem?_eq_none le_rfl

/-- What changes neither the thread nor its streams leaves the mirror as it is. -/
theorem of_eq {s' : Session} (h : Mirrors i s p) (hakin : s.client.Akin s'.client)
    (hthreads : s'.threads[i]? = s.threads[i]?)
    (hstreams : Streams.outlinesOn s'.streams i = Streams.outlinesOn s.streams i) :
    Mirrors i s' p :=
  ⟨hakin.symm.trans h.akin, by rw [hthreads, h.threads_eq], by rw [hstreams, h.streams_eq]⟩

/-! ### Steps on other threads

Such a step moves the one session and not its mirror, so all that has to be shown is that it leaves
the thread and its streams alone. -/

theorem getElem?_concat_of_ne {α : Type} {xs : List α} {x : α} {n : Nat} (h : xs.length ≠ n) :
    (xs ++ [x])[n]? = xs[n]? := by
  rcases Nat.lt_or_gt_of_ne h with hlt | hgt
  · rw [List.getElem?_eq_none (by rwa [List.length_append]), List.getElem?_eq_none hlt.le]
  · exact List.getElem?_append_left hgt

/-- A step on a stream of another thread changes neither the thread nor its streams. -/
theorem putStream_of_ne {j : Nat} (hk : s.streams[k]? = some (j, e)) (hne : j ≠ i) (scene : Scene)
    (e' : EventStream) :
    ((s.after j scene).putStream k j e').threads[i]? = s.threads[i]? ∧
      Streams.outlinesOn ((s.after j scene).putStream k j e').streams i
        = Streams.outlinesOn s.streams i :=
  ⟨List.getElem?_set_ne hne, Streams.outlinesOn_set_of_ne hk hne e'⟩

/-- **A step on another thread** changes neither the thread nor its streams. -/
theorem step_of_ne {j : Nat} {x : Step} (ho : s.owner? x = some j) (hne : j ≠ i) :
    (s.step x).2.threads[i]? = s.threads[i]? ∧
      Streams.outlinesOn (s.step x).2.streams i = Streams.outlinesOn s.streams i := by
  -- A step of another thread writes at the place of that thread, or puts a stream of it behind the
  -- others.
  cases x with
  | startThread options | resumeThread id options =>
    obtain rfl := Option.some.inj ho
    exact ⟨getElem?_concat_of_ne hne, rfl⟩
  | clientOptions => exact ⟨rfl, rfl⟩
  | threadId j' =>
    rcases s.onThread_cases j' with ⟨t, -, hact⟩ |
      ⟨-, hact⟩ <;> rw [step, hact] <;> exact ⟨rfl, rfl⟩
  | openStream j' input options =>
    obtain rfl := Option.some.inj ho
    rcases s.onThread_cases j' with ⟨t, -, hact⟩ | ⟨-, hact⟩
    · rw [step, hact]
      refine ⟨rfl, ?_⟩
      rw [addStream, Streams.outlinesOn_append, Streams.outlinesOn_cons, if_neg hne]
      exact List.append_nil _
    · rw [step, hact]
      exact ⟨rfl, rfl⟩
  | run j' input options =>
    obtain rfl := Option.some.inj ho
    rcases s.onThread_cases j' with ⟨t, ht, -⟩ | ⟨-, hact⟩
    · rw [step_run ht]
      exact ⟨List.getElem?_set_ne hne, rfl⟩
    · rw [step, hact]
      exact ⟨rfl, rfl⟩
  -- These put a stream back at its place, and the stream is of another thread.
  | next k | drain k | closeStream k =>
    obtain ⟨⟨j', e⟩, hk, rfl⟩ := Option.map_eq_some_iff.mp ho
    rcases s.onStream_cases k with ⟨_, _, t, hk', ht⟩ | ⟨hact, -⟩
    · obtain ⟨rfl, rfl⟩ := Prod.mk.inj (Option.some.inj (hk.symm.trans hk'))
      rw [step, onStream_eq hk ht]
      exact putStream_of_ne hk hne _ _
    · rw [step, hact]
      exact ⟨rfl, rfl⟩

/-- **Steps on other threads leave the mirror as it is.** -/
theorem step_of_other {j : Nat} {x : Step} (h : Mirrors i s p) (ho : s.owner? x = some j)
    (hne : j ≠ i) : Mirrors i (s.step x).2 p := by
  obtain ⟨hthreads, hstreams⟩ := step_of_ne ho hne
  exact h.of_eq (s.becomes_step x).toAkin hthreads hstreams

/-! ### Steps on the thread

Such a step is taken in both sessions. It gives the same in both if the scenes are alike, and for a
step that begins a turn that takes the hypothesis that the turn is served the same. -/

/-- A step and its mirror: they give the same, and what is behind them mirrors. -/
def StepsAlike (i : Nat) (x y : StepResult × Session) : Prop :=
  y.1 = x.1 ∧ Mirrors i x.2 y.2

/-- What is done with the thread is done with the only thread there. -/
theorem onThread (h : Mirrors i s p) {act act' : Thread → StepResult × Session}
    (hact : ∀ t, s.threads[i]? = some t → StepsAlike i (act t) (act' t)) :
    StepsAlike i (s.onThread i act) (p.onThread 0 act') := by
  rw [Session.onThread, Session.onThread, h.getElem?_threads]
  cases ht : s.threads[i]? with
  | none => exact ⟨rfl, h⟩
  | some t => exact hact t ht

/-- What is done with a stream of the thread is done with the stream in its place there. -/
theorem onStream (h : Mirrors i s p) (hk : s.streams[k]? = some (i, e))
    {act act' : Nat → Thread → EventStream → StepResult × Session}
    (hact : ∀ t e', s.threads[i]? = some t → e'.outline = e.outline →
      p.streams[Streams.placeOn s.streams i k]? = some (0, e') →
        StepsAlike i (act i t e) (act' 0 t e')) :
    StepsAlike i (s.onStream k act) (p.onStream (Streams.placeOn s.streams i k) act') := by
  obtain ⟨e', hp, houtline⟩ := h.exists_stream hk
  rw [Session.onStream, Session.onStream, hk, hp]
  exact h.onThread fun t ht => hact t e' ht houtline hp

/-- A scene of the thread and its mirror leave a session and its mirror. -/
theorem after (h : Mirrors i s p) {t : Thread} (ht : s.threads[i]? = some t) {scene scene' : Scene}
    (hthread : scene'.thread = scene.thread) (hakin : s.client.Akin scene.client)
    (hakin' : p.client.Akin scene'.client) : Mirrors i (s.after i scene) (p.after 0 scene') := by
  have hlt := (List.getElem?_eq_some_iff.mp ht).1
  refine ⟨hakin.symm.trans (h.akin.trans hakin'), ?_, h.streams_eq⟩
  rw [Session.after, Session.after, h.threads_eq, ht, hthread]
  simp [hlt]

/-- A stream that is put back alike leaves the two sessions alike. -/
theorem putStream (h : Mirrors i s p) (hk : s.streams[k]? = some (i, e)) {d d' : EventStream}
    (houtline : d'.outline = d.outline) :
    Mirrors i (s.putStream k i d) (p.putStream (Streams.placeOn s.streams i k) 0 d') := by
  refine ⟨h.akin, h.threads_eq, ?_⟩
  rw [Session.putStream, Session.putStream, List.map_set, h.streams_eq, Streams.outlinesOn_set hk,
    List.map_set, houtline]

/-- The mirror has the thread's own steps for steps on its first thread. -/
theorem owner?_renumber (h : Mirrors i s p) {x : Step} (ho : s.owner? x = some i) :
    p.owner? (s.renumber i x) = some 0 := by
  -- A new thread is the first of its session; of the others only streams are named by another
  -- number.
  cases x with
  | startThread options | resumeThread id options =>
    have hnone : s.threads[i]? = none := by
      rw [← Option.some.inj ho]
      exact List.getElem?_eq_none le_rfl
    rw [renumber, owner?, h.threads_eq, hnone]
    rfl
  | clientOptions => exact absurd ho nofun
  | threadId _ | run _ _ _ | openStream _ _ _ => rfl
  | next k | drain k | closeStream k =>
    obtain ⟨⟨j, e⟩, hk, rfl⟩ := Option.map_eq_some_iff.mp ho
    obtain ⟨e', hp, -⟩ := h.exists_stream hk
    rw [renumber, owner?, hp]
    rfl

/-- They begin the same turns. -/
theorem begins?_renumber (h : Mirrors i s p) {x : Step} (ho : s.owner? x = some i) :
    p.begins? (s.renumber i x) = s.begins? x := by
  cases x with
  | run j input options =>
    obtain rfl := Option.some.inj ho
    rw [renumber, begins?, begins?, h.getElem?_threads]
  | next k | drain k =>
    obtain ⟨⟨j, e⟩, hk, rfl⟩ := Option.map_eq_some_iff.mp ho
    obtain ⟨e', hp, houtline⟩ := h.exists_stream hk
    rw [renumber, begins?, begins?, hk, hp]
    -- A stream that runs begins no turn, and one that has not been started has the same input.
    rcases EventStream.cases_of_outline_eq houtline with ⟨t, u, rfl, rfl, -⟩ | ⟨rfl, -⟩
    · rfl
    · cases e' with
      | unstarted input options => exact congrArg (Option.map _) h.getElem?_threads
      | _ => rfl
  | _ => rfl

/-- What is asked is the same wherever the schema file is. -/
theorem asked?_renumber (h : Mirrors i s p) {x : Step} (ho : s.owner? x = some i) :
    p.asked? (s.renumber i x) = s.asked? x := by
  rw [asked?, asked?, h.begins?_renumber ho]
  congr 1
  funext ⟨t, input, options⟩
  exact t.question_anywhere _ _ input options

/-- A turn is served in both sessions, or in none. -/
theorem isSome_served?_renumber (h : Mirrors i s p) {x : Step} (ho : s.owner? x = some i) :
    (p.served? (s.renumber i x)).isSome = (s.served? x).isSome := by
  rw [served?, served?, h.begins?_renumber ho]
  rcases s.begins? x with _ | ⟨t, input, options⟩
  · rfl
  · exact Scene.isSome_served?_eq rfl h.akin

/-- A turn that is served the same is served alike by the scene of the thread and its mirror. -/
theorem serveAlike (h : Mirrors i s p) {x : Step} (ho : s.owner? x = some i)
    (hserved : p.served? (s.renumber i x) = s.served? x) {t : Thread} {input : Input}
    {options : TurnOptions} (hb : s.begins? x = some (t, input, options)) :
    Scene.ServeAlike (s.scene t) (p.scene t) input options := by
  rw [served?, served?, h.begins?_renumber ho, hb] at hserved
  exact Scene.serveAlike_of_served?_eq rfl h.akin hserved

/-- Whole turns of the thread that are served alike. -/
theorem stepsAlike_run (h : Mirrors i s p) {input : Input} {options : TurnOptions}
    (hserve : ∀ t, s.threads[i]? = some t →
      Scene.ServeAlike (s.scene t) (p.scene t) input options) :
    StepsAlike i (s.step (.run i input options)) (p.step (.run 0 input options)) := by
  refine h.onThread fun t ht => ?_
  -- Served alike, the turn has the same result and leaves the thread alike; what it does to its
  -- client is not looked at.
  obtain ⟨hresult, hthread⟩ :=
    Scene.told_run_eq (s := s.scene t) (m := p.scene t) rfl (hserve t ht)
  have hakin := ((s.scene t).becomes_run input options).toAkin
  have hakin' := ((p.scene t).becomes_run input options).toAkin
  generalize (s.scene t).run input options = r at hresult hthread hakin
  generalize (p.scene t).run input options = r' at hresult hthread hakin'
  obtain ⟨result, scene⟩ := r
  obtain ⟨result', scene'⟩ := r'
  obtain rfl : result' = result := hresult
  cases result' <;> exact ⟨rfl, h.after ht hthread hakin hakin'⟩

section

variable (hk : s.streams[k]? = some (i, e))
  (hserve : ∀ t input options, s.threads[i]? = some t → e = .unstarted input options →
    Scene.ServeAlike (s.scene t) (p.scene t) input options)

include hk hserve

/-- One event of a stream of the thread, and of its mirror. -/
theorem stepsAlike_next (h : Mirrors i s p) :
    StepsAlike i (s.step (.next k)) (p.step (.next (Streams.placeOn s.streams i k))) := by
  refine h.onStream hk fun t e' ht houtline _ => ?_
  -- What is shown of a pull: the event, the thread behind it, and what is left of the stream.
  have hshown := Scene.shown_next_eq (s := s.scene t) (m := p.scene t) rfl houtline
    fun input options he => hserve t input options ht he
  obtain ⟨hpull, hthread, houtline'⟩ :
      ((p.scene t).next e').1 = ((s.scene t).next e).1 ∧
        ((p.scene t).next e').2.1.thread = ((s.scene t).next e).2.1.thread ∧
        ((p.scene t).next e').2.2.outline = ((s.scene t).next e).2.2.outline := by
    simpa only [Scene.shown, Prod.mk.injEq] using hshown
  exact ⟨congrArg pullResult hpull,
    (h.after ht hthread ((s.scene t).becomes_next e).toAkin
      ((p.scene t).becomes_next e').toAkin).putStream hk houtline'⟩

/-- The rest of a stream of the thread, and of its mirror. -/
theorem stepsAlike_drain (h : Mirrors i s p) :
    StepsAlike i (s.step (.drain k)) (p.step (.drain (Streams.placeOn s.streams i k))) := by
  refine h.onStream hk fun t e' ht houtline _ => ?_
  -- What is told of a whole stream: its failure, its events, and the thread behind it. The stream
  -- is at its end then.
  have htold := Scene.told_drain_eq collectEvents (s := s.scene t) (m := p.scene t) rfl houtline
    (fun input options he => hserve t input options ht he) []
  obtain ⟨hfailure, hevents, hthread⟩ :
      ((p.scene t).drain collectEvents [] e').1 = ((s.scene t).drain collectEvents [] e).1 ∧
        ((p.scene t).drain collectEvents [] e').2.1 = ((s.scene t).drain collectEvents [] e).2.1 ∧
        ((p.scene t).drain collectEvents [] e').2.2.thread
          = ((s.scene t).drain collectEvents [] e).2.2.thread := by
    simpa only [Scene.told, Prod.mk.injEq] using htold
  exact ⟨congrArg₂ StepResult.events hevents hfailure,
    (h.after ht hthread ((s.scene t).becomes_drain _ _ e).toAkin
      ((p.scene t).becomes_drain _ _ e').toAkin).putStream hk rfl⟩

end

/-- A stream that is closed is served nothing. -/
theorem stepsAlike_closeStream (h : Mirrors i s p) (hk : s.streams[k]? = some (i, e)) :
    StepsAlike i (s.step (.closeStream k))
      (p.step (.closeStream (Streams.placeOn s.streams i k))) := by
  refine h.onStream hk fun t e' ht houtline _ => ⟨rfl, ?_⟩
  have hthread := Scene.thread_close_eq (s := s.scene t) (m := p.scene t) rfl houtline
  exact (h.after ht hthread ((s.scene t).becomes_close e).toAkin
    ((p.scene t).becomes_close e').toAkin).putStream hk rfl

/-- **A step on the thread** and its mirror give the same, and the mirror stays one, if a turn that
they begin is served the same. -/
theorem step_of_own (h : Mirrors i s p) {x : Step} (ho : s.owner? x = some i)
    (hserved : p.served? (s.renumber i x) = s.served? x) :
    StepsAlike i (s.step x) (p.step (s.renumber i x)) := by
  have hserve : ∀ {t : Thread} {input : Input} {options : TurnOptions},
      s.begins? x = some (t, input, options) →
        Scene.ServeAlike (s.scene t) (p.scene t) input options := h.serveAlike ho hserved
  -- By the step: a new thread stands alone where there was none, and each of the others does the
  -- same in both sessions if it is served the same.
  cases x with
  | startThread options | resumeThread id options =>
    obtain rfl := Option.some.inj ho
    refine ⟨rfl, h.akin, ?_, h.streams_eq⟩
    have hnone : p.threads = [] := by
      rw [h.threads_eq, List.getElem?_eq_none le_rfl]
      rfl
    show p.threads ++ [_] = (s.threads ++ [_])[s.threads.length]?.toList
    rw [hnone, List.getElem?_concat_length]
    rfl
  | clientOptions => exact absurd ho nofun
  | threadId j =>
    obtain rfl := Option.some.inj ho
    exact h.onThread fun t _ => ⟨rfl, h⟩
  | openStream j input options =>
    obtain rfl := Option.some.inj ho
    refine h.onThread fun t _ => ⟨rfl, h.akin, h.threads_eq, ?_⟩
    simp only [addStream, List.map_append, h.streams_eq, Streams.outlinesOn_append,
      Streams.outlinesOn_cons]
    rfl
  | run j input options =>
    obtain rfl := Option.some.inj ho
    exact h.stepsAlike_run fun t ht => hserve (by rw [begins?, ht]; rfl)
  | next k =>
    obtain ⟨⟨j, e⟩, hk, rfl⟩ := Option.map_eq_some_iff.mp ho
    refine h.stepsAlike_next hk fun t input options ht he => hserve ?_
    rw [begins?, hk, he]
    dsimp only
    rw [ht]
    rfl
  | drain k =>
    obtain ⟨⟨j, e⟩, hk, rfl⟩ := Option.map_eq_some_iff.mp ho
    refine h.stepsAlike_drain hk fun t input options ht he => hserve ?_
    rw [begins?, hk, he]
    dsimp only
    rw [ht]
    rfl
  | closeStream k =>
    obtain ⟨⟨j, e⟩, hk, rfl⟩ := Option.map_eq_some_iff.mp ho
    exact h.stepsAlike_closeStream hk

/-- A step on nothing changes nothing, in the mirror either. -/
theorem step_of_none (h : Mirrors i s p) {x : Step} (ho : s.owner? x = none) :
    p.owner? (s.renumber i x) = none ∧ (s.step x).2 = s ∧ (p.step (s.renumber i x)).2 = p := by
  -- A step of nobody finds no thread or no stream, here and there, and does nothing.
  cases x with
  | clientOptions => exact ⟨rfl, rfl, rfl⟩
  | next k | drain k | closeStream k =>
    have hk : s.streams[k]? = none := Option.map_eq_none_iff.mp ho
    have hp := h.getElem?_streams_eq_none hk
    refine ⟨?_, ?_, ?_⟩
    · rw [renumber, owner?, hp]
      rfl
    · rw [step, Session.onStream, hk]
    · rw [renumber, step, Session.onStream, hp]
  | _ => cases ho

end Mirrors

variable {i : Nat} {s p : Session}

/-- Options that are there together and stand in front of equal lists are equal, and so is the rest.
-/
theorem eq_of_toList_append_eq {α : Type} {a b : Option α} (hsome : a.isSome = b.isSome)
    {as bs : List α} (h : a.toList ++ as = b.toList ++ bs) : a = b ∧ as = bs := by
  cases a with
  | none =>
    obtain rfl := Option.isSome_eq_false_iff.mp hsome.symm |> Option.isNone_iff_eq_none.mp
    exact ⟨rfl, h⟩
  | some x =>
    obtain ⟨y, rfl⟩ := Option.isSome_iff_exists.mp hsome.symm
    obtain ⟨rfl, htail⟩ := List.cons.inj h
    exact ⟨rfl, htail⟩

theorem filterMap_cons_eq {α β : Type} (f : α → Option β) (a : α) (as : List α) :
    (a :: as).filterMap f = (f a).toList ++ as.filterMap f := by
  cases h : f a <;> simp [h]

theorem steps_cons (s : Session) (x : Step) (xs : List Step) :
    (s.steps (x :: xs)).2 = ((s.step x).2.steps xs).2 :=
  rfl

theorem sights_cons_of_own {x : Step} (ho : s.owner? x = some i) (xs : List Step) :
    s.sights i (x :: xs) = s.sight i x :: (s.step x).2.sights i xs := by
  rw [sights, if_pos ho]
  rfl

theorem sights_cons_of_ne {x : Step} (ho : s.owner? x ≠ some i) (xs : List Step) :
    s.sights i (x :: xs) = (s.step x).2.sights i xs := by
  rw [sights, if_neg ho]
  rfl

theorem alone_cons_of_all {x : Step} (ho : (s.owner? x).all (· = i) = true) (xs : List Step) :
    s.alone i (x :: xs) = s.renumber i x :: (s.step x).2.alone i xs := by
  rw [alone, if_pos ho]
  rfl

theorem alone_cons_of_other {x : Step} {j : Nat} (ho : s.owner? x = some j) (hne : j ≠ i)
    (xs : List Step) : s.alone i (x :: xs) = (s.step x).2.alone i xs := by
  rw [alone, ho, if_neg (by simpa using hne)]
  rfl

/-- **A session and its mirror show the same of the thread**, if its turns are served the same. -/
theorem sights_of_mirrors (h : Mirrors i s p) (xs : List Step)
    (hserved : (p.sights 0 (s.alone i xs)).filterMap (·.served)
      = (s.sights i xs).filterMap (·.served)) :
    p.sights 0 (s.alone i xs) = s.sights i xs ∧
      Mirrors i (s.steps xs).2 (p.steps (s.alone i xs)).2 := by
  induction xs generalizing s p with
  | nil => exact ⟨rfl, h⟩
  | cons x xs ih =>
    rw [steps_cons]
    rcases ho : s.owner? x with _ | j
    · -- a step on nothing
      obtain ⟨ho', hstep, hstep'⟩ := h.step_of_none ho
      have hne : s.owner? x ≠ some i := ho ▸ nofun
      have hne' : p.owner? (s.renumber i x) ≠ some 0 := ho' ▸ nofun
      rw [alone_cons_of_all (by rw [ho]; rfl), sights_cons_of_ne hne, sights_cons_of_ne hne', hstep,
        hstep'] at hserved ⊢
      rw [steps_cons, hstep']
      exact ih h hserved
    · by_cases hj : j = i
      · -- a step on the thread: what it was served is the head of both lists
        subst hj
        rw [alone_cons_of_all (by rw [ho]; simp), sights_cons_of_own ho,
          sights_cons_of_own (h.owner?_renumber ho), filterMap_cons_eq, filterMap_cons_eq]
          at hserved
        obtain ⟨hhead, htail⟩ := eq_of_toList_append_eq (h.isSome_served?_renumber ho) hserved
        obtain ⟨hresult, hmirrors⟩ := h.step_of_own ho hhead
        obtain ⟨hsights, hlast⟩ := ih hmirrors htail
        rw [alone_cons_of_all (by rw [ho]; simp), sights_cons_of_own ho,
          sights_cons_of_own (h.owner?_renumber ho), hsights, steps_cons]
        refine ⟨congrArg (· :: _) ?_, hlast⟩
        rw [sight, sight, hresult, hmirrors.getElem?_threads, h.asked?_renumber ho, hhead]
      · -- a step on another thread
        have hne : s.owner? x ≠ some i := fun heq => hj (Option.some.inj (ho.symm.trans heq))
        rw [alone_cons_of_other ho hj, sights_cons_of_ne hne] at hserved ⊢
        exact ih (h.step_of_other ho hj) hserved

end Session

open Session in
/-- **Threads do not influence each other.**  Whatever steps are taken on the threads of one client,
and in whatever order, what is seen of a thread is what is seen of it when the steps on all other
threads are left out: the results of its steps, the thread with its id behind each of them, whether
it is busy, and what its turns ask of the agent.  All this takes is that its turns are served the
same lines and the same ending; behind all the steps the thread is the same, so it is at every
moment. -/
theorem sights_alone {c c' : Client} (h : c.Akin c') (i : Nat) (xs : List Step)
    (hserved : (sights ⟨c', [], []⟩ 0 (alone ⟨c, [], []⟩ i xs)).filterMap (·.served)
      = (sights ⟨c, [], []⟩ i xs).filterMap (·.served)) :
    sights ⟨c', [], []⟩ 0 (alone ⟨c, [], []⟩ i xs) = sights ⟨c, [], []⟩ i xs ∧
      (steps ⟨c', [], []⟩ (alone ⟨c, [], []⟩ i xs)).2.threads[0]?
        = (steps ⟨c, [], []⟩ xs).2.threads[i]? := by
  obtain ⟨hsights, hmirrors⟩ := sights_of_mirrors (.fresh h i) xs hserved
  exact ⟨hsights, hmirrors.getElem?_threads⟩

/-- A client of which the agent in memory has these answers left. -/
def clientOfReplies (replies : List Reply) : Client :=
  .inMemory { environment := [], files := [], schemaDirectory := "/tmp/schemas" } {} replies

/-- Two threads that take turns: the second one is asked for a second turn while its stream runs,
and the first one fails in between. -/
def takingTurns : List Step :=
  [.startThread {}, .resumeThread "t2" {}, .openStream 1 (.text "b") {}, .next 0,
   .run 0 (.text "a") {}, .run 1 (.text "c") {}, .closeStream 7, .drain 0, .threadId 1]

/-- The first of these answers goes to the second thread, the other one to the first. -/
def repliesInTurn : List Reply :=
  [⟨["\x7b\"type\":\"turn.started\"\x7d",
      "\x7b\"type\":\"thread.started\",\"thread_id\":\"t3\"\x7d"], none⟩,
    ⟨["nothing"], none⟩]

open Session in
/-- With only the first of the answers, and no other thread, the second thread shows the same. -/
theorem sights_takingTurns :
    sights ⟨clientOfReplies (repliesInTurn.take 1), [], []⟩ 0
        [.resumeThread "t2" {}, .openStream 0 (.text "b") {}, .next 0, .run 0 (.text "c") {},
          .closeStream 1, .drain 0, .threadId 0]
      = sights ⟨clientOfReplies repliesInTurn, [], []⟩ 1 takingTurns ∧
    (steps ⟨clientOfReplies repliesInTurn, [], []⟩ takingTurns).2.threads[1]?
      = some { id := some (.plain "t3") } := by
  have halone : alone ⟨clientOfReplies repliesInTurn, [], []⟩ 1 takingTurns
      = [.resumeThread "t2" {}, .openStream 0 (.text "b") {}, .next 0, .run 0 (.text "c") {},
          .closeStream 1, .drain 0, .threadId 0] := by
    decide +kernel
  have hakin : (clientOfReplies repliesInTurn).Akin (clientOfReplies (repliesInTurn.take 1)) :=
    ⟨rfl, .memory _ _⟩
  have hsights := sights_alone hakin 1 takingTurns (by decide +kernel)
  rw [halone] at hsights
  refine ⟨hsights.1, hsights.2.symm.trans ?_⟩
  decide +kernel

end AgentClient
