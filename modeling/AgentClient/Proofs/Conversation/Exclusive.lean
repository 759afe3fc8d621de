import AgentClient.Proofs.Conversation.Accounts

/-!
# Proofs/Conversation/Exclusive — one turn runs on a thread, and holds all that is open

In a session the streams of all threads are advanced, emptied and closed in any order.  A step
changes one stream and its thread, and balances; so the turns that run hold what the client has
open, and a thread is busy just when one of its streams has a turn running (`accounted_steps`). -/

namespace AgentClient

/-- A client that has run no turn yet. -/
structure Client.IsFresh (c : Client) : Prop where
  journal_eq : c.journal = []
  directories_eq : c.directories = 0

theorem Client.isFresh_inMemory (s : Surroundings) (o : ClientOptions) (replies : List Reply) :
    (Client.inMemory s o replies).IsFresh :=
  ⟨rfl, rfl⟩

/-- A client that has been made from options has called nothing and holds no directory. -/
theorem Client.isFresh_ofOptions {s : Surroundings} {o : ClientOptions} {scripts : List Script}
    {c : Client} (h : Client.ofOptions s o scripts = .ok c) : c.IsFresh := by
  revert h
  rw [ofOptions]
  cases Executor.ofOptions s o with
  | error f => rintro ⟨⟩
  | ok executor =>
    rintro ⟨⟩
    exact ⟨rfl, rfl⟩

/-! ## The turns that streams have running

A session keeps streams, the accounts are about turns. Replacing one stream changes the list of
turns at one place, which is what most of these lemmas say. -/

/-- Streams, each with the thread that it belongs to. -/
abbrev Streams := List (Nat × EventStream)

namespace Streams

/-- The turns that run. -/
def turns (xs : Streams) : List LiveTurn :=
  xs.flatMap (·.2.held)

/-- The turns that run on one thread. -/
def turnsOn (xs : Streams) (i : Nat) : List LiveTurn :=
  turns (xs.filter (·.1 = i))

/-- The places of the streams that have a turn running on a thread. -/
def livePlaces (xs : Streams) (i : Nat) : List Nat :=
  xs.findIdxs fun p => p.1 = i && !p.2.held.isEmpty

theorem turns_append (xs ys : Streams) : turns (xs ++ ys) = turns xs ++ turns ys :=
  List.flatMap_append

theorem turnsOn_append (xs ys : Streams) (i : Nat) :
    turnsOn (xs ++ ys) i = turnsOn xs i ++ turnsOn ys i := by
  rw [turnsOn, List.filter_append, turns_append]
  rfl

theorem turnsOn_cons (i : Nat) (e : EventStream) (xs : Streams) (j : Nat) :
    turnsOn ((i, e) :: xs) j = (if i = j then e.held else []) ++ turnsOn xs j := by
  by_cases h : i = j <;> simp [turnsOn, turns, h]

/-- A stream that is put in the place of another leaves those in front and behind alone. -/
theorem exists_split {xs : Streams} {k i : Nat} {e : EventStream} (hk : xs[k]? = some (i, e)) :
    ∃ ys zs, xs = ys ++ (i, e) :: zs ∧ ∀ e', xs.set k (i, e') = ys ++ (i, e') :: zs := by
  obtain ⟨hlt, hget⟩ := List.getElem?_eq_some_iff.mp hk
  refine ⟨xs.take k, xs.drop (k + 1), ?_,
    fun e' => List.set_eq_take_append_cons_drop.trans (if_pos hlt)⟩
  rw [← hget, List.getElem_cons_drop, List.take_append_drop]

/-- The turns of the other streams stay the same. -/
theorem exists_others {xs : Streams} {k i : Nat} {e : EventStream} (hk : xs[k]? = some (i, e)) :
    ∃ others, (turns xs).Perm (e.held ++ others) ∧
      ∀ e', (turns (xs.set k (i, e'))).Perm (e'.held ++ others) := by
  obtain ⟨ys, zs, hxs, hset⟩ := exists_split hk
  have hperm : ∀ e, (turns (ys ++ (i, e) :: zs)).Perm (e.held ++ (turns ys ++ turns zs)) := by
    intro e
    rw [turns_append]
    exact List.perm_append_comm_assoc _ _ _
  refine ⟨turns ys ++ turns zs, hxs ▸ hperm e, fun e' => ?_⟩
  rw [hset e']
  exact hperm e'

/-- So do those of the other threads. -/
theorem length_turnsOn_set {xs : Streams} {k i : Nat} {e : EventStream} (hk : xs[k]? = some (i, e))
    (e' : EventStream) (j : Nat) :
    (turnsOn (xs.set k (i, e')) j).length + (if i = j then e.held.length else 0)
      = (turnsOn xs j).length + (if i = j then e'.held.length else 0) := by
  obtain ⟨ys, zs, hxs, hset⟩ := exists_split hk
  have hlength : ∀ e, (turnsOn (ys ++ (i, e) :: zs) j).length
      = (turnsOn ys j).length + ((if i = j then e.held.length else 0) + (turnsOn zs j).length) := by
    intro e
    rw [turnsOn_append, turnsOn_cons, List.length_append, List.length_append,
      apply_ite List.length, List.length_nil]
  rw [hset e', hxs, hlength e, hlength e']
  omega

/-- The places of the live streams of a thread. -/
theorem mem_livePlaces {xs : Streams} {i k : Nat} :
    k ∈ livePlaces xs i ↔ ∃ turn, xs[k]? = some (i, .live turn) := by
  have hlive : ∀ p : Nat × EventStream,
      (p.1 = i && !p.2.held.isEmpty) = true ↔ ∃ turn, p = (i, .live turn) := by
    rintro ⟨j, _ | turn | _⟩ <;> simp [EventStream.held]
  simp only [livePlaces, List.mem_findIdxs_iff_exists_getElem_pos, hlive,
    List.getElem?_eq_some_iff]
  exact exists_comm

/-- A stream has one turn running at the most. -/
theorem length_livePlaces (xs : Streams) (i : Nat) :
    (livePlaces xs i).length = (turnsOn xs i).length := by
  rw [livePlaces, List.length_findIdxs]
  induction xs with
  | nil => rfl
  | cons p xs ih =>
    obtain ⟨j, e⟩ := p
    rw [List.countP_cons, turnsOn_cons, List.length_append, ih, Nat.add_comm]
    congr 1
    by_cases h : j = i <;> cases e <;> simp [h, EventStream.held]

/-- Turns are counted thread by thread. -/
theorem countP_turns (p : LiveTurn → Bool) {xs : Streams} {n : Nat} (h : ∀ x ∈ xs, x.1 < n) :
    (turns xs).countP p = ∑ i ∈ Finset.range n, (turnsOn xs i).countP p := by
  induction xs with
  | nil => exact (Finset.sum_const_zero).symm
  | cons x xs ih =>
    obtain ⟨j, e⟩ := x
    have hj : j ∈ Finset.range n := Finset.mem_range.mpr (h _ List.mem_cons_self)
    -- The first stream is counted for the thread that it is of, and for no other.
    have hsum :
        ∑ i ∈ Finset.range n, (if j = i then e.held else []).countP p = e.held.countP p := by
      rw [Finset.sum_eq_single_of_mem j hj, if_pos rfl]
      intro i _ hi
      rw [if_neg (Ne.symm hi)]
      rfl
    calc (turns ((j, e) :: xs)).countP p
        = e.held.countP p + (turns xs).countP p := List.countP_append
      _ = ∑ i ∈ Finset.range n, (if j = i then e.held else []).countP p
            + ∑ i ∈ Finset.range n, (turnsOn xs i).countP p := by
          rw [hsum, ih fun x hx => h x (List.mem_cons_of_mem _ hx)]
      _ = ∑ i ∈ Finset.range n, (turnsOn ((j, e) :: xs) i).countP p := by
          rw [← Finset.sum_add_distrib]
          refine Finset.sum_congr rfl fun i _ => ?_
          rw [turnsOn_cons, List.countP_append]

end Streams

/-! ## The invariant of a session

Besides the accounts the invariant has one clause for threads: the busy flag of a thread is the
number of turns that its streams have running. It is stated by counting, so that it says both that a
thread is busy if a stream of it runs and that no two of them do. -/

namespace Session

/-- **The accounts of a session are in order**: its streams hold what the client has open, every
stream belongs to a thread, and a thread is busy when one of its streams runs, and no other does. -/
structure Accounted (s : Session) : Prop where
  accounts : Accounts s.client (Streams.turns s.streams)
  owner_lt : ∀ x ∈ s.streams, x.1 < s.threads.length
  running : ∀ i t, s.threads[i]? = some t → t.running.toNat = (Streams.turnsOn s.streams i).length

namespace Accounted

variable {s : Session} {i k : Nat} {t : Thread} {e e' : EventStream} {scene : Scene}

/-- A session begins without streams. -/
theorem fresh {c : Client} (hc : c.IsFresh) : Accounted ⟨c, [], []⟩ := by
  obtain ⟨hj, hd⟩ := hc
  refine ⟨⟨?_, hd⟩, fun x hx => absurd hx List.not_mem_nil, fun i t ht => ?_⟩
  · rw [hj]
    rfl
  · rw [List.getElem?_nil] at ht
    exact absurd ht (Option.some_ne_none t).symm

/-- A new thread is idle, and no stream is one of its own. -/
theorem addThread (h : s.Accounted) (ht : t.running = false) : (s.addThread t).Accounted := by
  refine ⟨h.accounts, fun x hx => ?_, fun j u hu => ?_⟩
  · rw [Session.addThread, List.length_append]
    exact Nat.lt_add_right _ (h.owner_lt x hx)
  · rcases Nat.lt_or_ge j s.threads.length with hj | hj
    · rw [Session.addThread, List.getElem?_append_left hj] at hu
      exact h.running j u hu
    · rw [Session.addThread, List.getElem?_append_right hj, List.getElem?_singleton] at hu
      -- A thread that has just been made has no streams, for its number is beyond those of all
      -- owners.
      have hnone : s.streams.filter (·.1 = j) = [] := by
        rw [List.filter_eq_nil_iff]
        intro x hx hxj
        have := h.owner_lt x hx
        rw [of_decide_eq_true hxj] at this
        omega
      have hut : u.running = false := by
        split at hu
        · rw [← Option.some.inj hu, ht]
        · exact absurd hu (Option.some_ne_none u).symm
      rw [hut]
      show 0 = (Streams.turns (s.streams.filter (·.1 = j))).length
      rw [hnone]
      rfl

/-- A new stream has no turn running. -/
theorem addStream (h : s.Accounted) (hi : i < s.threads.length) (he : e.held = []) :
    (s.addStream i e).Accounted := by
  -- The stream has not been started, so it holds no turn.
  have hturns : Streams.turns [(i, e)] = [] := (List.append_nil _).trans he
  refine ⟨?_, fun x hx => ?_, fun j u hu => ?_⟩
  · show Accounts s.client (Streams.turns (s.streams ++ [(i, e)]))
    rw [Streams.turns_append, hturns, List.append_nil]
    exact h.accounts
  · rcases List.mem_append.mp hx with hx | hx
    · exact h.owner_lt x hx
    · rw [List.mem_singleton.mp hx]
      exact hi
  · show _ = (Streams.turnsOn (s.streams ++ [(i, e)]) j).length
    rw [Streams.turnsOn_append, List.length_append, h.running j u hu, Streams.turnsOn_cons, he,
      ite_self]
    rfl

/-- Behind a step on a thread all others are as they were. -/
theorem thread_after {j : Nat} {u : Thread} (hu : (s.after i scene).threads[j]? = some u) :
    (i = j ∧ u = scene.thread) ∨ (i ≠ j ∧ s.threads[j]? = some u) := by
  have hu : (s.threads.set i scene.thread)[j]? = some u := hu
  by_cases hj : i = j
  · subst hj
    obtain ⟨hlt, -⟩ := List.getElem?_eq_some_iff.mp hu
    rw [List.length_set] at hlt
    rw [List.getElem?_set_self hlt] at hu
    exact .inl ⟨rfl, (Option.some.inj hu).symm⟩
  · rw [List.getElem?_set_ne hj] at hu
    exact .inr ⟨hj, hu⟩

/-- A stream that has a turn running keeps its thread busy. -/
theorem running_eq_true (h : s.Accounted) (hk : s.streams[k]? = some (i, e))
    (ht : s.threads[i]? = some t) (he : e.held ≠ []) : t.running = true := by
  have hcount := h.running i t ht
  have hpos : 0 < (Streams.turnsOn s.streams i).length := by
    obtain ⟨turn, hturn⟩ : ∃ turn, e = .live turn := by
      cases e with
      | live turn => exact ⟨turn, rfl⟩
      | _ => exact absurd rfl he
    rw [← Streams.length_livePlaces]
    exact List.length_pos_of_mem (Streams.mem_livePlaces.mpr ⟨turn, hturn ▸ hk⟩)
  have hle := Bool.toNat_le t.running
  exact Bool.toNat_eq_one.mp (by omega)

/-- **A step on a stream that balances** keeps the accounts in order: the streams of other threads
hold what they have held, and this one holds its turn or none. -/
theorem putStream (h : s.Accounted) (hk : s.streams[k]? = some (i, e))
    (ht : s.threads[i]? = some t) (hb : Balanced (s.scene t) e.held scene e'.held) :
    ((s.after i scene).putStream k i e').Accounted := by
  obtain ⟨hilt, -⟩ := List.getElem?_eq_some_iff.mp ht
  -- The stream is taken out of the account and put back as it is now; what the other streams hold
  -- is balanced by what they were.
  obtain ⟨others, hbefore, hafter⟩ := Streams.exists_others hk
  refine ⟨?_, fun x hx => ?_, fun j u hu => ?_⟩
  · exact (hb.accounts others (h.accounts.perm hbefore)).perm (hafter e').symm
  · show x.1 < (s.threads.set i scene.thread).length
    rw [List.length_set]
    rcases List.mem_or_eq_of_mem_set hx with hx | rfl
    · exact h.owner_lt x hx
    · exact hilt
  · have hlength := Streams.length_turnsOn_set hk e' j
    show _ = (Streams.turnsOn (s.streams.set k (i, e')) j).length
    rcases thread_after hu with ⟨rfl, rfl⟩ | ⟨hj, hu⟩
    · have hcount := h.running i t ht
      have hrun : t.running.toNat + e'.held.length = scene.thread.running.toNat + e.held.length :=
        hb.running
      rw [if_pos rfl, if_pos rfl] at hlength
      omega
    · rw [if_neg hj, if_neg hj] at hlength
      exact (h.running j u hu).trans hlength.symm

/-- A step on a thread alone that balances keeps the accounts in order. -/
theorem after (h : s.Accounted) (ht : s.threads[i]? = some t)
    (hb : Balanced (s.scene t) [] scene []) : (s.after i scene).Accounted := by
  obtain ⟨hilt, -⟩ := List.getElem?_eq_some_iff.mp ht
  refine ⟨hb.accounts _ h.accounts, fun x hx => ?_, fun j u hu => ?_⟩
  · show x.1 < (s.threads.set i scene.thread).length
    rw [List.length_set]
    exact h.owner_lt x hx
  · rcases thread_after hu with ⟨rfl, rfl⟩ | ⟨-, hu⟩
    · have hrun : t.running.toNat = scene.thread.running.toNat := hb.running
      rw [← hrun]
      exact h.running i t ht
    · exact h.running j u hu

/-- What is done with a thread is done with one that is there, or it is nothing. -/
theorem onThread (h : s.Accounted) {act : Thread → StepResult × Session}
    (hact : ∀ t, s.threads[i]? = some t → (act t).2.Accounted) :
    (s.onThread i act).2.Accounted := by
  rw [Session.onThread]
  split
  next t ht => exact hact t ht
  next => exact h

/-- Steps on a stream keep the account if what they do to its thread does. -/
theorem onStream (h : s.Accounted) {act : Nat → Thread → EventStream → StepResult × Session}
    (hact : ∀ i t e, s.streams[k]? = some (i, e) → s.threads[i]? = some t →
      (act i t e).2.Accounted) : (s.onStream k act).2.Accounted := by
  rw [Session.onStream]
  split
  next i e hk => exact h.onThread fun t ht => hact i t e hk ht
  next => exact h

end Accounted

/-- A run leaves the scene behind it in the session, whether it returns or fails. -/
theorem step_run {s : Session} {i : Nat} {t : Thread} (ht : s.threads[i]? = some t) (input : Input)
    (options : TurnOptions) :
    (s.step (.run i input options)).2 = s.after i ((s.scene t).run input options).2 := by
  dsimp only [step, onThread]
  rw [ht]
  dsimp only
  rcases (s.scene t).run input options with ⟨f | turn, scene⟩ <;> rfl

/-- **Every step** keeps the accounts of a session in order. -/
theorem accounted_step {s : Session} (h : s.Accounted) (x : Step) : (s.step x).2.Accounted := by
  -- A turn that begins takes the thread and puts its call and its directory into the account; one
  -- that ends gives all of them back.
  cases x with
  | startThread options => exact h.addThread rfl
  | resumeThread id options => exact h.addThread rfl
  | clientOptions => exact h
  | threadId i => exact h.onThread fun _ _ => h
  | run i input options =>
    cases ht : s.threads[i]? with
    | none =>
      dsimp only [step, onThread]
      rw [ht]
      exact h
    | some t =>
      rw [step_run ht]
      exact h.after ht ((s.scene t).balanced_run input options)
  | openStream i input options =>
    refine h.onThread fun t ht => ?_
    exact h.addStream (List.getElem?_eq_some_iff.mp ht).1 rfl
  | next k =>
    refine h.onStream fun i t e hk ht => ?_
    exact h.putStream hk ht ((s.scene t).balanced_next (h.running_eq_true hk ht))
  | drain k =>
    refine h.onStream fun i t e hk ht => ?_
    have hb : Balanced (s.scene t) e.held ((s.scene t).drain collectEvents [] e).2.2
        EventStream.ended.held := (s.scene t).balanced_drain _ [] (h.running_eq_true hk ht)
    exact h.putStream hk ht hb
  | closeStream k =>
    refine h.onStream fun i t e hk ht => ?_
    have hb : Balanced (s.scene t) e.held ((s.scene t).close e) EventStream.ended.held :=
      (s.scene t).balanced_close (h.running_eq_true hk ht)
    exact h.putStream hk ht hb

/-- **So do any steps**, in any order. -/
theorem accounted_steps {s : Session} (h : s.Accounted) (xs : List Step) :
    (s.steps xs).2.Accounted := by
  induction xs generalizing s with
  | nil => exact h
  | cons x xs ih => exact ih (accounted_step h x)

/-! ## What the accounts say

The counts are translated into what one would like to know: that there is one such stream and only
one, and how many calls are open and how many directories exist. -/

/-- The threads that are busy. -/
def runningThreads (s : Session) : Finset Nat :=
  (Finset.range s.threads.length).filter fun i => (s.threads[i]?).any (·.running)

/-- The busy threads whose turn has a schema. -/
def schemaThreads (s : Session) : Finset Nat :=
  s.runningThreads.filter fun i => (Streams.turnsOn s.streams i).any (·.hasSchema)

namespace Accounted

variable {s : Session} {i : Nat} {t : Thread}

/-- A busy thread has one stream that runs, an idle one none. -/
theorem length_livePlaces (h : s.Accounted) (ht : s.threads[i]? = some t) :
    (Streams.livePlaces s.streams i).length = t.running.toNat := by
  rw [Streams.length_livePlaces, h.running i t ht]

/-- Two streams that have a turn running on one thread are the same. -/
theorem eq_of_live (h : s.Accounted) {k k' : Nat} {turn turn' : LiveTurn}
    (hk : s.streams[k]? = some (i, .live turn)) (hk' : s.streams[k']? = some (i, .live turn')) :
    k = k' := by
  obtain ⟨t, ht⟩ : ∃ t, s.threads[i]? = some t :=
    ⟨_, List.getElem?_eq_getElem (h.owner_lt _ (List.mem_of_getElem? hk))⟩
  have hmem := Streams.mem_livePlaces.mpr ⟨turn, hk⟩
  have hmem' := Streams.mem_livePlaces.mpr ⟨turn', hk'⟩
  -- A thread is busy once at most, and its live streams are as many as it is busy.
  have hle : (Streams.livePlaces s.streams i).length ≤ 1 := by
    rw [h.length_livePlaces ht]
    exact Bool.toNat_le _
  obtain ⟨a, ha⟩ := List.length_eq_one_iff.mp (Nat.le_antisymm hle (List.length_pos_of_mem hmem))
  rw [ha, List.mem_singleton] at hmem hmem'
  rw [hmem, hmem']

/-- **A thread is busy** just when one stream of it runs, and only one. -/
theorem running_iff (h : s.Accounted) (ht : s.threads[i]? = some t) :
    t.running = true ↔ ∃! k : Nat, ∃ turn, s.streams[k]? = some (i, EventStream.live turn) := by
  constructor
  · intro hr
    have hlen := h.length_livePlaces ht
    rw [hr] at hlen
    obtain ⟨k, hk⟩ := List.length_eq_one_iff.mp hlen
    obtain ⟨turn, hturn⟩ := Streams.mem_livePlaces.mp (hk ▸ List.mem_singleton_self k)
    exact ⟨k, ⟨turn, hturn⟩, fun k' ⟨_, hk'⟩ => h.eq_of_live hk' hturn⟩
  · rintro ⟨k, ⟨turn, hturn⟩, -⟩
    exact h.running_eq_true hturn ht nofun

/-- As many turns run as threads are busy. -/
theorem length_turns (h : s.Accounted) :
    (Streams.turns s.streams).length = s.runningThreads.card := by
  rw [← List.countP_true, Streams.countP_turns _ h.owner_lt, runningThreads, Finset.card_filter]
  refine Finset.sum_congr rfl fun i hi => ?_
  obtain ⟨t, ht⟩ : ∃ t, s.threads[i]? = some t :=
    ⟨_, List.getElem?_eq_getElem (Finset.mem_range.mp hi)⟩
  rw [List.countP_true, ← h.running i t ht, ht, Option.any_some]
  cases t.running <;> rfl

/-- As many turns with a schema run as threads are busy with one. -/
theorem countP_turns (h : s.Accounted) :
    (Streams.turns s.streams).countP (·.hasSchema) = s.schemaThreads.card := by
  rw [Streams.countP_turns _ h.owner_lt, schemaThreads, runningThreads, Finset.filter_filter,
    Finset.card_filter]
  refine Finset.sum_congr rfl fun i hi => ?_
  obtain ⟨t, ht⟩ : ∃ t, s.threads[i]? = some t :=
    ⟨_, List.getElem?_eq_getElem (Finset.mem_range.mp hi)⟩
  have hlen := h.running i t ht
  rw [ht, Option.any_some]
  generalize Streams.turnsOn s.streams i = turns at hlen ⊢
  rcases turns with _ | ⟨turn, _ | ⟨turn', more⟩⟩
  · simp
  · simp [Bool.toNat_eq_one.mp hlen]
  · have hle := Bool.toNat_le t.running
    simp only [List.length_cons] at hlen
    omega

end Accounted

/-- Running a turn on a thread leaves every thread as busy as it was. -/
theorem map_running_step_run (s : Session) (i : Nat) (input : Input) (options : TurnOptions) :
    (s.step (.run i input options)).2.threads.map (·.running) = s.threads.map (·.running) := by
  -- A whole turn is over when it returns, so its thread is as busy as it was.
  cases ht : s.threads[i]? with
  | none =>
    dsimp only [step, onThread]
    rw [ht]
  | some t =>
    obtain ⟨hi, rfl⟩ := List.getElem?_eq_some_iff.mp ht
    have hsame : (s.threads.map Thread.running).set i s.threads[i].running
        = s.threads.map Thread.running := by
      rw [← List.map_set, List.set_getElem_self]
    rw [step_run ht, after, List.map_set, Scene.running_run]
    exact hsame

/-- A stream that runs has a schema if it was opened with one. -/
theorem hasSchema_step_next {s : Session} {k i : Nat} {e : EventStream} {turn : LiveTurn}
    (hk : s.streams[k]? = some (i, e))
    (hlive : (s.step (.next k)).2.streams[k]? = some (i, .live turn)) :
    turn.hasSchema = e.wantsSchema := by
  obtain ⟨hklt, -⟩ := List.getElem?_eq_some_iff.mp hk
  -- A stream of no thread is not asked; any other is left as the scene leaves it.
  cases ht : s.threads[i]? with
  | none =>
    have hstep : (s.step (.next k)).2 = s := by
      dsimp only [step, onStream, onThread]
      simp only [hk, ht]
    rw [hstep, hk] at hlive
    obtain rfl : e = .live turn := congrArg Prod.snd (Option.some.inj hlive)
    rfl
  | some t =>
    have hstep : (s.step (.next k)).2.streams = s.streams.set k (i, ((s.scene t).next e).2.2) := by
      dsimp only [step, onStream, onThread]
      simp only [hk, ht]
      rfl
    rw [hstep, List.getElem?_set_self hklt] at hlive
    exact Scene.hasSchema_next (congrArg Prod.snd (Option.some.inj hlive))

/-- **Turns exclude each other, and nothing is left open.**  After any steps of a session on a fresh
client, a thread is busy just when one of its streams, and only one, has a turn running; the calls
that are not over are as many as the busy threads, and the schema directories that exist as many as
those of them whose turn has a schema.  Running a turn to its end leaves every thread as busy as it
was. -/
theorem busy_iff_existsUnique_live {c : Client} (hc : c.IsFresh) (xs : List Step) :
    let s := (Session.steps ⟨c, [], []⟩ xs).2
    (∀ i t, s.threads[i]? = some t →
        (t.running = true ↔ ∃! k : Nat, ∃ turn, s.streams[k]? = some (i, EventStream.live turn))) ∧
      (∀ (i k k' : Nat) (turn turn' : LiveTurn), s.streams[k]? = some (i, .live turn) →
        s.streams[k']? = some (i, .live turn') → k = k') ∧
      s.client.journal.length = s.client.journal.countP Call.isOver + s.runningThreads.card ∧
      s.client.directories = s.schemaThreads.card ∧
      (∀ (i k : Nat) (e : EventStream) (turn : LiveTurn), s.streams[k]? = some (i, e) →
        (s.step (.next k)).2.streams[k]? = some (i, .live turn) → turn.hasSchema = e.wantsSchema) ∧
      ∀ i input options, (s.step (.run i input options)).2.threads.map (·.running)
        = s.threads.map (·.running) := by
  intro s
  -- All of it is read off the account, which every step keeps.
  have h : s.Accounted := accounted_steps (.fresh hc) xs
  refine ⟨fun i t ht => h.running_iff ht,
    fun i k k' turn turn' hk hk' => h.eq_of_live hk hk', ?_, ?_,
    fun i k e turn hk hlive => hasSchema_step_next hk hlive,
    fun i input options => map_running_step_run s i input options⟩
  · rw [Journal.length_eq_countP_add_openPlaces, ← h.accounts.calls.length_eq, List.length_map,
      h.length_turns]
  · rw [h.accounts.directories, h.countP_turns]

/-- A client that is answered from memory, with one event for its first turn. -/
def answeredOnce : Client :=
  .inMemory { environment := [], files := [], schemaDirectory := "/tmp/schemas" } {}
    [⟨["\x7b\"type\":\"turn.started\"\x7d"], none⟩]

/-- Two streams on one thread, the second of which is refused while the first runs with a schema,
and a run on another thread in between. -/
def twoThreads : List Step :=
  [.startThread {}, .startThread {}, .openStream 0 (.text "first") { outputSchema := .table [] },
    .openStream 0 (.text "second") {}, .next 0, .next 1, .run 1 (.text "third") {}]

/-- The first thread is busy, its turn has the only directory, and only its call is open. -/
theorem twoThreads_busy :
    answeredOnce.IsFresh ∧
      let s := (Session.steps ⟨answeredOnce, [], []⟩ twoThreads).2
      s.threads.map (·.running) = [true, false] ∧
        (∃! k : Nat, ∃ turn, s.streams[k]? = some (0, EventStream.live turn)) ∧
        s.client.journal.length = 2 ∧ s.client.journal.countP Call.isOver = 1 ∧
        s.runningThreads.card = 1 ∧ s.client.directories = 1 ∧ s.schemaThreads.card = 1 := by
  have hc : answeredOnce.IsFresh := Client.isFresh_inMemory _ _ _
  obtain ⟨hbusy, -, hcalls, hdirectories, -⟩ := busy_iff_existsUnique_live hc twoThreads
  have hrun : (Session.steps ⟨answeredOnce, [], []⟩ twoThreads).2.threads
      = [{ running := true }, {}] := by decide +kernel
  have hlength : (Session.steps ⟨answeredOnce, [], []⟩ twoThreads).2.client.journal.length = 2 := by
    decide +kernel
  have hover : (Session.steps ⟨answeredOnce, [], []⟩ twoThreads).2.client.journal.countP
      Call.isOver = 1 := by decide +kernel
  have hmade : (Session.steps ⟨answeredOnce, [], []⟩ twoThreads).2.client.directories = 1 := by
    decide +kernel
  refine ⟨hc, by rw [hrun]; rfl, (hbusy 0 _ (by rw [hrun]; rfl)).mp rfl, hlength, hover, ?_,
    hmade, ?_⟩
  · omega
  · omega

end Session

end AgentClient
