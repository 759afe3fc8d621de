import AgentClient.Proofs.Conversation.Started

/-!
# Proofs/Executor/Isolation — the environment of a process is the one that was given

The environment of a process is made of some variables, given or the host's, and of three that
belong to the client (`Executor.Equips`).  It is made by putting entries into a table, which leaves
every other name alone, and by sorting it, which leaves every name alone
(`Table.IsNamed.get?_sortedByName`); the host has no part in it where variables are given
(`Executor.environment_isolated`). -/

namespace AgentClient

/-! ## Tables of names

The table of an environment has each name once. For such a table the order of the entries makes no
difference to what stands under a name, so the order in which a process is given them can be left
aside. -/

namespace Table

variable {t t' : Table} {name : String} {v : Value}

/-- **A table of names**, each of them once. -/
structure IsNamed (t : Table) : Prop where
  named : ∀ e ∈ t, ∃ name, e.1 = .str name
  nodup : t.keys.Nodup

/-- Under a key that a table has once there is the value beside it. -/
theorem get?_eq_some_iff (hnodup : t.keys.Nodup) :
    t.get? name = some v ↔ (.str name, v) ∈ t := by
  refine ⟨mem_of_get?_eq_some, fun hmem => ?_⟩
  induction t with
  | nil => exact absurd hmem List.not_mem_nil
  | cons e t ih =>
    obtain ⟨hnot, hrest⟩ := List.nodup_cons.mp hnodup
    obtain ⟨k, w⟩ := e
    rcases List.mem_cons.mp hmem with heq | hbehind
    · obtain ⟨rfl, rfl⟩ := Prod.mk.inj heq
      rw [get?, if_pos rfl]
    · have hne : k ≠ .str name := by
        rintro rfl
        exact hnot (List.mem_map.mpr ⟨_, hbehind, rfl⟩)
      rw [get?, if_neg hne, ih hrest hbehind]

namespace IsNamed

theorem put (h : t.IsNamed) (name : String) (v : Value) : (t.put (.str name) v).IsNamed where
  named e he :=
    (forall_put (P := fun k => ∃ name, k = .str name) (Q := fun _ => True)
      (fun e he => ⟨h.named e he, trivial⟩) ⟨name, rfl⟩ trivial e he).1
  nodup := nodup_keys_put h.nodup (.plain name) v

theorem perm (h : t.IsNamed) (hperm : t.Perm t') : t'.IsNamed where
  named e he := h.named e (hperm.mem_iff.mpr he)
  nodup := (hperm.map _).nodup_iff.mp h.nodup

/-- The order of the entries does not matter. -/
theorem get?_eq_of_perm (h : t.IsNamed) (hperm : t.Perm t') (name : String) :
    t'.get? name = t.get? name := by
  refine Option.ext fun v => ?_
  rw [get?_eq_some_iff h.nodup, get?_eq_some_iff (h.perm hperm).nodup, hperm.mem_iff]

theorem sortedByName (h : t.IsNamed) : (Executor.sortedByName t).IsNamed :=
  h.perm (List.mergeSort_perm t _).symm

theorem get?_sortedByName (h : t.IsNamed) (name : String) :
    (Executor.sortedByName t).get? name = t.get? name :=
  h.get?_eq_of_perm (List.mergeSort_perm t _).symm name

end IsNamed

end Table

namespace Executor

/-! ## The mapping of a client

The environment is the mapping with up to three entries put into it. Putting an entry decides on its
own name and leaves the others, so each name is followed through the puts by itself; the three names
differ, which is decided by evaluation. -/

/-- A mapping of names to texts as a table. -/
def mappingTable (mapping : List (String × String)) : Table :=
  mapping.map fun (k, v) => (.str k, .str v)

theorem get?_mappingTable (mapping : List (String × String)) (name : String) :
    (mappingTable mapping).get? name = (mapping.lookup name).map .str := by
  induction mapping with
  | nil => rfl
  | cons e mapping ih =>
    obtain ⟨k, v⟩ := e
    by_cases h : name = k
    · subst h
      rw [List.lookup_cons_self, mappingTable, List.map_cons, Table.get?, if_pos rfl]
      rfl
    · have hne : Value.str k ≠ .str name := fun heq => h (Value.str.inj heq).symm
      rw [List.lookup_cons, beq_eq_false_iff_ne.mpr h, mappingTable, List.map_cons, Table.get?,
        if_neg hne]
      exact ih

theorem isNamed_mappingTable {mapping : List (String × String)}
    (h : (mapping.map Prod.fst).Nodup) : (mappingTable mapping).IsNamed where
  named e he := by
    obtain ⟨x, -, rfl⟩ := List.mem_map.mp he
    exact ⟨x.1, rfl⟩
  nodup := by
    have hkeys : (mappingTable mapping).keys = (mapping.map Prod.fst).map .str := by
      rw [Table.keys, mappingTable, List.map_map, List.map_map]
      rfl
    rw [hkeys]
    exact h.map fun _ _ => Value.str.inj

variable {t : Table} {name other : String} {v : Value}

theorem isNamed_putGiven (h : t.IsNamed) (name : String) (v : Value) :
    (putGiven name v t).IsNamed := by
  rw [putGiven]
  split
  · exact h.put name v
  · exact h

theorem isNamed_putOriginator (h : t.IsNamed) : (putOriginator t).IsNamed := by
  rw [putOriginator]
  split
  · exact h
  · exact h.put originatorVariable _

/-- A variable that is given is there, and one that is not is as it was. -/
theorem get?_putGiven_self :
    (putGiven name v t).get? name = if v.isTruthy then some v else t.get? name := by
  rw [putGiven]
  split
  · exact t.get?_put_self name v
  · rfl

theorem get?_putGiven_of_ne (h : other ≠ name) : (putGiven name v t).get? other = t.get? other := by
  rw [putGiven]
  split
  · exact t.get?_put_of_ne v h
  · rfl

theorem get?_putOriginator_of_ne (h : name ≠ originatorVariable) :
    (putOriginator t).get? name = t.get? name := by
  rw [putOriginator]
  split
  · rfl
  · exact t.get?_put_of_ne _ h

/-- **The environment that a client makes of a mapping.** -/
def environmentFor (o : ClientOptions) (mapping : List (String × String)) : Table :=
  sortedByName (putGiven apiKeyVariable o.apiKey
    (putGiven baseUrlVariable o.baseUrl (putOriginator (mappingTable mapping))))

/-- **An environment that is a mapping but for the three variables of the client**: no other name is
added, lost or changed; the originator is the one that is there, if it is not empty, and never
empty; the address and the key are those of the options, if they are not empty, and else as they
were. -/
structure Equips (o : ClientOptions) (mapping : List (String × String)) (t : Table) : Prop
    extends t.IsNamed where
  get?_of_ne (name : String) (horiginator : name ≠ originatorVariable)
    (hbaseUrl : name ≠ baseUrlVariable)
    (hapiKey : name ≠ apiKeyVariable) : t.get? name = (mapping.lookup name).map .str
  originator : ∃ text, t.get? originatorVariable = some (.str text) ∧ text ≠ "" ∧
    ∀ given, mapping.lookup originatorVariable = some given → given ≠ "" → text = given
  baseUrl : t.get? baseUrlVariable
    = if o.baseUrl.isTruthy then some o.baseUrl else (mapping.lookup baseUrlVariable).map .str
  apiKey : t.get? apiKeyVariable
    = if o.apiKey.isTruthy then some o.apiKey else (mapping.lookup apiKeyVariable).map .str

theorem isTruthy_str {s : String} : (Value.str s).isTruthy = true ↔ s ≠ "" :=
  decide_eq_true_iff

/-- The originator of a mapping. -/
theorem exists_originator (mapping : List (String × String)) :
    ∃ text, (putOriginator (mappingTable mapping)).get? originatorVariable = some (.str text) ∧
      text ≠ "" ∧
        ∀ given, mapping.lookup originatorVariable = some given → given ≠ "" → text = given := by
  have hget := get?_mappingTable mapping originatorVariable
  rw [putOriginator, Table.getD, hget]
  cases hlookup : mapping.lookup originatorVariable with
  | none => exact ⟨originator, Table.get?_put_self _ _ _, by decide, by simp⟩
  | some given =>
    -- An empty originator counts as none, so the usual one is put in its place.
    by_cases hempty : given = ""
    · subst hempty
      exact ⟨originator, Table.get?_put_self _ _ _, by decide,
        fun given hgiven hne => absurd (Option.some.inj hgiven).symm hne⟩
    · refine ⟨given, ?_, hempty, fun given' hgiven' _ => Option.some.inj hgiven'⟩
      rw [Option.map_some, Option.getD_some, if_pos (isTruthy_str.mpr hempty)]
      exact hget.trans (congrArg _ hlookup)

theorem equips_environmentFor (o : ClientOptions) {mapping : List (String × String)}
    (h : (mapping.map Prod.fst).Nodup) : Equips o mapping (environmentFor o mapping) := by
  have hnamed := isNamed_putGiven (isNamed_putGiven (isNamed_putOriginator (isNamed_mappingTable h))
    baseUrlVariable o.baseUrl) apiKeyVariable o.apiKey
  have hget := hnamed.get?_sortedByName
  refine ⟨hnamed.sortedByName, fun name horiginator hbaseUrl hapiKey => ?_, ?_, ?_, ?_⟩
  · rw [environmentFor, hget, get?_putGiven_of_ne hapiKey, get?_putGiven_of_ne hbaseUrl,
      get?_putOriginator_of_ne horiginator, get?_mappingTable]
  · rw [environmentFor, hget, get?_putGiven_of_ne (by decide), get?_putGiven_of_ne (by decide)]
    exact exists_originator mapping
  · rw [environmentFor, hget, get?_putGiven_of_ne (by decide), get?_putGiven_self,
      get?_putOriginator_of_ne (by decide), get?_mappingTable]
  · rw [environmentFor, hget, get?_putGiven_self, get?_putGiven_of_ne (by decide),
      get?_putOriginator_of_ne (by decide), get?_mappingTable]

/-! ## The processes of a client

What an executor is made with never changes, and neither do the surroundings of its client. So the
environment of every process is a function of these two, and where the options give a mapping, of
the options alone. That all processes of a session are covered is `Session.forall_started_steps`. -/

variable {s : Surroundings} {o : ClientOptions} {e : Executor}

/-- An executor has the environment, the address and the key of its options. -/
theorem parts_of_ofOptions (h : ofOptions s o = .ok e) :
    environmentOf o.environment = .ok e.environment ∧ e.baseUrl = o.baseUrl ∧
    e.apiKey = o.apiKey := by
  obtain ⟨_, -, h⟩ := Json.exists_of_bind_eq_ok h
  obtain ⟨environment, henvironment, h⟩ := Json.exists_of_bind_eq_ok h
  obtain ⟨_, -, h⟩ := Json.exists_of_bind_eq_ok h
  obtain rfl := Except.ok.inj h
  exact ⟨henvironment, rfl, rfl⟩

/-- **A mapping that a client goes by**: the one that its options give, or that of the host if they
give none. -/
def GoesBy (o : ClientOptions) (s : Surroundings) (mapping : List (String × String)) : Prop :=
  o.environment = .table (mappingTable mapping) ∨ o.environment = .null ∧ s.environment = mapping

/-- The environment of a process is made of the mapping, and of nothing else. -/
theorem environmentTable_eq {mapping : List (String × String)} (h : ofOptions s o = .ok e)
    (hmapping : GoesBy o s mapping) :
    sortedByName (e.environmentTable s) = environmentFor o mapping := by
  obtain ⟨henvironment, hbaseUrl, hapiKey⟩ := parts_of_ofOptions h
  have hsource : e.environment.getD (hostTable s) = mappingTable mapping := by
    -- The mapping is that of the options, and the host is not asked; or there is none, and the host
    -- is.
    rcases hmapping with hgiven | ⟨hnull, rfl⟩
    · rw [hgiven] at henvironment
      rw [← Except.ok.inj henvironment]
      rfl
    · rw [hnull] at henvironment
      rw [← Except.ok.inj henvironment]
      rfl
  rw [environmentTable, environmentFor, hsource, hbaseUrl, hapiKey]

/-- A process of a client, however long it has been used, has the environment of its executor. -/
theorem environment_of_starts {c c' : Client} {scripts : List Script}
    (hagent : c.agent = .executable e scripts) (hc : c.Becomes c') {r : TurnRequest}
    {schema : Option String} {p : ProcessRecord} (hp : c'.Starts r schema p) :
    p.environment = sortedByName (e.environmentTable c.surroundings) := by
  obtain ⟨e', scripts', command, hagent', -, rfl⟩ := hp
  have hakin := hc.agent
  rw [hagent, hagent'] at hakin
  cases hakin
  rw [← hc.surroundings_eq]
  rfl

/-- A client stands in the surroundings that it was made in. -/
theorem surroundings_of_ofOptions {c : Client} {scripts : List Script}
    (hc : Client.ofOptions s o scripts = .ok c) : c.surroundings = s := by
  obtain ⟨e, -, hc⟩ := Json.exists_of_bind_eq_ok hc
  rw [← Except.ok.inj hc]

/-- So has every process of a session. -/
theorem environment_of_mem_journal {c : Client} {scripts : List Script}
    (hc : Client.ofOptions s o scripts = .ok c) {xs : List Step} {p : ProcessRecord}
    (hp : .process p ∈ (Session.steps ⟨c, [], []⟩ xs).2.client.journal) :
    ∃ e, ofOptions s o = .ok e ∧ p.environment = sortedByName (e.environmentTable s) := by
  obtain ⟨e, he, hagent⟩ := Client.exists_agent_of_ofOptions hc
  have hfresh : ∀ call ∈ c.journal, call.Started
      fun p => p.environment = sortedByName (e.environmentTable c.surroundings) := by
    rw [(Client.isFresh_ofOptions hc).journal_eq]
    exact nofun
  have hstarted := Session.forall_started_steps (s := ⟨c, [], []⟩)
    (fun c' r schema p hbecomes => environment_of_starts hagent hbecomes) hfresh xs _ hp
  exact ⟨e, he, surroundings_of_ofOptions hc ▸ hstarted⟩

/-- **No host leaks into an environment that is given.**  Whatever the host, and whatever its client
does, every process is started with one and the same environment: the mapping that the options give,
but for the three variables of the client.  Where they give none it is the mapping of the host in
its place. -/
theorem environment_isolated {mapping : List (String × String)}
    (hmapping : (mapping.map Prod.fst).Nodup) (o : ClientOptions) :
    ∃ t, Equips o mapping t ∧
      ∀ (s : Surroundings) (scripts : List Script) (c : Client), GoesBy o s mapping →
        Client.ofOptions s o scripts = .ok c →
          ∀ (xs : List Step) (p : ProcessRecord),
            .process p ∈ (Session.steps ⟨c, [], []⟩ xs).2.client.journal → p.environment = t := by
  refine ⟨environmentFor o mapping, equips_environmentFor o hmapping, ?_⟩
  intro s scripts c hgoes hc xs p hp
  obtain ⟨e, he, henvironment⟩ := environment_of_mem_journal hc hp
  rw [henvironment, environmentTable_eq he hgoes]

/-- A mapping with an empty originator and an address. -/
def sparseMapping : List (String × String) :=
  [(originatorVariable, ""), (baseUrlVariable, "http://localhost"), ("LANG", "C")]

/-- Options with this mapping, an empty address and a key. -/
def sparseOptions : ClientOptions :=
  { environment := .table (mappingTable sparseMapping), baseUrl := .str "", apiKey := .str "key" }

/-- A host that has an executable and these variables. -/
def hostWith (environment : List (String × String)) : Surroundings :=
  { environment, files := FileTree.ofFile ["/", "bin", "trill"] .executable
    schemaDirectory := "/tmp/schemas" }

/-- A client of these options on such a host. -/
def sparseClient (environment : List (String × String)) : Client :=
  { surroundings := hostWith environment
    options := sparseOptions
    agent := .executable
      ⟨"/bin/trill", some (mappingTable sparseMapping), [], .str "", .str "key"⟩ []
    log := [⟨.debug, Client.clientPart, "Using trill executable /bin/trill"⟩] }

/-- A thread with one turn. -/
def oneTurn : List Step :=
  [.startThread {}, .run 0 (.text "hi") {}]

/-- On a host with a secret and on one without, the process has the same environment: no secret, an
originator for the empty one, the address of the mapping, and the key of the options. -/
theorem environment_of_sparseClient :
    ∃ t : Table,
      (∀ environment ∈ [[], [("SECRET", "s"), ("PATH", "/bin"), (apiKeyVariable, "host")]],
        ∃ p, .process p ∈
          (Session.steps ⟨sparseClient environment, [], []⟩ oneTurn).2.client.journal ∧
          p.environment = t) ∧
      t.get? "SECRET" = none ∧ (∃ text, t.get? originatorVariable = some (.str text) ∧ text ≠ "") ∧
      t.get? baseUrlVariable = some (.str "http://localhost") ∧
      t.get? apiKeyVariable = some (.str "key") ∧ t.get? "LANG" = some (.str "C") := by
  have hnodup : (sparseMapping.map Prod.fst).Nodup := by decide
  obtain ⟨t, hequips, hall⟩ := environment_isolated hnodup sparseOptions
  obtain ⟨text, htext, hne, -⟩ := hequips.originator
  have hof : ∀ environment, Client.ofOptions (hostWith environment) sparseOptions []
      = .ok (sparseClient environment) → (∃ p, .process p
        ∈ (Session.steps ⟨sparseClient environment, [], []⟩ oneTurn).2.client.journal) →
      ∃ p, .process p ∈
        (Session.steps ⟨sparseClient environment, [], []⟩ oneTurn).2.client.journal ∧
        p.environment = t :=
    fun environment hclient ⟨p, hp⟩ => ⟨p, hp, hall _ [] _ (.inl rfl) hclient oneTurn p hp⟩
  refine ⟨t, List.forall_mem_cons.mpr ⟨?_, List.forall_mem_singleton.mpr ?_⟩, ?_,
    ⟨text, htext, hne⟩, hequips.baseUrl, hequips.apiKey, ?_⟩
  · exact hof _ rfl ⟨_, List.mem_singleton_self _⟩
  · exact hof _ rfl ⟨_, List.mem_singleton_self _⟩
  · exact hequips.get?_of_ne _ (by decide) (by decide) (by decide)
  · exact hequips.get?_of_ne _ (by decide) (by decide) (by decide)

end Executor

end AgentClient
