import AgentClient.Proofs.Config.Arrangement
import AgentClient.Proofs.Conversation.Started
import AgentClient.Proofs.Executor.CommandReading

/-!
# Proofs/CommandLine/ConfigWords — every override of a command line reaches the executable

The process of the program has a command for the options of its thread
(`exists_command_of_mem_journal`); a thread from the command line has no overrides of its own, so
its commands carry those of the client and no others (`Executor.carriesOnly_command`).  Those are
the overrides of the command line, rearranged (`Config.exists_overrides`), whatever the options
besides (`run_carries_overrides`). -/

namespace AgentClient

/-! ## Commands without overrides of a thread

A thread may have overrides of its own, which stand behind those of the client and win over them.
The options that a command line can give lead to none. -/

namespace Executor

/-- **A command with some overrides and no others**, before all its other parts. -/
def CarriesOnly (items words : List String) : Prop :=
  ∃ executable others,
    words = [executable, "exec", "--experimental-json"] ++ Config.overrideWords items
      ++ others.flatMap CommandPart.words ∧
    CommandPart.read (words.drop 3) = overrideParts items ++ others ∧
    ∀ p ∈ others, p.flag ≠ "--config"

theorem eq_nil_of_flatMap_words {parts : List CommandPart}
    (h : parts.flatMap CommandPart.words = []) : parts = [] := by
  cases parts with
  | nil => rfl
  | cons p parts => cases p <;> exact absurd h nofun

theorem carriesOnly_command {e : Executor} {r : TurnRequest} {words : List String}
    (h : e.command r = .ok words)
    (hnone : threadOverridesWords (threadOverrides r.options) = .ok []) :
    CarriesOnly e.overrides words := by
  obtain ⟨options, settings, images, hparts, hfirst, hsettings⟩ := exists_hasParts h
  obtain rfl := eq_nil_of_flatMap_words (Except.ok.inj (hsettings.symm.trans hnone))
  have hread := hparts.read_eq
  have hwords := hparts.words_eq
  simp only [List.append_nil, List.append_assoc] at hread hwords
  refine ⟨e.executable, _, ?_, hread, fun p hp => ?_⟩
  · rw [← List.take_append_drop 3 words, hfirst, hwords, List.flatMap_append,
      flatMap_words_overrideParts, List.append_assoc]
  · simp only [List.mem_append] at hp
    rcases hp with hp | hp | hp | hp
    · exact fun heq => absurd (hparts.options p hp).2 (heq ▸ by decide)
    · rw [flag_of_mem_schemaParts hp]
      decide
    · rw [resumeParts.eq_def] at hp
      split at hp
      · exact absurd hp List.not_mem_nil
      · exact absurd hp List.not_mem_nil
      · rw [List.mem_singleton.mp hp]
        exact show "resume" ≠ "--config" by decide
    · rw [List.mem_singleton.mp (hparts.images p hp).2]
      decide

end Executor

/-! ## The program

From the words of the command line to those of the process the overrides go through a table. What
was shown of putting together and flattening is applied to the table here, and what was shown of
commands to the process. -/

namespace CommandLine

variable {w : World} {words : List String} {a : RunArguments}

/-- A thread from the command line has no overrides. -/
theorem hasSettings_threadOptionsOf (a : RunArguments) : (threadOptionsOf a).HasSettings :=
  ThreadOptions.hasSettings_of_fields .absent .absent .absent .absent

/-- The processes of the program have commands for the options of its thread. -/
theorem exists_command_of_mem_journal (hwords : invocation words = .ok (.run a))
    {o : ClientOptions} (ho : clientOptionsOf w a = .ok o) {record : ProcessRecord}
    (hrecord : .process record ∈ (run w words).journal) :
    ∃ e r, Executor.ofOptions w.surroundings o = .ok e ∧ r.options = threadOptionsOf a ∧
      e.command r = .ok record.command := by
  obtain ⟨schema, c, hprepare, turn, e, scripts, command, hagent, hcommand, hstart⟩ :=
    exists_starts_of_mem_journal hwords hrecord
  obtain ⟨o', ho', hc⟩ := exists_ofOptions_of_prepare hprepare
  obtain rfl := Except.ok.inj (ho.symm.trans ho')
  obtain ⟨e', he, hagent'⟩ := Client.exists_agent_of_ofOptions hc
  obtain ⟨rfl, -⟩ := Agent.executable.inj (hagent.symm.trans hagent')
  obtain rfl : record.command = command := congrArg ProcessRecord.command hstart
  exact ⟨e, turn.request, he, rfl, hcommand⟩

/-- The options of the client hold the configuration, also where it is empty. -/
theorem exists_clientOptionsOf (w : World) {t : Table} (h : configOf a = .ok t) :
    ∃ o, clientOptionsOf w a = .ok o ∧
      Executor.overridesOf o.config = Config.overrides (.table t) := by
  refine ⟨_, by rw [clientOptionsOf, h]; rfl, ?_⟩
  cases t with
  | nil => rfl
  | cons e t => rfl

/-- **Every override of a command line reaches the executable.**  Overrides whose paths are apart,
and whose values are no tables and have a TOML form, are flattened to as many items, each written
from one of them, in an order in which those with the same first name stand side by side and those
with the same names before the last as they stood.  Every command that is built for the command line
has these items before all other options, and no override else; so has that of every process that
the program starts. -/
theorem run_carries_overrides {pairs : List String} (hwords : invocation words = .ok (.run a))
    (hconfig : a.config = pairs.map .str) (hpairs : ∀ pair ∈ pairs, Config.IsSetting pair)
    (hapart : pairs.Pairwise fun p q => Config.Apart (Config.pathOf p) (Config.pathOf q))
      (w : World) :
    ∃ order items o, Config.IsArrangement order pairs ∧ List.Forall₂ Config.IsItemOf order items ∧
      clientOptionsOf w a = .ok o ∧ Executor.overridesOf o.config = .ok items ∧
      (∀ e r, Executor.ofOptions w.surroundings o = .ok e → r.options = threadOptionsOf a →
        ∃ rest own, e.commandWords r = .ok (Executor.textWords
            ([e.executable, "exec", "--experimental-json"] ++ Config.overrideWords items) ++ rest) ∧
          CommandReading.read {} rest = some own ∧ own.overrides = []) ∧
      ∀ record, .process record ∈ (run w words).journal →
        Executor.CarriesOnly items record.command := by
  obtain ⟨t, order, items, ht, hitems, harrangement, hall⟩ := Config.exists_overrides hpairs hapart
  obtain ⟨o, ho, hover⟩ := exists_clientOptionsOf w ((configOf_eq_parseOverrides hconfig).trans ht)
  rw [hitems] at hover
  have hoverrides : ∀ {e}, Executor.ofOptions w.surroundings o = .ok e → e.overrides = items :=
    fun he => Except.ok.inj ((Executor.overridesOf_of_ofOptions he).symm.trans hover)
  refine ⟨order, items, o, harrangement, hall, ho, hover, fun e r he hr => ?_,
    fun record hrecord => ?_⟩
  · have hsettings := hasSettings_threadOptionsOf a
    rw [← hr] at hsettings
    obtain ⟨texts, hcommand, hread⟩ := Executor.exists_commandWords_eq e hsettings
    have hnone : texts.map Value.str = [] := by
      rw [hr] at hread
      exact List.map_eq_nil_iff.mp hread
    refine ⟨_, _, hoverrides he ▸ hcommand, Executor.read_laterWords r [] texts, ?_⟩
    rw [Executor.laterReading, hnone]
    rfl
  · obtain ⟨e, r, he, hr, hcommand⟩ := exists_command_of_mem_journal hwords ho hrecord
    rw [← hoverrides he]
    exact Executor.carriesOnly_command hcommand (hr ▸ rfl)

/-- A command line with overrides of which the first and the last have the same first name, and with
an option whose value looks like an override. -/
def interleavedWords : List String :=
  ["run", "-c", "b.x=1", "-c", "a=[true]", "-c", "b.y=plain", "-m=--config", "hi"]

/-- What it asks for. -/
def interleavedArguments : RunArguments :=
  { streamArguments with
    model := .str "--config"
    config := ["b.x=1", "a=[true]", "b.y=plain"].map .str
    output := .text }

/-- Its overrides are carried by the process that is started, those with the same first name
together. -/
theorem run_interleavedWords :
    ∃ record, .process record ∈ (run hostOfBrokenChild interleavedWords).journal ∧
      Executor.CarriesOnly ["b.x=1", "b.y=\"plain\"", "a=[true]"] record.command := by
  have hwords : invocation interleavedWords = .ok (.run interleavedArguments) := by decide +kernel
  have hsetting : ∀ {pair : String} (v : Value) (text : String), Config.IsPair pair →
      (∀ name ∈ Config.pathOf pair, name ≠ "") → Config.overrideValue (Config.rawOf pair) = .ok v →
      v.isTable = false → Config.toml (Config.keyOf pair) v = .ok text → Config.IsSetting pair :=
    fun v text hpair hnames hv htable htext =>
      ⟨hpair, hnames, v, text, Config.overrideValue_eq_ok_iff.mp hv, htable, htext⟩
  have hpairs : ∀ pair ∈ ["b.x=1", "a=[true]", "b.y=plain"], Config.IsSetting pair := by
    refine List.forall_mem_cons.mpr ⟨?_, List.forall_mem_cons.mpr ⟨?_,
      List.forall_mem_singleton.mpr ?_⟩⟩
    · exact hsetting (.int 1) "1" ⟨by decide, by decide⟩ (by decide +kernel) (by decide +kernel) rfl
        (by decide +kernel)
    · exact hsetting (.list [.bool true]) "[true]" ⟨by decide, by decide⟩ (by decide +kernel)
        (by decide +kernel) rfl (by decide +kernel)
    · exact hsetting (.str "plain") "\"plain\"" ⟨by decide, by decide⟩ (by decide +kernel)
        (by decide +kernel) rfl (by decide +kernel)
  obtain ⟨order, items, o, -, -, ho, hover, -, hcarries⟩ :=
    run_carries_overrides hwords rfl hpairs (by decide +kernel) hostOfBrokenChild
  have hoptions : clientOptionsOf hostOfBrokenChild interleavedArguments
      = .ok { config := .table [(.str "b", .table [(.str "x", .int 1), (.str "y", .str "plain")]),
          (.str "a", .list [.bool true])] } := by
    decide +kernel
  obtain rfl := Except.ok.inj (hoptions.symm.trans ho)
  have hitems : Executor.overridesOf (.table [(.str "b", .table [(.str "x", .int 1),
      (.str "y", .str "plain")]), (.str "a", .list [.bool true])])
      = .ok ["b.x=1", "b.y=\"plain\"", "a=[true]"] := by
    decide +kernel
  obtain rfl := Except.ok.inj (hitems.symm.trans hover)
  have hstarted : (run hostOfBrokenChild interleavedWords).journal.any Call.isProcess = true := by
    decide +kernel
  obtain ⟨record, hrecord⟩ := Journal.exists_process_of_any hstarted
  exact ⟨record, hrecord, hcarries record hrecord⟩

end CommandLine

end AgentClient
