import AgentClient.Proofs.Child.Outcome
import AgentClient.Proofs.Conversation.Accounts

/-!
# Proofs/Child/Cleanup — no process is left behind

A turn of an executable starts one process or none.  However reading its lines ends — by itself, by
a failure, or because the reader has enough — the process is closed then, and it has been killed
unless its exit was seen (`journal_readLines`).  Both follow from what starting a turn can come to
(`launch_cases`) and from what a parent can get from a child (`Delivery.ofScript_cases`). -/

namespace AgentClient

/-! ## What a parent can get

A parent that reads on until nothing comes gets one of two things. The exit is seen only by way of
the end of the output, so a child that falls silent, or keeps its parent waiting before, never shows
it. -/

/-- **A child whose exit is seen** by a parent that reads it to the end. -/
structure Script.ShowsExit (s : Script) : Prop where
  answers : s.AnswersPrompt
  ends : .silence ∉ s.output
  exits : s.exits = true

/-- A failure that reports the exit of a process. -/
def Failure.ReportsExit (f : Failure) : Prop :=
  ∃ code complaint, f = .client (.exit code complaint)

theorem not_reportsExit_silenceFailure (timeout : Value) (deadline : Deadline) :
    ¬ (silenceFailure timeout deadline).ReportsExit := by
  rintro ⟨code, complaint, h⟩
  cases deadline with
  | never => exact absurd h nofun
  | sometime => exact absurd h nofun

/-- An output ends unless it falls silent. -/
theorem Framing.ended_lines_iff (output : List Chunk) :
    (({} : Framing).lines output).2 = true ↔ .silence ∉ output := by
  rcases Script.output_cases output with ⟨portions, rfl⟩ | ⟨portions, rest, rfl⟩
  · rw [lines_bytes List.not_mem_nil]
    simp
  · rw [lines_silence List.not_mem_nil]
    simp

/-- **A parent sees the exit, and what it was**, or it gets a failure of another kind. -/
theorem Delivery.ofScript_cases (executable : String) (timeout : Value) (deadline : Deadline)
    (s : Script) :
    (s.ShowsExit ∧ ∃ lines,
        ofScript executable timeout deadline s = ⟨lines, exitFailure s, true⟩) ∨
      (¬ s.ShowsExit ∧ ∃ lines f,
        ofScript executable timeout deadline s = ⟨lines, some f, false⟩ ∧ ¬ f.ReportsExit) := by
  have hsilence := not_reportsExit_silenceFailure timeout deadline
  -- A child that keeps its parent waiting is given up before its exit is seen.
  by_cases hs : s.AnswersPrompt
  · rw [hs.ofScript_eq]
    by_cases hend : (({} : Framing).lines s.output).2 && s.exits
    · rw [if_pos hend]
      rw [Bool.and_eq_true, Framing.ended_lines_iff] at hend
      exact .inl ⟨⟨hs, hend.1, hend.2⟩, _, rfl⟩
    · rw [if_neg hend]
      rw [Bool.and_eq_true, Framing.ended_lines_iff] at hend
      exact .inr ⟨fun h => hend ⟨h.ends, h.exits⟩, _, _, rfl, hsilence⟩
  · refine .inr ⟨fun h => hs h.answers, ?_⟩
    rw [ofScript]
    cases hpipes : s.hasPipes with
    | false =>
      refine ⟨_, _, rfl, ?_⟩
      rintro ⟨_, _, ⟨⟩⟩
    | true =>
      have hprompt : s.prompt = .ignored := by
        by_contra hne
        exact hs ⟨hpipes, hne⟩
      rw [hprompt]
      exact ⟨_, _, rfl, hsilence⟩

/-! ## What starting a turn can come to

The checks come in this order: the words of the command, the timeout, the system.  Each of them may
end the turn before there is a process, so in all cases but one there is none to close. -/

namespace Client

variable {c : Client} {e : Executor} {scripts : List Script}

/-- **A turn of an executable** fails on its command, fails on its timeout, is refused its process,
or has its process started. -/
theorem launch_cases (hc : c.agent = .executable e scripts) (r : TurnRequest)
    (schema : Option String) :
    (∃ f, e.command r = .error f ∧ c.launch r schema = (.error f, c)) ∨
      (∃ command fault, e.command r = .ok command ∧ Deadline.ofTimeout r.timeout = .error fault ∧
        c.launch r schema = (.error (.fault fault), c.note (startLog command))) ∨
      (∃ command error, (takeScript scripts).1.refusal = some error ∧
        c.launch r schema
          = (.error (.client (.launch (.refused e.executable error))),
            { c.note (startLog command) with
              agent := .executable e (takeScript scripts).2
              journal := c.journal ++ [.refused] })) ∨
      ∃ p : Spawn c r (takeScript scripts).1, p.executor = e := by
  rw [launch, hc]
  dsimp only [launchProcess]
  cases hcommand : e.command r with
  | error f => exact .inl ⟨f, rfl, rfl⟩
  | ok command =>
    cases hdeadline : Deadline.ofTimeout r.timeout with
    | error fault => exact .inr (.inl ⟨command, fault, rfl, rfl, rfl⟩)
    | ok deadline =>
      cases hrefusal : (takeScript scripts).1.refusal with
      | some error => exact .inr (.inr (.inl ⟨command, error, rfl, rfl⟩))
      | none =>
        exact .inr (.inr (.inr
          ⟨⟨e, scripts, _, command, deadline, hc, rfl, hcommand, hdeadline, hrefusal⟩, rfl⟩))

end Client

/-! ## What a run leaves behind

The same record is closed on two ways, by the end of the reading and by a reader that stops. Both go
through `Client.settle`, and the one thing that differs is whether the exit has been seen. -/

/-- **A process that is not left behind**: it is closed; it was killed unless its exit was seen,
which it was just when the reader went to the end of a child that shows it; and the end of the
reading tells which of the two it is. -/
structure ProcessRecord.IsSettled (p : ProcessRecord) (s : Script) (fin : Client.LineEnd) :
    Prop where
  closed : p.closed = true
  killed_iff : p.killed = true ↔ ¬ (s.ShowsExit ∧ fin ≠ .stopped)
  spared_iff : p.killed = false ↔ fin = .exhausted ∨ ∃ f, fin = .failed f ∧ f.ReportsExit

/-- **What one run leaves in the journal**: nothing if no process was asked for, the refusal, or the
one process, which is not left behind. -/
inductive Executor.Leaves (e : Executor) (r : TurnRequest) (s : Script) :
    List String → Client.LineEnd → List Call → Prop
  | badCommand {f : Failure} (h : e.command r = .error f) : Leaves e r s [] (.failed f) []
  | badTimeout {fault : Fault} (h : Deadline.ofTimeout r.timeout = .error fault) :
    Leaves e r s [] (.failed (.fault fault)) []
  | refused {error : SystemError} (h : s.refusal = some error) :
    Leaves e r s [] (.failed (.client (.launch (.refused e.executable error)))) [.refused]
  | process {lines : List String} {fin : Client.LineEnd} {record : ProcessRecord}
      (hcommand : e.command r = .ok record.command) (h : record.IsSettled s fin) :
    Leaves e r s lines fin [.process record]

namespace Spawn

variable {c : Client} {r : TurnRequest} {s : Script}

/-- The record of the process once its turn has ended. -/
def record (p : Spawn c r s) (schema : Option String) (exitSeen : Bool) : ProcessRecord :=
  { Client.processRecord p.executor c.surroundings r p.command schema s with
    killed := !exitSeen
    closed := true }

/-- The end of a turn closes its process and touches no earlier one. -/
theorem journal_settle (p : Spawn c r s) (schema : Option String) (exitSeen : Bool) :
    ((p.client schema).settle p.feed exitSeen).journal
      = c.journal ++ [.process (p.record schema exitSeen)] := by
  have hcall : p.feed.call = c.journal.length := rfl
  rw [Client.journal_settle, hcall, client, List.modify_eq_set_getElem?]
  simp [Call.close, record]

/-- A reader that stops leaves a process that was killed. -/
theorem isSettled_stopped (p : Spawn c r s) (schema : Option String) :
    (p.record schema false).IsSettled s .stopped where
  closed := rfl
  killed_iff := by simp [record]
  spared_iff := by simp [record]

/-- A reader that goes to the end leaves one that was killed unless its exit was seen. -/
theorem isSettled_read (p : Spawn c r s) (schema : Option String) :
    (p.record schema p.delivery.exitSeen).IsSettled s
      (match p.delivery.failure with
        | none => .exhausted
        | some f => .failed f) := by
  -- The exit is seen just where the child shows it, and only then may its code be the failure.
  rcases Delivery.ofScript_cases p.executor.executable r.timeout p.deadline s with
    ⟨hs, lines, h⟩ | ⟨hs, lines, f, h, hf⟩
  · have hdelivery : p.delivery = ⟨lines, Delivery.exitFailure s, true⟩ := h
    rw [hdelivery, Delivery.exitFailure]
    by_cases hcode : s.code = 0
    · rw [if_pos hcode]
      exact ⟨rfl, by simp [record, hs], by simp [record]⟩
    · rw [if_neg hcode]
      exact ⟨rfl, by simp [record, hs], by simp [record, Failure.ReportsExit]⟩
  · have hdelivery : p.delivery = ⟨lines, some f, false⟩ := h
    rw [hdelivery]
    exact ⟨rfl, by simp [record, hs], by simp [record, hf]⟩

/-- **A process that was started** is not left behind, wherever its reader stops. -/
theorem leaves_readLines (p : Spawn c r s) (schema : Option String) (limit : Option Nat) :
    (∃ calls, (c.readLines r schema limit).2.2.journal = c.journal ++ calls ∧
      p.executor.Leaves r s (c.readLines r schema limit).1 (c.readLines r schema limit).2.1 calls) ∧
      ((c.readLines r schema limit).2.1 = .stopped ↔
        ∃ n, limit = some n ∧ n ≤ (c.readLines r schema none).1.length) := by
  -- A reader stops early just if it asks for no more lines than there are.
  have hany : limit.any (· ≤ p.feed.lines.length) = true ↔
      ∃ n, limit = some n ∧ n ≤ (c.readLines r schema none).1.length := by
    rw [p.readLines_none]
    cases limit with
    | none => simp
    | some n =>
      refine ⟨fun h => ⟨n, rfl, of_decide_eq_true h⟩, ?_⟩
      rintro ⟨m, hm, h⟩
      obtain rfl := Option.some.inj hm
      exact decide_eq_true h
  rw [← hany]
  simp only [Client.readLines, p.launch_eq schema, Client.readFeed]
  by_cases h : limit.any (· ≤ p.feed.lines.length) = true
  · rw [if_pos h]
    exact ⟨⟨_, p.journal_settle schema false, .process p.command_eq (p.isSettled_stopped schema)⟩,
      iff_of_true rfl h⟩
  · rw [if_neg h]
    refine ⟨⟨_, p.journal_settle schema _, .process p.command_eq (p.isSettled_read schema)⟩,
      iff_of_false ?_ h⟩
    cases p.feed.failure <;> rintro ⟨⟩

end Spawn

/-- **No process is left behind.**  However reading the lines of a turn ends, the turn has added at
most one process to the journal; it is closed, and was killed unless its exit was seen.  A turn that
fails before has started none.  A reader stops just where it has enough of the lines of a process.
-/
theorem journal_readLines {c : Client} {e : Executor} {scripts : List Script}
    (hc : c.agent = .executable e scripts) (r : TurnRequest) (schema : Option String)
    (limit : Option Nat) :
    (∃ calls, (c.readLines r schema limit).2.2.journal = c.journal ++ calls ∧
      e.Leaves r (takeScript scripts).1 (c.readLines r schema limit).1
        (c.readLines r schema limit).2.1 calls) ∧
      ((c.readLines r schema limit).2.1 = .stopped ↔
        Nonempty (Spawn c r (takeScript scripts).1) ∧
          ∃ n, limit = some n ∧ n ≤ (c.readLines r schema none).1.length) := by
  have hnone : ∀ {f : Failure}, (c.launch r schema).1 = .error f →
      ¬ Nonempty (Spawn c r (takeScript scripts).1) := by
    rintro f hf ⟨p⟩
    rw [p.launch_eq schema] at hf
    cases hf
  have hfailed : ∀ {f : Failure}, Client.LineEnd.failed f ≠ .stopped := by
    rintro f ⟨⟩
  -- A launch that fails leaves no process to stop, and its journal is that of the failure.
  rcases Client.launch_cases hc r schema with
    ⟨f, hf, h⟩ | ⟨command, fault, -, hfault, h⟩ | ⟨command, error, hrefusal, h⟩ | ⟨p, rfl⟩
  · have hno := hnone (congrArg Prod.fst h)
    simp only [Client.readLines, h]
    exact ⟨⟨[], (List.append_nil _).symm, .badCommand hf⟩, iff_of_false hfailed fun hp => hno hp.1⟩
  · have hno := hnone (congrArg Prod.fst h)
    simp only [Client.readLines, h]
    exact ⟨⟨[], (List.append_nil _).symm, .badTimeout hfault⟩,
      iff_of_false hfailed fun hp => hno hp.1⟩
  · have hno := hnone (congrArg Prod.fst h)
    simp only [Client.readLines, h]
    exact ⟨⟨_, rfl, .refused hrefusal⟩, iff_of_false hfailed fun hp => hno hp.1⟩
  · obtain ⟨hleaves, hstop⟩ := p.leaves_readLines schema limit
    exact ⟨hleaves, hstop.trans (iff_and_self.mpr fun _ => ⟨p⟩)⟩

/-- The process of a child that exits with a code, about to start. -/
def complainingSpawn : Spawn (clientOfChild complainingChild) halfSecond complainingChild where
  executor := ⟨"trill", none, [], .null, .null⟩
  scripts := [complainingChild]
  later := []
  command := ["trill", "exec", "--experimental-json"]
  deadline := .sometime
  agent_eq := rfl
  takeScript_eq := rfl
  command_eq := rfl
  deadline_eq := rfl
  refusal_eq := rfl

/-- A reader that stops at the last line of that child has its process killed: the exit, which was
to come next, has not been seen. -/
theorem journal_complainingChild :
    ((clientOfChild complainingChild).readLines halfSecond none (some 2)).2.1 = .stopped ∧
      ∃ record, ((clientOfChild complainingChild).readLines halfSecond none (some 2)).2.2.journal
          = [.process record] ∧
        record.closed = true ∧ record.killed = true := by
  have hlength :
      2 ≤ ((clientOfChild complainingChild).readLines halfSecond none none).1.length := by
    decide +kernel
  obtain ⟨⟨calls, hcalls, hleaves⟩, hstop⟩ :=
    journal_readLines (c := clientOfChild complainingChild) rfl halfSecond none (some 2)
  have hstopped := hstop.mpr ⟨⟨complainingSpawn⟩, 2, rfl, hlength⟩
  rw [hstopped] at hleaves
  cases hleaves with
  | process _ h => exact ⟨hstopped, _, hcalls, h.closed, h.killed_iff.mpr fun hnot => hnot.2 rfl⟩

end AgentClient
