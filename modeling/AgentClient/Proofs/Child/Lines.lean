import AgentClient.Client
import AgentClient.Proofs.Text.Decoding

/-!
# Proofs/Child/Lines — the lines of a child are those of its output read as a whole

Between two portions the reader holds a character begun and a line begun.  With both put in front of
what is still to come, every portion leaves the same text to be cut (`lines_bytes`), so a child that
writes its output in portions gives the lines of one text (`readLines_eq_split`).  A child that
falls silent gives the lines that were ended before. -/

namespace AgentClient

open Text

/-! ## Lines that carry something

The reader drops a line that is blank, but it keeps the others as they are, blanks at their ends
included. So what it keeps of a list of lines is found for each line by itself. -/

namespace Framing

theorem carrying_append (xs ys : List (List Char)) :
    carrying (xs ++ ys) = carrying xs ++ carrying ys := by
  simp only [carrying, List.filter_append, List.map_append]

/-- The lines that carry something are those that stripping leaves something of. -/
theorem carrying_eq_filter (ls : List (List Char)) :
    carrying ls = (ls.map String.ofList).filter fun l => strip l ≠ "" := by
  rw [carrying, List.filter_map]
  congr 1
  refine List.filter_congr fun l _ => ?_
  simp only [Function.comp, ne_eq, strip_eq_empty_iff, String.toList_ofList]
  cases isBlankText l <;> rfl

/-! ## The run over all portions

The induction is on the portions. What is kept between two of them is the line begun, and the one
fact about it that every step needs is that it holds no line feed: then the pieces of the line begun
and of the next portion together are cut just where the portion is. -/

/-- What a portion makes of a line begun. -/
theorem feed_eq {f : Framing} (h : '\n' ∉ f.line) (bytes : List UInt8) :
    f.feed bytes
      = (carrying (splitAt '\n' (f.line ++ (Utf8.feed f.character bytes).2)).dropLast,
        ⟨(Utf8.feed f.character bytes).1,
          (splitAt '\n' (f.line ++ (Utf8.feed f.character bytes).2)).getLastD []⟩) := by
  simp only [feed, pieces_eq_splitAt _ h]

/-- A line begun is always without a line feed. -/
theorem newline_not_mem_line_feed {f : Framing} (h : '\n' ∉ f.line) (bytes : List UInt8) :
    '\n' ∉ (f.feed bytes).2.line := by
  rw [feed_eq h]
  exact not_mem_getLastD_splitAt _ _

/-- The end of the input adds no line feed. -/
theorem newline_not_mem_finish (p : Utf8.Progress) : '\n' ∉ Utf8.finish p := by
  cases p with
  | idle => exact List.not_mem_nil
  | inside => simp [Utf8.finish, replacement]

/-- **The lines of an output that ends** are those of the line begun, all portions and the end put
together. -/
theorem lines_bytes {f : Framing} (h : '\n' ∉ f.line) (portions : List (List UInt8)) :
    f.lines (portions.map .bytes)
      = (carrying (splitAt '\n' (f.line ++ (Utf8.feed f.character portions.flatten).2
          ++ Utf8.finish (Utf8.feed f.character portions.flatten).1)), true) := by
  induction portions generalizing f with
  -- What a character begun leaves behind ends no line, so there is one line and it is the last.
  | nil =>
    have hlast : '\n' ∉ f.line ++ Utf8.finish f.character := by
      rw [List.mem_append, not_or]
      exact ⟨h, newline_not_mem_finish _⟩
    simp only [List.map_nil, lines, finish, List.flatten_nil, Utf8.feed, List.append_nil,
      splitAt_eq_singleton hlast]
  | cons bytes portions ih =>
    rw [List.map_cons, lines]
    simp only [ih (newline_not_mem_line_feed h bytes)]
    simp only [feed_eq h, List.flatten_cons, Utf8.feed_append]
    rw [← carrying_append, ← List.append_assoc f.line, List.append_assoc (f.line ++ _),
      splitAt_append '\n' (f.line ++ _), List.append_assoc (List.getLastD _ _)]

/-- **The lines of an output that falls silent** are those that a line feed has ended before. -/
theorem lines_silence {f : Framing} (h : '\n' ∉ f.line) (portions : List (List UInt8))
    (rest : List Chunk) :
    f.lines (portions.map .bytes ++ .silence :: rest)
      = (carrying (splitAt '\n'
          (f.line ++ (Utf8.feed f.character portions.flatten).2)).dropLast, false) := by
  induction portions generalizing f with
  | nil =>
    simp only [List.map_nil, List.nil_append, lines, List.flatten_nil, Utf8.feed, List.append_nil,
      splitAt_eq_singleton h]
    rfl
  | cons bytes portions ih =>
    rw [List.map_cons, List.cons_append, lines]
    simp only [ih (newline_not_mem_line_feed h bytes)]
    simp only [feed_eq h, List.flatten_cons, Utf8.feed_append]
    rw [← carrying_append, ← List.append_assoc f.line, splitAt_append '\n' (f.line ++ _),
      List.dropLast_append_of_ne_nil (splitAt_ne_nil _ _)]

/-- The character that an output breaks off inside of would only have lengthened its last line. -/
theorem dropLast_splitAt_decode (bytes : List UInt8) :
    (splitAt '\n' (Utf8.decode bytes)).dropLast
      = (splitAt '\n' (Utf8.feed .idle bytes).2).dropLast := by
  have hlast : '\n' ∉ (splitAt '\n' (Utf8.feed .idle bytes).2).getLastD []
      ++ Utf8.finish (Utf8.feed .idle bytes).1 := by
    rw [List.mem_append, not_or]
    exact ⟨not_mem_getLastD_splitAt _ _, newline_not_mem_finish _⟩
  rw [Utf8.decode, splitAt_append, splitAt_eq_singleton hlast, List.dropLast_concat]

end Framing

/-! ## A process that comes up

Whether a process starts depends on the command, the timeout and the operating system. `Spawn` holds
what is known of one that does, so that what follows need not go through the ways in which it may
not. -/

/-- **A turn whose process starts**: the words of its command, its deadline, and what the child will
do. -/
structure Spawn (c : Client) (r : TurnRequest) (s : Script) where
  executor : Executor
  scripts : List Script
  later : List Script
  command : List String
  deadline : Deadline
  agent_eq : c.agent = .executable executor scripts
  takeScript_eq : takeScript scripts = (s, later)
  command_eq : executor.command r = .ok command
  deadline_eq : Deadline.ofTimeout r.timeout = .ok deadline
  refusal_eq : s.refusal = none

/-- A child that takes its prompt or refuses it, and does not keep its parent waiting. -/
structure Script.AnswersPrompt (s : Script) : Prop where
  hasPipes : s.hasPipes = true
  prompt_ne : s.prompt ≠ .ignored

/-- What a parent gets from such a child: all its lines, and its exit where output and process end.
-/
theorem Script.AnswersPrompt.ofScript_eq {s : Script} (hs : s.AnswersPrompt) (executable : String)
    (timeout : Value) (deadline : Deadline) :
    Delivery.ofScript executable timeout deadline s
      = if (({} : Framing).lines s.output).2 && s.exits then
          ⟨(({} : Framing).lines s.output).1, Delivery.exitFailure s, true⟩
        else
          ⟨(({} : Framing).lines s.output).1, some (silenceFailure timeout deadline), false⟩ := by
  obtain ⟨hpipes, hprompt⟩ := hs
  rw [Delivery.ofScript, hpipes]
  cases hp : s.prompt with
  | ignored => exact absurd hp hprompt
  | taken | broken | closed =>
    rcases ({} : Framing).lines s.output with ⟨lines, _ | _⟩
    · rfl
    · cases s.exits <;> rfl

namespace Spawn

variable {c : Client} {r : TurnRequest} {s : Script}

/-- What the parent gets from the child. -/
def delivery (p : Spawn c r s) : Delivery :=
  .ofScript p.executor.executable r.timeout p.deadline s

/-- What the turn has still to get. -/
def feed (p : Spawn c r s) : Feed :=
  ⟨p.delivery.lines, p.delivery.failure, p.delivery.exitSeen, c.journal.length⟩

/-- The client once the process has started. -/
def client (p : Spawn c r s) (schema : Option String) : Client :=
  { c with
    agent := .executable p.executor p.later
    journal := c.journal ++ [.process (Client.processRecord p.executor c.surroundings r p.command
      schema s)]
    log := c.log ++ Client.startLog p.command ++ Client.promptLog s }

/-- **A process that starts** has its delivery still to give, and is on record. -/
theorem launch_eq (p : Spawn c r s) (schema : Option String) :
    c.launch r schema = (.ok p.feed, p.client schema) := by
  simp only [Client.launch, p.agent_eq, Client.launchProcess, p.command_eq, p.deadline_eq,
    p.takeScript_eq, p.refusal_eq, Client.note]
  rfl

/-- Without a limit, all lines of the delivery are read. -/
theorem readLines_none (p : Spawn c r s) (schema : Option String) :
    (c.readLines r schema none).1 = p.delivery.lines := by
  simp only [Client.readLines, p.launch_eq schema, Client.readFeed]
  rfl

/-- The failure behind the lines of a delivery is what ends reading them. -/
theorem readLines_failed (p : Spawn c r s) (schema : Option String) {f : Failure}
    (hf : p.delivery.failure = some f) :
    (c.readLines r schema none).2.1 = .failed f := by
  simp only [Client.readLines, p.launch_eq schema, Client.readFeed, feed, hf]
  rfl

/-- **A reader that stops after some lines** has got the first ones of all. -/
theorem readLines_some (p : Spawn c r s) (schema : Option String) (n : Nat) :
    (c.readLines r schema (some n)).1 = p.delivery.lines.take n := by
  simp only [Client.readLines, p.launch_eq schema, Client.readFeed, Option.any_some,
    decide_eq_true_eq]
  rcases Nat.lt_or_ge p.delivery.lines.length n with h | h
  · rw [if_neg (show ¬ n ≤ p.feed.lines.length from Nat.not_le.mpr h)]
    exact (List.take_of_length_le (Nat.le_of_lt h)).symm
  · rw [if_pos (show n ≤ p.feed.lines.length from h)]
    rfl

/-- A child that answers its prompt gives the lines of its output. -/
theorem lines_delivery (p : Spawn c r s) (hs : s.AnswersPrompt) :
    p.delivery.lines = (({} : Framing).lines s.output).1 := by
  rw [delivery, hs.ofScript_eq]
  split <;> rfl

theorem failure_delivery_of_silence (p : Spawn c r s) (hs : s.AnswersPrompt)
    (hsilent : (({} : Framing).lines s.output).2 = false) :
    p.delivery.failure = some (silenceFailure r.timeout p.deadline) := by
  rw [delivery, hs.ofScript_eq, hsilent]
  rfl

/-- **An output that ends**, in whatever portions, gives the lines of its text. -/
theorem readLines_of_bytes (p : Spawn c r s) (hs : s.AnswersPrompt) (schema : Option String)
    {portions : List (List UInt8)} (hout : s.output = portions.map .bytes) :
    (c.readLines r schema none).1
      = (split '\n' (String.ofList (Utf8.decode portions.flatten))).filter
          fun l => strip l ≠ "" := by
  rw [p.readLines_none, p.lines_delivery hs, hout, Framing.lines_bytes List.not_mem_nil,
    Framing.carrying_eq_filter, split, String.toList_ofList]
  rfl

/-- **An output that falls silent** gives the lines of its text that a line feed has ended, and then
the turn fails. -/
theorem readLines_of_silence (p : Spawn c r s) (hs : s.AnswersPrompt) (schema : Option String)
    {portions : List (List UInt8)} {rest : List Chunk}
    (hout : s.output = portions.map .bytes ++ .silence :: rest) :
    (c.readLines r schema none).1
        = (split '\n' (String.ofList (Utf8.decode portions.flatten))).dropLast.filter
            (fun l => strip l ≠ "") ∧
      (c.readLines r schema none).2.1 = .failed (silenceFailure r.timeout p.deadline) := by
  have hlines := Framing.lines_silence (f := {}) List.not_mem_nil portions rest
  rw [← hout] at hlines
  refine ⟨?_, p.readLines_failed schema (p.failure_delivery_of_silence hs (by rw [hlines]))⟩
  rw [p.readLines_none, p.lines_delivery hs, hlines, Framing.carrying_eq_filter, split,
    String.toList_ofList, ← List.map_dropLast, Framing.dropLast_splitAt_decode]
  rfl

end Spawn

/-- **The lines of a process** are those of the text of its whole output, which its bytes alone
determine: how they were cut into portions shows nowhere.  A process that falls silent gives the
lines ended before, and a reader that stops gets the first ones. -/
theorem readLines_eq_split {c : Client} {r : TurnRequest} {s : Script} (p : Spawn c r s)
    (hs : s.AnswersPrompt) (schema : Option String) (portions : List (List UInt8)) :
    ∃ text, (∀ t, Utf8.Reads portions.flatten t ↔ t = text) ∧
      (s.output = portions.map .bytes →
        (c.readLines r schema none).1
            = (split '\n' (String.ofList text)).filter (fun l => strip l ≠ "") ∧
          ∀ {c' : Client} {r' : TurnRequest} {s' : Script} (_ : Spawn c' r' s')
            (_ : s'.AnswersPrompt) (schema' : Option String) (others : List (List UInt8)),
            s'.output = others.map .bytes → others.flatten = portions.flatten →
              (c'.readLines r' schema' none).1 = (c.readLines r schema none).1) ∧
      (∀ rest, s.output = portions.map .bytes ++ .silence :: rest →
        (c.readLines r schema none).1
            = (split '\n' (String.ofList text)).dropLast.filter (fun l => strip l ≠ "") ∧
          (c.readLines r schema none).2.1 = .failed (silenceFailure r.timeout p.deadline)) ∧
      ∀ n, (c.readLines r schema (some n)).1 = (c.readLines r schema none).1.take n := by
  refine ⟨Utf8.decode portions.flatten, fun t => Utf8.reads_iff_eq_decode, fun hout => ⟨?_, ?_⟩,
    fun rest hout => p.readLines_of_silence hs schema hout, fun n => ?_⟩
  · exact p.readLines_of_bytes hs schema hout
  · intro c' r' s' p' hs' schema' others hout' hflat
    rw [p'.readLines_of_bytes hs' schema' hout', p.readLines_of_bytes hs schema hout, hflat]
  · rw [p.readLines_some, p.readLines_none]

/-- A child whose portions end inside a character and inside a line, and whose last line breaks off
inside a character. -/
def brokenOutput : Script :=
  { output := [.bytes [0xC3], .bytes [0xA9, 0x0A, 0x20, 0x0A, 0x78], .bytes [0xE2, 0x82]] }

/-- A client that is about to run that child. -/
def brokenOutputClient : Client :=
  { surroundings := { environment := [], files := [], schemaDirectory := "/tmp/schemas" }
    options := {}
    agent := .executable ⟨"trill", none, [], .null, .null⟩ [brokenOutput] }

/-- The turn of that client, whose process starts. -/
def brokenOutputSpawn : Spawn brokenOutputClient {} brokenOutput where
  executor := ⟨"trill", none, [], .null, .null⟩
  scripts := [brokenOutput]
  later := []
  command := ["trill", "exec", "--experimental-json"]
  deadline := .never
  agent_eq := rfl
  takeScript_eq := rfl
  command_eq := rfl
  deadline_eq := rfl
  refusal_eq := rfl

/-- The character that was cut is read, the blank line dropped, the broken character replaced. -/
theorem readLines_brokenOutput :
    brokenOutput.AnswersPrompt ∧
      (brokenOutputClient.readLines {} none none).1 = ["é", "x\uFFFD"] ∧
      (brokenOutputClient.readLines {} none (some 1)).1 = ["é"] := by
  have hs : brokenOutput.AnswersPrompt := ⟨rfl, nofun⟩
  obtain ⟨text, htext, hends, -, hstops⟩ := readLines_eq_split brokenOutputSpawn hs none
    [[0xC3], [0xA9, 0x0A, 0x20, 0x0A, 0x78], [0xE2, 0x82]]
  have hlines := (hends rfl).1
  rw [← (htext _).mp (Utf8.reads_iff_eq_decode.mpr rfl)] at hlines
  have hall : (brokenOutputClient.readLines {} none none).1 = ["é", "x\uFFFD"] := by
    rw [hlines]
    decide +kernel
  exact ⟨hs, hall, by rw [hstops 1, hall]; rfl⟩

end AgentClient
