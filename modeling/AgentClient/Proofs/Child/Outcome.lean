import AgentClient.Proofs.Child.Lines
import AgentClient.Proofs.Executor.CommandParts

/-!
# Proofs/Child/Outcome — how the run of a process ends

A run may fail in six ways, and the first that applies decides: the process does not come up, it
comes up without pipes, it keeps its parent waiting with the prompt, with its output or with its
exit, or it exits with a code.  `Script.RunsTo` has one rule for each of them and one for a run
without failure. What a reader without a limit gets is what the rules say (`readLines_iff_runsTo`);
what became of the prompt, unless the process never took it, shows in none of them. -/

namespace AgentClient

open Text

namespace Text

end Text

/-! ## The rules

The rules are about the script alone and do not mention the reader. Texts are taken from bytes by
`Utf8.Reads`, which is a relation of its own and not the decoder that the reader runs. -/

namespace Script

/-- A process that comes up and then keeps its parent waiting somewhere. -/
structure KeepsWaiting (s : Script) : Prop where
  refusal_eq : s.refusal = none
  hasPipes : s.hasPipes = true
  waits : s.prompt = .ignored ∨ .silence ∈ s.output ∨ s.exits = false

variable {s : Script} {executable : String} {seconds : Value} {lines : List String}
  {fin : Client.LineEnd}

/-- An output is cut into portions up to its end, or up to where it falls silent. -/
theorem output_cases (output : List Chunk) :
    (∃ portions : List (List UInt8), output = portions.map .bytes) ∨
      ∃ (portions : List (List UInt8)) (rest : List Chunk),
        output = portions.map .bytes ++ .silence :: rest := by
  induction output with
  | nil => exact .inl ⟨[], rfl⟩
  | cons chunk output ih =>
    -- Up to the first silence there are only portions.
    cases chunk with
    | silence => exact .inr ⟨[], output, rfl⟩
    | bytes bytes =>
      rcases ih with ⟨portions, rfl⟩ | ⟨portions, rest, rfl⟩
      · exact .inl ⟨bytes :: portions, rfl⟩
      · exact .inr ⟨bytes :: portions, rest, rfl⟩

end Script

/-! ## What the parent gets

One case for each rule. The rules that end in a timeout need that the time may be up, which is the
hypothesis on `KeepsWaiting`; the others hold under any deadline. -/

namespace Spawn

variable {c : Client} {r : TurnRequest} {s : Script}

end Spawn

/-! ## Timeouts

A timeout that is no finite number of seconds is either refused before there is a process or never
comes up, so it is for finite ones only that a run is sure to end. -/

/-- A timeout of finitely many seconds. -/
inductive Value.IsFiniteSeconds : Value → Prop where
  | finite (negative : Bool) (significand : Nat) (exponent : Int) :
    IsFiniteSeconds (.float (.finite negative significand exponent))

/-- The timeout that an error reports: the one given, where zero of either sign is plain zero. -/
def Value.reportedSeconds : Value → Value
  | .float (.finite _ 0 _) => .int 0
  | v => v

theorem Deadline.ofTimeout_of_isFiniteSeconds {timeout : Value} (h : timeout.IsFiniteSeconds) :
    ofTimeout timeout = .ok .sometime := by
  cases h
  rfl

theorem silenceFailure_of_isFiniteSeconds {timeout : Value} (h : timeout.IsFiniteSeconds) :
    silenceFailure timeout .sometime = .client (.timeout timeout.reportedSeconds) := by
  obtain ⟨negative, significand, exponent⟩ := h
  cases significand <;> rfl

/-! ## The run of a client

A client starts the process itself and may fail at that. With options of the types that their
descriptions name it always has a command, so the system's refusal is the one way left not to start.
-/

/-- A timeout under which a run is decided: finitely many seconds, or none where nothing keeps the
parent waiting. -/
def Script.IsTimedBy (s : Script) (timeout : Value) : Prop :=
  timeout.IsFiniteSeconds ∨ timeout = .null ∧ ¬ s.KeepsWaiting

/-- There is a deadline, and where the child keeps its parent waiting it comes. -/
theorem Script.IsTimedBy.exists_deadline {s : Script} {timeout : Value} (h : s.IsTimedBy timeout) :
    ∃ deadline, Deadline.ofTimeout timeout = .ok deadline ∧
      (s.KeepsWaiting →
        silenceFailure timeout deadline = .client (.timeout timeout.reportedSeconds)) := by
  rcases h with h | ⟨rfl, h⟩
  · exact ⟨_, Deadline.ofTimeout_of_isFiniteSeconds h,
      fun _ => silenceFailure_of_isFiniteSeconds h⟩
  · exact ⟨.never, rfl, fun hwaits => absurd hwaits h⟩

namespace Client

variable {c : Client} {e : Executor} {scripts : List Script} {r : TurnRequest}

end Client

/-- A child that leaves its prompt behind, writes a line and a half, complains in bytes that are no
text, and exits with a code. -/
def complainingChild : Script :=
  { prompt := .broken
    output := [.bytes [0x78, 0x0A], .bytes [0x79]]
    errors := [0x6E, 0x6F, 0xFF]
    code := 3 }

/-- A client that is about to run a child. -/
def clientOfChild (s : Script) : Client :=
  { surroundings := { environment := [], files := [], schemaDirectory := "/tmp/schemas" }
    options := {}
    agent := .executable ⟨"trill", none, [], .null, .null⟩ [s] }

/-- A turn that may take half a second. -/
def halfSecond : TurnRequest :=
  { timeout := .float (.finite false 4503599627370496 (-53)) }

end AgentClient
