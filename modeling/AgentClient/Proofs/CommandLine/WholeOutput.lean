import AgentClient.Proofs.CommandLine.ConfigExit

/-!
# Proofs/CommandLine/WholeOutput — a turn puts its whole result on the output, or nothing

A turn whose events are not shown as they come has a result, or one failure, wherever that has come
up on the way (`turnOf`).  A result is on the output in full: as a text (`Outcome.ShowsText`), or as
a document that reads back as it (`Outcome.ShowsDocument`).  With a failure the output is empty, the
error stream ends with what the failure says, and the exit code is that of its kind
(`Outcome.FailsWith`).

Two things come between a result and the output (`showFault?`): a document is made of copies, and
the machine copies less deep than it reads; a text is written as UTF-8, and half of a surrogate pair
has no bytes there.  A turn that has such a result leaves the same behind as one that has failed. -/

namespace AgentClient

open Number

namespace Failure

/-- Whether a failure is about a process: it could not be started, or has exited with a code. -/
def isProcess : Failure → Bool
  | .client (.launch _) | .client (.exit ..) => true
  | _ => false

/-- Whether a failure is that of a turn out of time. -/
def isTimeout : Failure → Bool
  | .client (.timeout _) => true
  | _ => false

end Failure

namespace CommandLine

/-! ## The turn of a command line

`turnOf` leaves out the output format and all that is done with the result, so that it can be said
independently of them which turns have one. -/

/-- **The turn of a command line**: its result, with the id that the thread has then, or why there
is none. -/
def turnOf (w : World) (a : RunArguments) : Except Failure (Turn × Option WireText) :=
  match prepare w a with
  | .error f => .error f
  | .ok (schema, client) =>
    match (sceneOf client a).run (inputOf w a) (turnOptionsOf a schema) with
    | (.error f, _) => .error f
    | (.ok t, s) => .ok (t, s.thread.id)

/-! ## What the program leaves behind

There are three ways in which the program can end, and each is a predicate on what it leaves behind.
They say everything about the output and the exit code. Of the error stream they say only how it
ends, since the log stands in front of that. -/

/-- **A result shown as a text**: the final response as text and a line feed.  The text has bytes,
and no whole number in the response has too many digits for it. -/
structure Outcome.ShowsText (o : Outcome) (t : Turn) : Prop where
  code_eq : o.code = 0
  exists_text : ∃ text, t.finalResponse.asText = .plain text ∧ o.stdout = text ++ "\n"
  hasOverlong_eq : t.finalResponse.hasOverlong = false

/-- **A value shown as a document**, with a line feed behind it.  It reads back for whoever takes
halves of surrogate pairs and goes deep enough, if the texts of its floating-point numbers give them
back; it is nested two deeper at most than a line may be. -/
structure Outcome.ShowsDocument (o : Outcome) (v : Value) : Prop where
  code_eq : o.code = 0
  exists_document :
    ∃ document, Json.write (.indented 2) v = .ok document ∧ o.stdout = document ++ "\n"
  isDocument : v.IsDocument (Json.Dialect.wire.maxDepth + 2)
  read_eq : ∀ d : Json.Dialect, d.loneSurrogates = true → v.IsDocument d.maxDepth →
    (∀ x, .float x ∈ v.leaves → x.isFinite = true → readFloat? x.shortText = some x) →
      Json.read d o.stdout = .ok v

/-- **A failure**: the exit code tells its kind, nothing is on the output, and its message is the
last on the error stream. -/
structure Outcome.FailsWith (o : Outcome) (f : Failure) : Prop where
  code_eq : o.code
    = if f.isConfig then 2 else if f.isProcess then 3 else if f.isTimeout then 4 else 1
  stdout_eq : o.stdout = ""
  exists_stderr : ∃ front, o.stderr = front ++ (f.message ++ "\n")

theorem Outcome.FailsWith.code_ne_zero {o : Outcome} {f : Failure} (h : o.FailsWith f) :
    o.code ≠ 0 := by
  rw [h.code_eq]
  repeat' split
  all_goals decide

/-- The exit code of a failure is that of its kind, whether the client reports it or lets it
through. -/
theorem exitCodeOf_eq (f : Failure) :
    exitCodeOf f
      = if f.isConfig then 2 else if f.isProcess then 3 else if f.isTimeout then 4 else 1 := by
  cases f with
  | client error =>
    cases error <;>
      simp [exitCodeOf, ClientError.exitCode, Failure.isConfig, Failure.isProcess,
        Failure.isTimeout]
  | fault f => simp [exitCodeOf, Failure.isConfig, Failure.isProcess, Failure.isTimeout]

/-- The error stream ends with the message of a failure, whatever is before it. -/
theorem exists_failureLine (front : String) (f : Failure) :
    ∃ front', front ++ failureLine f = front' ++ (f.message ++ "\n") := by
  have hword : ∃ word, failureLine f = word ++ (f.message ++ "\n") := by
    cases f with
    | client error => exact ⟨"Error: ", String.append_assoc⟩
    | fault f => exact ⟨"Unexpected error: ", String.append_assoc⟩
  obtain ⟨word, hline⟩ := hword
  exact ⟨front ++ word, by rw [hline, String.append_assoc]⟩

/-- A document reads back with its line feed. -/
theorem read_documentLine {d : Json.Dialect} {s : Json.Spacing} {v : Value} {document : String}
    (hwrite : Json.write s v = .ok document) (hlone : d.loneSurrogates = true)
    (hdocument : v.IsDocument d.maxDepth)
    (hfloats : ∀ x, .float x ∈ v.leaves → x.isFinite = true → readFloat? x.shortText = some x) :
    Json.read d (document ++ "\n") = .ok v := by
  have hgap : Json.AreGaps "\n".toList := List.forall_mem_singleton.mpr rfl
  refine Json.read_written hdocument (fun leaf hleaf => ?_) hwrite hgap
  cases leaf with
  | float x => exact hfloats x hleaf
  | broken points => exact hlone
  | _ => trivial

section

variable {w : World} {words : List String} {a : RunArguments}

/-! ## The program

Everything that may fail comes before the one place at which something is put on the output. So
there are two cases, the result that is shown and a failure from anywhere, and no part of a result
is ever on the output alone. -/

/-- **A turn without a result** leaves its failure behind, and nothing else. -/
theorem failsWith_of_turnOf (hwords : invocation words = .ok (.run a))
    (hformat : a.output ≠ .stream)
    {f : Failure} (h : turnOf w a = .error f) : (run w words).FailsWith f := by
  rw [turnOf] at h
  -- The client cannot be made, or the turn fails.
  cases hprepare : prepare w a with
  | error f' =>
    rw [hprepare] at h
    obtain rfl := Except.error.inj h
    rw [run_of_prepare_error hwords hprepare]
    refine ⟨exitCodeOf_eq f', rfl, ?_⟩
    rw [failed, ← String.empty_append (s := failureLine f')]
    exact exists_failureLine "" f'
  | ok p =>
    obtain ⟨schema, client⟩ := p
    rw [hprepare] at h
    dsimp only at h
    rcases hran : (sceneOf client a).run (inputOf w a) (turnOptionsOf a schema) with ⟨f' | t, s⟩
    · rw [hran] at h
      obtain rfl := Except.error.inj h
      have hshown := (shownTurn_of_ne_stream hformat).trans
        (wholeTurn_of_run_error hran w.surroundings.copyLimits a.output)
      rw [run_of_prepare hwords hprepare hshown]
      exact ⟨exitCodeOf_eq f', rfl, exists_failureLine _ f'⟩
    · rw [hran] at h
      cases h

variable {t : Turn} {threadId : Option WireText}

/-- What a turn with a result leaves behind is what showing the result leaves. -/
theorem exists_wholeTurn_of_turnOf (hwords : invocation words = .ok (.run a))
    (hformat : a.output ≠ .stream) (h : turnOf w a = .ok (t, threadId)) :
    t.HoldsDocuments Json.Dialect.wire.maxDepth ∧ (∀ id ∈ threadId, id.IsJoined) ∧
      (∀ f, showFault? w.surroundings.copyLimits a.output t = some f →
        (run w words).FailsWith (.fault f)) ∧
      (showFault? w.surroundings.copyLimits a.output t = none →
        (run w words).code = 0 ∧
        ∃ shown, showTurn w.surroundings.copyLimits a.output t threadId = .ok shown ∧
          (run w words).stdout = shown.stdout) := by
  rw [turnOf] at h
  cases hprepare : prepare w a with
  | error f =>
    rw [hprepare] at h
    cases h
  | ok p =>
    obtain ⟨schema, client⟩ := p
    rw [hprepare] at h
    dsimp only at h
    rcases hran : (sceneOf client a).run (inputOf w a) (turnOptionsOf a schema) with ⟨f | t', s⟩
    · rw [hran] at h
      cases h
    · rw [hran] at h
      obtain ⟨rfl, rfl⟩ := Prod.mk.inj (Except.ok.inj h)
      -- What the turn holds is made of the wire, so only its depth and its broken texts may be in
      -- the way of showing it.
      have hreadable : (sceneOf client a).thread.HasReadableId := hasReadableId_threadOf a
      have hmodel := model_eq_none hprepare
      obtain ⟨hholds, hid⟩ := holdsDocuments_run hreadable hmodel hran
      refine ⟨hholds, hid, fun f hf => ?_, fun hnone => ?_⟩
      · have hwhole := wholeTurn_of_showFault hreadable hmodel hran hf
        rw [run_of_prepare hwords hprepare ((shownTurn_of_ne_stream hformat).trans hwhole)]
        exact ⟨exitCodeOf_eq (.fault f), rfl, exists_failureLine _ (.fault f)⟩
      · obtain ⟨shown, hshow, hwhole⟩ := exists_wholeTurn_of_run hreadable hmodel hran hnone
        rw [run_of_prepare hwords hprepare ((shownTurn_of_ne_stream hformat).trans hwhole)]
        exact ⟨rfl, shown, hshow, rfl⟩

/-- In the text format the answer is shown, with a newline behind it. -/
theorem showsText_of_turnOf (hwords : invocation words = .ok (.run a)) (hformat : a.output = .text)
    (h : turnOf w a = .ok (t, threadId))
    (hnone : showFault? w.surroundings.copyLimits a.output t = none) :
    (run w words).ShowsText t := by
  obtain ⟨hholds, -, -, hshows⟩ := exists_wholeTurn_of_turnOf hwords (hformat ▸ nofun) h
  obtain ⟨hcode, shown, hshow, hout⟩ := hshows hnone
  rw [hformat] at hnone hshow
  have htext : textFault? t.finalResponse = none := hnone
  rw [showTurn_of_ne_json (by decide), textLine_asText, htext] at hshow
  obtain rfl := Except.ok.inj hshow
  refine ⟨hcode, ⟨_, ?_, hout⟩, hholds.finalResponse.hasOverlong_eq_false⟩
  -- An answer that can be shown has a text without a lone half of a pair.
  cases hv : t.finalResponse with
  | broken points =>
    rw [hv] at htext
    cases htext
  | _ => rfl

/-- In the document format the summary is shown. -/
theorem showsDocument_of_turnOf (hwords : invocation words = .ok (.run a))
    (hformat : a.output = .json)
    (h : turnOf w a = .ok (t, threadId))
    (hnone : showFault? w.surroundings.copyLimits a.output t = none) :
    (run w words).ShowsDocument (summary t threadId) := by
  obtain ⟨hholds, hid, -, hshows⟩ := exists_wholeTurn_of_turnOf hwords (hformat ▸ nofun) h
  obtain ⟨hcode, shown, hshow, hout⟩ := hshows hnone
  have hdocument := isDocument_summary hholds hid
  obtain ⟨document, hwrite⟩ := Json.exists_writeAt (s := .indented 2) hdocument 0
  have hwritten : Json.write (.indented 2) (summary t threadId) = .ok document := hwrite
  -- No item is too deep, so the document is that of the summary.
  have hstdout : (run w words).stdout = document ++ "\n" := by
    rw [hformat, showFault?] at hnone
    rw [hformat, showTurn, turnDocument_eq hholds.parsed, hnone] at hshow
    dsimp only [bind, Except.bind] at hshow
    rw [documentLine, hwritten] at hshow
    rw [hout, ← Except.ok.inj hshow]
  refine ⟨hcode, ⟨document, hwritten, hstdout⟩, hdocument, fun d hlone hd hfloats => ?_⟩
  rw [hstdout]
  exact read_documentLine hwritten hlone hd hfloats

/-- **A turn on the command line shows its whole result or nothing.**  The exit code is 0 just if
the turn has a result that can be shown.  It is then on the output, as a text or as a document.
Otherwise nothing is on the output, whatever has failed, the turn or showing its result: the exit
code tells the kind of the failure, and the error stream ends with what it says. -/
theorem run_shows_all_or_nothing (hwords : invocation words = .ok (.run a))
    (hformat : a.output ≠ .stream) :
    ((run w words).code = 0 ↔ ∃ t threadId, turnOf w a = .ok (t, threadId) ∧
        showFault? w.surroundings.copyLimits a.output t = none) ∧
      (∀ t threadId, turnOf w a = .ok (t, threadId) →
        match showFault? w.surroundings.copyLimits a.output t with
        | some f => (run w words).FailsWith (.fault f)
        | none =>
          (a.output = .text → (run w words).ShowsText t) ∧
          (a.output = .json → (run w words).ShowsDocument (summary t threadId))) ∧
      ∀ f, turnOf w a = .error f → (run w words).FailsWith f := by
  -- A code of zero leaves neither of the two ways to fail.
  refine ⟨⟨fun hcode => ?_, ?_⟩, fun t threadId h => ?_,
    fun f h => failsWith_of_turnOf hwords hformat h⟩
  · cases h : turnOf w a with
    | error f => exact absurd hcode (failsWith_of_turnOf hwords hformat h).code_ne_zero
    | ok p =>
      refine ⟨p.1, p.2, rfl, Option.eq_none_iff_forall_ne_some.mpr fun f hf => ?_⟩
      exact ((exists_wholeTurn_of_turnOf hwords hformat h).2.2.1 f hf).code_ne_zero hcode
  · rintro ⟨t, threadId, h, hnone⟩
    exact ((exists_wholeTurn_of_turnOf hwords hformat h).2.2.2 hnone).1
  · cases hf : showFault? w.surroundings.copyLimits a.output t with
    | some f => exact (exists_wholeTurn_of_turnOf hwords hformat h).2.2.1 f hf
    | none =>
      exact ⟨fun htext => showsText_of_turnOf hwords htext h hf,
        fun hjson => showsDocument_of_turnOf hwords hjson h hf⟩

end

/-! ### A child that answers, and one that reports a failure

The answer is a list that holds a letter with an accent and a number, so that a text and a document
show it differently. -/

/-- A child that announces the conversation, writes an answer and counts tokens. -/
def answeringChild : Script :=
  let answer := "\x7b\"type\":\"item.completed\",\"item\":\x7b\"id\":\"m\",\"type\":\"agent_message\","
    ++ "\"text\":[\"é\",-1]\x7d\x7d"
  let output := Text.join "\n" [announcingLine, answer, "\x7b\"type\":\"turn.completed\"\x7d"]
  { output := [.bytes output.toUTF8.data.toList] }

/-- A host with an executable, whose process will do so. -/
def hostOfAnsweringChild : World :=
  { hostOfBrokenChild with scripts := [answeringChild] }

/-- The result of its turn. -/
def answeredTurn : Turn :=
  { items := [.agentMessage (.plain "m") (.list [.str "é", .int (-1)])]
    finalResponse := .list [.str "é", .int (-1)]
    usage := some ⟨0, 0, 0⟩ }

/-- The answer is shown as a text, and as a document that is read back as it; the failure is only on
the error stream. -/
theorem outputs_of_children :
    (run hostOfAnsweringChild (formatWords .text)).stdout = "['é', -1]\n" ∧
      Json.read ⟨1002, true⟩ (run hostOfAnsweringChild (formatWords .json)).stdout
        = .ok (summary answeredTurn (some (.plain "é\n"))) ∧
      (run hostOfReportingChild (formatWords .json)).stdout = "" ∧
      (run hostOfReportingChild (formatWords .json)).code = 1 ∧
      ∃ front, (run hostOfReportingChild (formatWords .json)).stderr = front ++ "boom\n" := by
  have hwords : ∀ format, invocation (formatWords format)
      = .ok (.run { streamArguments with output := format }) := by
    intro format
    cases format <;> decide +kernel
  have hanswered : ∀ format, turnOf hostOfAnsweringChild { streamArguments with output := format }
      = .ok (answeredTurn, some (.plain "é\n")) := by
    intro format
    cases format <;> decide +kernel
  have hreported : turnOf hostOfReportingChild { streamArguments with output := .json }
      = .error (.client (.turnFailed (.plain "boom") none)) := by
    decide +kernel
  have hplain : (summary answeredTurn (some (.plain "é\n"))).isPlain = true := by decide +kernel
  have htext := (run_shows_all_or_nothing (hwords .text) nofun).2.1 _ _ (hanswered .text)
  have hjson := (run_shows_all_or_nothing (hwords .json) nofun).2.1 _ _ (hanswered .json)
  have hfails := (run_shows_all_or_nothing (hwords .json) nofun).2.2 _ hreported
  have hshown : answeredTurn.finalResponse.asText = .plain "['é', -1]" := by decide +kernel
  refine ⟨?_, ?_, hfails.stdout_eq, hfails.code_eq, hfails.exists_stderr⟩
  · obtain ⟨text, htext, hstdout⟩ := (htext.1 rfl).exists_text
    rw [hstdout, ← WireText.plain.inj (hshown.symm.trans htext)]
    rfl
  · exact (hjson.2 rfl).read_eq ⟨1002, true⟩ rfl (hjson.2 rfl).isDocument
      fun x hx => Value.isRestored_of_mem_leaves ⟨1002, true⟩ _ hplain _ hx

/-! ### A child that answers with half of a surrogate pair

JSON can escape such a half and print it again, so the turn has a result and the document shows it.
-/

/-- A child that writes such an answer. -/
def halfPairChild : Script :=
  let line := "\x7b\"type\":\"item.completed\",\"item\":\x7b\"id\":\"m\",\"type\":\"agent_message\","
    ++ "\"text\":\"\\ud800\"\x7d\x7d\n"
  { output := [.bytes line.toUTF8.data.toList] }

/-- A host with an executable, whose process will do so. -/
def hostOfHalfPairChild : World :=
  { hostOfBrokenChild with scripts := [halfPairChild] }

/-- The turn has a result, and the document shows it; as a text it has no bytes. -/
theorem code_halfPairChild :
    (∀ format, (turnOf hostOfHalfPairChild { streamArguments with output := format }).isOk = true) ∧
      (run hostOfHalfPairChild (formatWords .json)).code = 0 ∧
      (run hostOfHalfPairChild (formatWords .text)).code = 1 ∧
      (run hostOfHalfPairChild (formatWords .text)).stdout = "" ∧
      (run hostOfHalfPairChild (formatWords .text)).stderr
        = "Unexpected error: 'utf-8' codec can't encode character '\\ud800' in position 0: "
          ++ "surrogates not allowed\n" := by
  refine ⟨fun format => ?_, ?_⟩
  · cases format <;> decide +kernel
  · decide +kernel

end CommandLine

end AgentClient
