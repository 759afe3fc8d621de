import AgentClient.Proofs.Conversation.Started
import AgentClient.Proofs.Value.Showing

/-!
# Proofs/Conversation/Prompt — what an input comes to, however it is interleaved

The texts of an input make its prompt and the images are handed on, each in their order; how the two
are interleaved does not matter (`Input.Splits`).  An entry that is neither is refused and named, if
it can be shown at all (`Input.Refuses`).  A process gets the prompt of its turn, if it takes one,
whether the turn belongs to a session (`Session.Sends`) or to the program (`CommandLine.Sends`).
The three are put together in `sent_of_any_interleaving`; an entry that is refused without being
named is the subject of `normalize_overlong_entry`. -/

namespace AgentClient

/-! ## The entries of an input

What an input comes to is read off two subsequences of its entries, the texts and the images.
Neither says how the other is placed between, and that is all there is to the interleaving. -/

namespace InputEntry

/-- The text that an entry is. -/
def text? : InputEntry → Option String
  | .text s => some s
  | _ => none

/-- The image that an entry is. -/
def image? : InputEntry → Option Value
  | .image path => some path
  | _ => none

/-- An entry that is a text or an image. -/
def IsKnown : InputEntry → Prop
  | .other _ => False
  | _ => True

end InputEntry

namespace Input

/-- The texts among entries, in their order. -/
def texts (items : List InputEntry) : List String :=
  items.filterMap InputEntry.text?

/-- The images among entries, in their order. -/
def images (items : List InputEntry) : List Value :=
  items.filterMap InputEntry.image?

/-- The texts with a blank line between neighbours. -/
def promptOf (items : List InputEntry) : String :=
  Text.join "\n\n" (texts items)

variable {items items' before after : List InputEntry} {v : Value} {given : String × List Value}
  {depth : Nat}

theorem texts_append (items items' : List InputEntry) :
    texts (items ++ items') = texts items ++ texts items' :=
  List.filterMap_append

theorem collect_of_known (h : ∀ e ∈ items, e.IsKnown) :
    collect depth items = .ok (texts items, images items) := by
  induction items with
  | nil => rfl
  | cons e items ih =>
    obtain ⟨he, hitems⟩ := List.forall_mem_cons.mp h
    cases e with
    | text s | image path =>
      rw [collect, ih hitems]
      rfl
    | other v => exact he.elim

/-- The first entry that is neither a text nor an image is what collecting fails for. -/
theorem collect_of_split (h : ∀ e ∈ before, e.IsKnown) :
    collect depth (before ++ .other v :: after) = .error (.fault (entryFault depth v)) := by
  induction before with
  | nil => rfl
  | cons e before ih =>
    obtain ⟨he, hbefore⟩ := List.forall_mem_cons.mp h
    cases e with
    | text s | image path =>
      rw [List.cons_append, collect, ih hbefore]
      rfl
    | other w => exact he.elim

/-- Entries are all known, or there is a first one that is not. -/
theorem known_or_exists_split (items : List InputEntry) :
    (∀ e ∈ items, e.IsKnown) ∨
      ∃ before v after, items = before ++ .other v :: after ∧ ∀ e ∈ before, e.IsKnown := by
  induction items with
  | nil => exact .inl nofun
  | cons e items ih =>
    cases e with
    | other v => exact .inr ⟨[], v, items, rfl, nofun⟩
    | text s | image path =>
      rcases ih with h | ⟨before, v, after, rfl, h⟩
      · exact .inl (List.forall_mem_cons.mpr ⟨trivial, h⟩)
      · exact .inr ⟨_ :: before, v, after, rfl, List.forall_mem_cons.mpr ⟨trivial, h⟩⟩

theorem normalize_of_known (h : ∀ e ∈ items, e.IsKnown) :
    (entries items).normalizeAt depth = .ok (promptOf items, images items) := by
  rw [normalizeAt, collect_of_known h]
  rfl

theorem normalize_of_split (h : ∀ e ∈ before, e.IsKnown) :
    (entries (before ++ .other v :: after)).normalizeAt depth
      = .error (.fault (entryFault depth v)) := by
  rw [normalizeAt, collect_of_split h]
  rfl

/-- **An input is taken just if all its entries are texts and images**, and then it comes to its
texts and to its images. -/
theorem normalize_eq_ok_iff :
    (entries items).normalizeAt depth = .ok given ↔
      (∀ e ∈ items, e.IsKnown) ∧ given = (promptOf items, images items) := by
  rcases known_or_exists_split items with h | ⟨before, v, after, rfl, h⟩
  · rw [normalize_of_known h, Except.ok.injEq, eq_comm]
    exact (and_iff_right h).symm
  · rw [normalize_of_split h]
    refine iff_of_false nofun fun hknown => ?_
    exact hknown.1 (.other v) (List.mem_append_right _ List.mem_cons_self)

end Input

/-- **Parts of a text on either side** are put together by themselves, with one separator more. -/
theorem Text.join_append (sep : String) {xs ys : List String} (hx : xs ≠ []) (hy : ys ≠ []) :
    join sep (xs ++ ys) = join sep xs ++ sep ++ join sep ys := by
  induction xs with
  | nil => exact absurd rfl hx
  | cons x xs ih =>
    -- The separator stands behind the last of the first texts, so the one before it is told apart.
    cases xs with
    | nil =>
      obtain ⟨y, ys, rfl⟩ := List.exists_cons_of_ne_nil hy
      rfl
    | cons x' xs =>
      have hrest := ih (List.cons_ne_nil _ _)
      rw [List.cons_append] at hrest
      rw [List.cons_append, List.cons_append, join, hrest, join]
      simp only [String.append_assoc]

namespace Input

/-- **The prompt of entries one after another**: both prompts with a blank line between them if
there is a text on either side, and else the prompt of the side that has one. -/
theorem promptOf_append (items items' : List InputEntry) :
    promptOf (items ++ items')
      = if texts items = [] then promptOf items'
        else if texts items' = [] then promptOf items
        else promptOf items ++ "\n\n" ++ promptOf items' := by
  rw [promptOf, texts_append]
  split
  · next h => rw [h, List.nil_append, promptOf]
  · next h =>
    split
    · next h' => rw [h', List.append_nil, promptOf]
    · next h' => exact Text.join_append _ h h'

/-! ## What is sent

A child is sent the prompt of the request as it starts (`Client.Starts`), so all that is to be shown
is that the prompt is the text that the input says. -/

/-- An input whose only text is this one. -/
inductive Says (s : String) : Input → Prop
  | text : Says s (.text s)
  | entries {items : List InputEntry} (h : texts items = [s]) : Says s (.entries items)

theorem Says.prompt_eq {s : String} {input : Input} (h : input.Says s)
    (hgiven : input.normalize = .ok given) : given.1 = s := by
  cases h with
  | text => exact congrArg Prod.fst (Except.ok.inj hgiven).symm
  | entries htexts =>
    rw [(normalize_eq_ok_iff.mp hgiven).2, promptOf, htexts]
    rfl

end Input

/-- Whether a child takes the prompt that it is sent. -/
def Script.takesPrompt (s : Script) : Bool :=
  s.hasPipes && s.prompt = .taken

/-- The bytes of the prompt, if the process has taken it. -/
def ProcessRecord.promptBytes (p : ProcessRecord) : Option (List UInt8) :=
  p.prompt.map fun s => s.toList.flatMap String.utf8EncodeChar

/-- **A process that was sent this text** and nothing else, if its child takes it. -/
def ProcessRecord.WasSent (p : ProcessRecord) (child : Script) (s : String) : Prop :=
  p.promptBytes = if child.takesPrompt then some (s.toList.flatMap String.utf8EncodeChar) else none

/-- **A process that a turn starts** is sent the text that the input says. -/
theorem Accepted.wasSent {s : Scene} {input : Input} {options : TurnOptions} {text : String}
    {p : ProcessRecord} {e : Executor} {scripts : List Script} (a : Accepted s input options)
    (hmeans : input.Says text) (hagent : s.client.agent = .executable e scripts)
    (hp : s.client.Starts a.request a.schemaText p.atStart) :
    p.WasSent (takeScript scripts).1 text := by
  obtain ⟨e', scripts', command, hagent', -, hp⟩ := hp
  obtain ⟨rfl, rfl⟩ := Agent.executable.inj (hagent.symm.trans hagent')
  have hprompt : p.prompt
      = if (takeScript scripts).1.takesPrompt then some a.request.prompt else none :=
    congrArg ProcessRecord.prompt hp
  have htext : a.request.prompt = text := hmeans.prompt_eq a.normalize_eq
  rw [ProcessRecord.WasSent, ProcessRecord.promptBytes, hprompt, htext]
  -- A child that takes no prompt is sent none.
  cases (takeScript scripts).1.takesPrompt <;> rfl

namespace Session

variable {s : Session} {x : Step} {t : Thread} {input : Input} {options : TurnOptions}

theorem called_eq (h : s.begins? x = some (t, input, options)) :
    s.called x = (s.scene t).called input options := by
  rw [called, h]

/-- A turn with an entry that is neither a text nor an image adds no call. -/
theorem called_of_split {before after : List InputEntry} {v : Value}
    (h : s.begins? x = some (t, .entries (before ++ .other v :: after), options))
    (hbefore : ∀ e ∈ before, e.IsKnown) : s.called x = [] := by
  refine List.eq_nil_iff_forall_not_mem.mpr fun call hcall => ?_
  rw [called_eq h] at hcall
  obtain ⟨a, -⟩ := Scene.exists_accepted_of_mem_called hcall
  exact absurd (a.normalize_eq.symm.trans (Input.normalize_of_split hbefore)) nofun

/-- The process of a turn is sent the text that its input says. -/
theorem wasSent_of_mem_called {text : String} {e : Executor} {scripts : List Script}
    {p : ProcessRecord} (h : s.begins? x = some (t, input, options)) (hmeans : input.Says text)
    (hagent : s.client.agent = .executable e scripts) (hp : .process p ∈ s.called x) :
    p.WasSent (takeScript scripts).1 text := by
  rw [called_eq h] at hp
  obtain ⟨a, hstarted⟩ := Scene.exists_accepted_of_mem_called hp
  exact a.wasSent hmeans hagent hstarted

/-- A turn whose process comes up has it for its call. -/
theorem exists_called_eq (h : s.begins? x = some (t, input, options))
    (a : Accepted (s.scene t) input options) {child : Script}
    (hspawn : Nonempty (Spawn s.client a.request child)) : ∃ p, s.called x = [.process p] := by
  obtain ⟨spawn⟩ := hspawn
  rw [called_eq h, Scene.called_of_accepted a]
  exact ⟨_, Client.called_of_spawn spawn a.schemaText⟩

end Session

namespace CommandLine

variable {w : World} {words : List String} {a : RunArguments}

/-- The input of the program says its prompt, with any images. -/
theorem says_inputOf (w : World) (a : RunArguments) : (inputOf w a).Says (promptOf w a) := by
  rw [inputOf]
  split
  · exact .text
  · refine .entries ?_
    have himages : (a.images.map InputEntry.image).filterMap InputEntry.text? = [] := by
      simp [InputEntry.text?]
    exact congrArg (promptOf w a :: ·) himages

/-- The process of the program is sent its prompt. -/
theorem wasSent_of_mem_journal (hwords : invocation words = .ok (.run a)) {p : ProcessRecord}
    (hp : .process p ∈ (run w words).journal) :
    p.WasSent (takeScript w.scripts).1 (promptOf w a) := by
  obtain ⟨schema, c, hprepare, turn, hstarted⟩ := exists_starts_of_mem_journal hwords hp
  obtain ⟨o, -, hc⟩ := exists_ofOptions_of_prepare hprepare
  obtain ⟨e, -, hagent⟩ := Client.exists_agent_of_ofOptions hc
  exact turn.wasSent (says_inputOf w a) hagent hstarted

/-- A turn of the program whose process comes up leaves it in the journal. -/
theorem exists_process_mem_journal (hwords : invocation words = .ok (.run a)) {schema : Value}
    {c : Client} (hprepare : prepare w a = .ok (schema, c))
    (turn : Accepted (sceneOf c a) (inputOf w a) (turnOptionsOf a schema)) {child : Script}
    (hspawn : Nonempty (Spawn c turn.request child)) :
    ∃ p, .process p ∈ (run w words).journal := by
  obtain ⟨spawn⟩ := hspawn
  have hcalled := Client.called_of_spawn spawn turn.schemaText
  have hgains := gains_run hwords hprepare
  rw [Scene.called_of_accepted turn, show (sceneOf c a).client = c from rfl, hcalled] at hgains
  exact hgains.exists_process (List.mem_singleton_self _)

end CommandLine

/-! ## How an input splits

An entry is named by showing it, and showing can fail in the two ways of `Value.displayObstacle?`.
-/

/-- **How a value that is neither a text nor an image is refused.**  It is named.  Only where it
cannot be shown, since a number in it has too many digits or it is nested deeper than calls may go,
the refusal is of another kind and says that instead. -/
inductive Input.Refuses (depth : Nat) (v : Value) (fault : Fault) : Prop
  | named (hshort : v.hasOverlong = false) (hflat : v.nesting ≤ depth) (hkind : fault.kind = .type)
    (htext : fault.text = "Unsupported input entry: " ++ v.display)
  | overlong (hlong : v.hasOverlong = true) (hkind : fault.kind = .value)
  | nested (hdeep : depth < v.nesting) (hkind : fault.kind = .recursion)

theorem Input.refuses_entryFault (depth : Nat) (v : Value) :
    Refuses depth v (entryFault depth v) := by
  have hobstacle := Value.isObstacle_displayObstacle? v depth
  rw [entryFault]
  generalize v.displayObstacle? depth = o at hobstacle ⊢
  cases hobstacle with
  | clear hshort hflat => exact .named hshort hflat rfl rfl
  | overlong hlong => exact .overlong hlong rfl
  | nested hdeep => exact .nested hdeep rfl

/-- **How a list of entries splits** into a prompt and images. -/
structure Input.Splits (depth : Nat) (items : List InputEntry) : Prop where
  taken_iff : (∃ given, (entries items).normalizeAt depth = .ok given) ↔ ∀ e ∈ items, e.IsKnown
  given_eq : ∀ given, (entries items).normalizeAt depth = .ok given →
    given = (Text.join "\n\n" (texts items), images items)
  /-- The first entry that is neither a text nor an image is the one that is refused. -/
  refused : ∀ before v after, items = before ++ .other v :: after → (∀ e ∈ before, e.IsKnown) →
    ∃ fault, (entries items).normalizeAt depth = .error (.fault fault) ∧ Refuses depth v fault
  no_call : ∀ v, .other v ∈ items → ∀ (s : Session) (x : Step) (t : Thread) (options : TurnOptions),
    s.begins? x = some (t, .entries items, options) →
      Journal.Gains s.client.journal (s.step x).2.client.journal []
  eq_of_same : ∀ items' given given', (entries items).normalizeAt depth = .ok given →
    (entries items').normalizeAt depth = .ok given' →
      texts items' = texts items → images items' = images items → given' = given
  append : ∀ items' given given', (entries items).normalizeAt depth = .ok given →
    (entries items').normalizeAt depth = .ok given' →
      ∃ both, (entries (items ++ items')).normalizeAt depth = .ok both ∧
        both.1 = if texts items = [] then given'.1
          else if texts items' = [] then given.1 else given.1 ++ "\n\n" ++ given'.1

/-- The parts of `Splits` hold at every depth. -/
theorem Input.splits (depth : Nat) (items : List InputEntry) : Splits depth items where
  taken_iff := by
    constructor
    · rintro ⟨given, hgiven⟩
      exact (normalize_eq_ok_iff.mp hgiven).1
    · exact fun h => ⟨_, normalize_of_known h⟩
  given_eq _ hgiven := (normalize_eq_ok_iff.mp hgiven).2
  refused := by
    rintro before v after rfl hbefore
    exact ⟨_, normalize_of_split hbefore, refuses_entryFault depth v⟩
  no_call v hv s x t options hbegins := by
    rcases known_or_exists_split items with hknown | ⟨before, v', after, rfl, hbefore⟩
    · exact (hknown _ hv).elim
    · exact Session.called_of_split hbegins hbefore ▸ s.gains_step x
  eq_of_same items' given given' hgiven hgiven' htexts himages := by
    rw [(normalize_eq_ok_iff.mp hgiven).2, (normalize_eq_ok_iff.mp hgiven').2, promptOf, htexts,
      himages]
    rfl
  append items' given given' hgiven hgiven' := by
    obtain ⟨hknown, rfl⟩ := normalize_eq_ok_iff.mp hgiven
    obtain ⟨hknown', rfl⟩ := normalize_eq_ok_iff.mp hgiven'
    have hboth := List.forall_mem_append.mpr ⟨hknown, hknown'⟩
    exact ⟨_, normalize_of_known hboth, promptOf_append items items'⟩

/-! ## Who sends what

A session and the program reach the agent by different ways, and for either the two halves are the
same: what a process that is there was sent, and that there is one if it comes up. -/

/-- **A step of a session that begins a turn sends this text** to the process that it starts. -/
structure Session.Sends (s : Session) (x : Step) (t : Thread) (input : Input)
    (options : TurnOptions)
    (text : String) : Prop where
  gains : Journal.Gains s.client.journal (s.step x).2.client.journal (s.called x)
  sent : ∀ e scripts, s.client.agent = .executable e scripts → ∀ p, .process p ∈ s.called x →
    p.WasSent (takeScript scripts).1 text
  started : ∀ (a : Accepted (s.scene t) input options) (child : Script),
    Nonempty (Spawn s.client a.request child) → ∃ p, s.called x = [.process p]

/-- A step that begins a turn sends its text. -/
theorem Session.sends_of_begins {s : Session} {x : Step} {t : Thread} {input : Input}
    {options : TurnOptions} {text : String} (hmeans : input.Says text)
    (hbegins : s.begins? x = some (t, input, options)) : s.Sends x t input options text where
  gains := s.gains_step x
  sent _ _ hagent _ hp := s.wasSent_of_mem_called hbegins hmeans hagent hp
  started a _ hspawn := exists_called_eq hbegins a hspawn

namespace CommandLine

/-- **The program sends this text** to the process that it starts. -/
structure Sends (w : World) (words : List String) (a : RunArguments) (text : String) : Prop where
  sent : ∀ p, .process p ∈ (run w words).journal → p.WasSent (takeScript w.scripts).1 text
  started : ∀ schema c, prepare w a = .ok (schema, c) →
    ∀ (turn : Accepted (sceneOf c a) (inputOf w a) (turnOptionsOf a schema)) (child : Script),
      Nonempty (Spawn c turn.request child) → ∃ p, .process p ∈ (run w words).journal

theorem sends_promptOf {w : World} {words : List String} {a : RunArguments}
    (hwords : invocation words = .ok (.run a)) : Sends w words a (promptOf w a) where
  sent _ := wasSent_of_mem_journal hwords
  started _ _ hprepare turn _ := exists_process_mem_journal hwords hprepare turn

end CommandLine

/-- **The interleaving of an input does not matter.**  Entries are taken just if all of them are
texts and images; otherwise the first that is neither is refused by its name, if it can be shown,
and no call is added.  Entries with the same texts and the same images come to the same; the images
are handed on, and the prompt of entries one after another is made of the two prompts, as far as
there are texts.  So a turn that is given a text, by itself or as its only text entry, and a program
whose prompt it is, send it to the child as it is, if the child takes it. -/
theorem sent_of_any_interleaving (depth : Nat) (items : List InputEntry) (text : String) :
    Input.Splits depth items ∧
    (∀ (s : Session) (x : Step) (t : Thread) (input : Input) (options : TurnOptions),
      input.Says text → s.begins? x = some (t, input, options) → s.Sends x t input options text) ∧
    ∀ (w : CommandLine.World) (words : List String) (a : CommandLine.RunArguments),
      CommandLine.invocation words = .ok (.run a) →
      (a.prompt = text ∧ text ≠ "-" ∨ a.prompt = "-" ∧ w.stdin = text) →
        CommandLine.Sends w words a text := by
  refine ⟨Input.splits depth items, fun s x t input options => Session.sends_of_begins, ?_⟩
  intro w words a hwords hprompt
  obtain rfl : CommandLine.promptOf w a = text := by
    rcases hprompt with ⟨rfl, hne⟩ | ⟨hdash, rfl⟩
    · exact if_neg hne
    · exact if_pos hdash
  exact CommandLine.sends_promptOf hwords

/-- An entry that is the least number with too many digits is not named. -/
theorem normalize_overlong_entry :
    ¬ ∀ (before after : List InputEntry) (v : Value), (∀ e ∈ before, e.IsKnown) →
      ∃ fault, (Input.entries (before ++ .other v :: after)).normalize = .error (.fault fault) ∧
        fault.kind = .type := by
  intro h
  -- The power is never written out: what is used of the number is that it has too many digits.
  obtain ⟨v, hlong⟩ : ∃ v : Value, v.hasOverlong = true := by
    refine ⟨.int (Nat.pow 10 Number.maxDigits), ?_⟩
    rw [Value.hasOverlong, Number.isOverlong, Int.natAbs_natCast]
    exact decide_eq_true le_rfl
  obtain ⟨fault, hfault, hkind⟩ := h [] [] v (List.forall_mem_nil _)
  obtain rfl :=
    Failure.fault.inj (Except.error.inj (hfault.symm.trans
      (Input.normalize_of_split (List.forall_mem_nil _))))
  cases Input.refuses_entryFault Value.displayDepth v with
  | named hshort => exact absurd hlong (Bool.eq_false_iff.mp hshort)
  | overlong _ hvalue => exact absurd (hkind.symm.trans hvalue) (by decide)
  | nested _ hrecursion => exact absurd (hkind.symm.trans hrecursion) (by decide)

namespace CommandLine

/-- A host whose program has a text on its input, and whose child takes its prompt. -/
def hostOfTakingChild : World :=
  { hostOfBrokenChild with stdin := "é\n", scripts := [{}] }

/-- What `run - --image a.png` asks for. -/
def dashArguments : RunArguments :=
  { streamArguments with prompt := "-", images := [.str "a.png"], output := .text }

/-- The client that is made for it. -/
def clientOfTakingChild : Client :=
  { clientOfBrokenChild with agent := .executable ⟨"/bin/trill", none, [], .null, .null⟩ [{}] }

/-- Its turn. -/
def turnOfTakingChild : Accepted (sceneOf clientOfTakingChild dashArguments)
    (inputOf hostOfTakingChild dashArguments) (turnOptionsOf dashArguments .null) where
  schema := ⟨none, none⟩
  prompt := "é\n"
  images := [.str "a.png"]
  file := none
  idle := rfl
  resolve_eq := rfl
  normalize_eq := rfl
  file_eq := rfl

/-- Its process, about to start. -/
def spawnOfTakingChild : Spawn clientOfTakingChild turnOfTakingChild.request {} where
  executor := ⟨"/bin/trill", none, [], .null, .null⟩
  scripts := [{}]
  later := []
  command := ["/bin/trill", "exec", "--experimental-json", "--image", "a.png"]
  deadline := .never
  agent_eq := rfl
  takeScript_eq := rfl
  command_eq := rfl
  deadline_eq := rfl
  refusal_eq := rfl

end CommandLine

open CommandLine in
/-- The text of the input is sent as it is, with its line feed, next to an image; an empty text is a
text; what is neither a text nor an image is named. -/
theorem sent_hostOfTakingChild :
    (∃ p, .process p ∈ (run hostOfTakingChild ["run", "-", "--image", "a.png"]).journal ∧
        p.promptBytes = some [0xC3, 0xA9, 0x0A]) ∧
      (∃ both, (Input.entries ([.text "x", .image .null] ++ [.text ""])).normalize = .ok both ∧
        both.1 = "x\n\n") ∧
      ∃ fault, (Input.entries [.image .null, .other (.str "x")]).normalize = .error (.fault fault) ∧
        fault.text = "Unsupported input entry: 'x'" := by
  have hwords : invocation ["run", "-", "--image", "a.png"] = .ok (.run dashArguments) := by
    decide +kernel
  have hsplits := fun items => (sent_of_any_interleaving Value.displayDepth items "").1
  obtain ⟨-, -, hprogram⟩ := sent_of_any_interleaving Value.displayDepth [] "é\n"
  have hsends := hprogram hostOfTakingChild _ dashArguments hwords (.inr ⟨rfl, rfl⟩)
  obtain ⟨p, hp⟩ :=
    hsends.started .null clientOfTakingChild rfl turnOfTakingChild {} ⟨spawnOfTakingChild⟩
  refine ⟨⟨p, hp, (hsends.sent p hp).trans (by decide +kernel)⟩, ?_, ?_⟩
  · exact (hsplits [.text "x", .image .null]).append [.text ""] _ _ rfl rfl
  · obtain ⟨fault, hfault, hrefuses⟩ := (hsplits [.image .null, .other (.str "x")]).refused
      [.image .null] (.str "x") [] rfl (List.forall_mem_singleton.mpr trivial)
    refine ⟨fault, hfault, ?_⟩
    cases hrefuses with
    | named _ _ _ htext => exact htext.trans (by decide +kernel)
    | overlong hlong => exact absurd hlong (by decide)
    | nested hdeep => exact absurd hdeep (by decide)

end AgentClient
