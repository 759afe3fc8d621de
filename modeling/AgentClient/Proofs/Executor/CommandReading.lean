import AgentClient.Proofs.Config.TomlRoundTrip
import AgentClient.Proofs.Executor.CommandParts
import AgentClient.Proofs.Json.Documents

/-!
# Proofs/Executor/CommandReading — the words of a command say all that was asked for

A reader that goes from left to right, every flag with a value taking the next word whatever that
is, gets back what a request asks for.  `CommandReading.read` takes one part of a command after
another, as `WordPart.read` finds them (`read_flagWords`, `read_flatMap`, `read_lone`), and an
override is cut at its first sign and read as TOML (`readOverride?_override`).  So requests that ask
for different things have different commands, and the overrides of a client stand before those of a
thread (`commandWords_unambiguous`).

A command is taken here before its words are made texts, so nothing is asked of them but that the
options written as overrides have a TOML form (`ThreadOptions.HasSettings`). -/

namespace AgentClient

/-! ## What a request asks for

The fields of a request, up to what the executable cannot tell apart: an empty text is not written,
so it asks for as much as no text at all. Settings that go into overrides are written even when they
are empty, and count as soon as they are present. -/

/-- A value that is given and not empty. -/
def Value.given? (v : Value) : Option Value :=
  if v.isTruthy then some v else none

/-- A value that is given, empty or not. -/
def Value.present? : Value → Option Value
  | .null => none
  | v => some v

/-- A text that may not be there, as a value. -/
def WireText.optional (t : Option WireText) : Value :=
  t.elim .null toValue

/-- **What is asked of the executable.** -/
structure Asked where
  model : Option Value
  sandboxMode : Option Value
  workingDirectory : Option Value
  additionalDirectories : List Value
  skipsRepositoryCheck : Bool
  schemaPath : Option Value
  reasoningEffort : Option Value
  networkAccess : Option Value
  webSearch : Option Value
  approvalPolicy : Option Value
  threadId : Option Value
  images : List Value
  deriving DecidableEq

/-- What a request asks for: an empty model, mode, directory, schema file or id is as good as none.
-/
def TurnRequest.asked (r : TurnRequest) : Asked :=
  { model := r.options.model.given?
    sandboxMode := r.options.sandboxMode.given?
    workingDirectory := r.options.workingDirectory.given?
    additionalDirectories := r.options.additionalDirectories
    skipsRepositoryCheck := r.options.skipRepositoryCheck.isTruthy
    schemaPath := (WireText.optional (r.schemaPath.map .plain)).given?
    reasoningEffort := r.options.reasoningEffort.present?
    networkAccess := r.options.networkAccess.present?
    webSearch := r.options.webSearch.present?
    approvalPolicy := r.options.approvalPolicy.present?
    threadId := (WireText.optional r.threadId).given?
    images := r.images }

/-! ## Reading a command

The reader knows nothing of how a command is written. It takes the parts from left to right and puts
each value where its flag says; a flag that it does not know makes it give up. What stands behind an
override is read as TOML. -/

/-- What has been read of a command. -/
structure CommandReading where
  model : Option Value := none
  sandboxMode : Option Value := none
  workingDirectory : Option Value := none
  additionalDirectories : List Value := []
  skipsRepositoryCheck : Bool := false
  schemaPath : Option Value := none
  /-- The overrides, in their order. -/
  overrides : List Value := []
  threadId : Option Value := none
  images : List Value := []
  deriving DecidableEq

/-- The flag that a word is. What is no text is none. -/
def Value.flagText : Value → String
  | .str flag => flag
  | _ => ""

namespace CommandReading

/-- Take a flag with its value. -/
def take (c : CommandReading) (v : Value) (flag : String) : Option CommandReading :=
  if flag = "--model" then some { c with model := some v }
  else if flag = "--sandbox" then some { c with sandboxMode := some v }
  else if flag = "--cd" then some { c with workingDirectory := some v }
  else if flag = "--add-dir" then
    some { c with additionalDirectories := c.additionalDirectories ++ [v] }
  else if flag = "--output-schema" then some { c with schemaPath := some v }
  else if flag = "--config" then some { c with overrides := c.overrides ++ [v] }
  else if flag = "resume" then some { c with threadId := some v }
  else if flag = "--image" then some { c with images := c.images ++ [v] }
  else none

/-- Take a part of a command. -/
def takePart (c : CommandReading) : WordPart Value → Option CommandReading
  | .mark flag => if flag
      = WordPart.loneFlag then some { c with skipsRepositoryCheck := true } else none
  | .setting flag v => c.take v flag

/-- **Read words from left to right**, one part after another. -/
def read (c : CommandReading) (words : List Value) : Option CommandReading :=
  (WordPart.read Value.flagText words).foldlM takePart c

/-- The key and the value of an override: it is cut at its first sign, and the value is TOML. -/
def readOverride? : Value → Option (String × Value)
  | .str text =>
    match Text.cut? '=' text.toList with
    | some (key, raw) => (Toml.read (String.ofList raw)).map fun v => (String.ofList key, v)
    | none => none
  | _ => none

/-- The value of an override with a key. -/
def setting? (c : CommandReading) (key : String) : Option Value :=
  List.lookup key (c.overrides.filterMap readOverride?)

/-- What has been asked for, as far as it was read. -/
def asked (c : CommandReading) : Asked :=
  { model := c.model
    sandboxMode := c.sandboxMode
    workingDirectory := c.workingDirectory
    additionalDirectories := c.additionalDirectories
    skipsRepositoryCheck := c.skipsRepositoryCheck
    schemaPath := c.schemaPath
    reasoningEffort := c.setting? "model_reasoning_effort"
    networkAccess := c.setting? "sandbox_workspace_write.network_access"
    webSearch := c.setting? "features.web_search_request"
    approvalPolicy := c.setting? "approval_policy"
    threadId := c.threadId
    images := c.images }

/-! ### The parts of a command

For each form that a section of a command has there is one lemma: an option that may be left out,
values behind a flag each, and the flag by itself. They are stated for any field `put`, with what
`take` does to it as a hypothesis, so that a flag costs one line where the command is put together.
-/

section

variable {c : CommandReading} {flag : String}

/-- A flag and its value are read into their field. -/
theorem read_setting (hflag : flag ≠ WordPart.loneFlag) {v : Value} {c' : CommandReading}
    (htake : c.take v flag = some c') (rest : List Value) :
    c.read (.str flag :: v :: rest) = c'.read rest := by
  rw [read, WordPart.read_setting (show Value.flagText (.str flag) ≠ _ from hflag),
    List.foldlM_cons]
  exact congrArg (· >>= (WordPart.read Value.flagText rest).foldlM takePart) htake

/-- An option with a value is read as that, and one that was left out leaves everything as it was.
-/
theorem read_flagWords (put : CommandReading → Option Value → CommandReading)
    (hflag : flag ≠ WordPart.loneFlag) (hnone : put c none = c)
    (htake : ∀ v, c.take v flag = some (put c (some v))) (v : Value) (rest : List Value) :
    c.read (Executor.flagWords flag v ++ rest) = (put c v.given?).read rest := by
  rw [Executor.flagWords, Value.given?]
  split
  · exact read_setting hflag (htake v) rest
  · rw [hnone, List.nil_append]

/-- Values behind a flag each are read one after another. -/
theorem read_flatMap (put : CommandReading → List Value → CommandReading)
    (hflag : flag ≠ WordPart.loneFlag) {us : List Value} (hus : put c us = c)
    (htake : ∀ us v, (put c us).take v flag = some (put c (us ++ [v]))) (vs rest : List Value) :
    c.read (vs.flatMap (fun v => [.str flag, v]) ++ rest) = (put c (us ++ vs)).read rest := by
  -- Each value is put behind those before it, so the induction is over what has been put as well.
  have hread : ∀ us, (put c us).read (vs.flatMap (fun v => [.str flag, v]) ++ rest)
      = (put c (us ++ vs)).read rest := by
    induction vs with
    | nil => exact fun us => by rw [List.append_nil]; rfl
    | cons v vs ih =>
      intro us
      rw [List.append_cons, ← ih]
      exact read_setting hflag (htake us v) _
  rw [← hread us, hus]

/-- The flag by itself is read if it is there. -/
theorem read_lone (hc : c.skipsRepositoryCheck = false) (b : Bool) (rest : List Value) :
    c.read ((if b then [.str WordPart.loneFlag] else []) ++ rest)
      = { c with skipsRepositoryCheck := b : CommandReading }.read rest := by
  cases b with
  | true =>
    rw [if_pos rfl, List.singleton_append, read, WordPart.read_mark rfl]
    rfl
  | false =>
    rw [if_neg Bool.false_ne_true, List.nil_append, ← hc]

end

end CommandReading

/-! ## The overrides of a thread

A thread gives four settings at most, under keys that differ and have no sign in them. Each one
given is one override, which is cut behind its key and whose text reads back as the value; by
induction so are all of them, in their order. -/

/-- The overrides that a thread gives, as keys and values. -/
def givenSettings (items : List (String × Value)) : List (String × Value) :=
  items.filterMap fun item => item.2.present?.map (item.1, ·)

namespace Executor

/-- The value of a key is found if it is given. -/
theorem lookup_givenSettings {items : List (String × Value)} (hkeys : (items.map Prod.fst).Nodup)
    {key : String} {v : Value} (h : (key, v) ∈ items) :
    (givenSettings items).lookup key = v.present? := by
  induction items with
  | nil => exact absurd h List.not_mem_nil
  | cons item items ih =>
    -- A key that is at the head stands nowhere behind it, so what is found behind is found under
    -- another key.
    rw [List.map_cons, List.nodup_cons] at hkeys
    have hother : key ∉ items.map Prod.fst → (givenSettings items).lookup key = none := by
      refine fun hkey => List.lookup_eq_none_iff.mpr fun p hp => ?_
      obtain ⟨i, hi, hp⟩ := List.mem_filterMap.mp hp
      obtain ⟨w, -, rfl⟩ := Option.map_eq_some_iff.mp hp
      exact bne_iff_ne.mpr fun heq => hkey (List.mem_map.mpr ⟨i, hi, heq.symm⟩)
    rw [givenSettings, List.filterMap_cons]
    rcases List.mem_cons.mp h with rfl | h
    · cases hv : v.present? with
      | none => exact hother hkeys.1
      | some w => exact List.lookup_cons_self
    · have hne : key ≠ item.1 := fun heq => hkeys.1 (heq ▸ List.mem_map_of_mem h)
      cases item.2.present? with
      | none => exact ih hkeys.2 h
      | some w =>
        show List.lookup key ((item.1, w) :: givenSettings items) = _
        rw [List.lookup_cons, beq_false_of_ne hne]
        exact ih hkeys.2 h

/-- The text of a written text or truth value is read as it. -/
theorem read_of_toml {key : String} {v : Value} (h : v.IsOptionalText ∨ v.IsOptionalSwitch)
    {text : String} (htext : Config.toml key v = .ok text) : Toml.read text = some v := by
  have hread : v.isFaithful = true → v.hasLineKey = false →
      Toml.read text = some v.untupled := by
    intro hv hline
    have hback := Toml.readsBack v htext hv (String.length_toList (s := text)).le [] nofun
    rw [List.append_nil, hline, if_neg Bool.false_ne_true] at hback
    rw [Toml.read, hback]
  -- An option is a text or a switch, or it is not given, and then nothing is written.
  rcases h with ⟨_ | s⟩ | ⟨_ | b⟩
  · cases htext
  · exact hread rfl rfl
  · cases htext
  · exact hread rfl rfl

/-- An override is cut behind its key. -/
theorem readOverride?_override {key text : String} {v : Value} (hkey : '=' ∉ key.toList)
    (hread : Toml.read text = some v) :
    CommandReading.readOverride? (.str (Config.override key text)) = some (key, v) := by
  have hcut : Text.cut? '=' (Config.override key text).toList = some (key.toList, text.toList) := by
    rw [Config.override, String.toList_append, String.toList_append, List.append_assoc]
    exact Text.cut?_append_cons text.toList hkey
  rw [CommandReading.readOverride?, hcut]
  dsimp only
  rw [String.ofList_toList, String.ofList_toList, hread, Option.map_some]

/-- An override of a thread is left out, or written and read back. -/
theorem threadOverrideWords_cases (key : String) {v : Value}
    (h : v.IsOptionalText ∨ v.IsOptionalSwitch) :
    (v.present? = none ∧ threadOverrideWords key v = .ok []) ∨
      ∃ text, v.present? = some v ∧ Toml.read text = some v ∧
        threadOverrideWords key v = .ok ["--config", Config.override key text] := by
  have hgiven : ∀ {text}, v.present? = some v → Config.toml key v = .ok text →
      threadOverrideWords key v = .ok ["--config", Config.override key text] →
      ∃ text, v.present? = some v ∧ Toml.read text = some v ∧
        threadOverrideWords key v = .ok ["--config", Config.override key text] :=
    fun hpresent htext hwords => ⟨_, hpresent, read_of_toml h htext, hwords⟩
  rcases h with ⟨_ | s⟩ | ⟨_ | _ | _⟩
  · exact .inl ⟨rfl, rfl⟩
  · exact .inr (hgiven rfl rfl rfl)
  · exact .inl ⟨rfl, rfl⟩
  · exact .inr (hgiven rfl rfl rfl)
  · exact .inr (hgiven rfl rfl rfl)

/-- **The overrides of a thread are read back**, one for each option that is given. -/
theorem exists_threadOverridesWords_eq {items : List (String × Value)}
    (h : ∀ item ∈ items, item.2.IsOptionalText ∨ item.2.IsOptionalSwitch)
    (hkeys : ∀ key ∈ items.map Prod.fst, '=' ∉ key.toList) :
    ∃ texts, threadOverridesWords items = .ok (Config.overrideWords texts) ∧
      (texts.map .str).map CommandReading.readOverride? = (givenSettings items).map some := by
  induction items with
  | nil => exact ⟨[], rfl, rfl⟩
  | cons item items ih =>
    obtain ⟨key, v⟩ := item
    rw [List.map_cons] at hkeys
    rw [List.forall_mem_cons] at h hkeys
    obtain ⟨texts, htexts, hread⟩ := ih h.2 hkeys.2
    rw [threadOverridesWords, htexts, givenSettings, List.filterMap_cons]
    -- A setting that is not given is neither written nor read.
    rcases threadOverrideWords_cases key h.1 with ⟨hv, hwords⟩ | ⟨text, hv, htext, hwords⟩
    · rw [hwords, hv]
      exact ⟨texts, rfl, hread⟩
    · rw [hwords, hv]
      refine ⟨Config.override key text :: texts, rfl, ?_⟩
      rw [List.map_cons, List.map_cons, readOverride?_override hkeys.1 htext, hread]
      rfl

/-! ## The whole command

Behind the overrides of the client the words are those of one request. Reading them gives the
request back (`read_laterWords`, `asked_laterReading`), and since reading is a function, requests
that ask for different things cannot have the same words. -/

/-- The words of a command behind the overrides of the client. -/
def laterWords (r : TurnRequest) (texts : List String) : List Value :=
  optionWords r.options r.schemaPath ++ textWords (Config.overrideWords texts)
    ++ flagText "resume" r.threadId ++ imageWords r.images

/-- What is read of them behind some overrides. -/
def laterReading (r : TurnRequest) (before own : List Value) : CommandReading :=
  { model := r.options.model.given?
    sandboxMode := r.options.sandboxMode.given?
    workingDirectory := r.options.workingDirectory.given?
    additionalDirectories := r.options.additionalDirectories
    skipsRepositoryCheck := r.options.skipRepositoryCheck.isTruthy
    schemaPath := (WireText.optional (r.schemaPath.map .plain)).given?
    overrides := before ++ own
    threadId := (WireText.optional r.threadId).given?
    images := r.images }

/-- The overrides as words: a flag before each. -/
theorem textWords_overrideWords (texts : List String) :
    textWords (Config.overrideWords texts)
      = (texts.map Value.str).flatMap fun v => [.str "--config", v] := by
  induction texts with
  | nil => rfl
  | cons text texts ih => exact congrArg ([.str "--config", .str text] ++ ·) ih

theorem flagText_eq (flag : String) (t : Option WireText) :
    flagText flag t = flagWords flag (WireText.optional t) := by
  cases t <;> rfl

/-- **The options are read back**, each from its section of the command. -/
theorem read_optionWords (before : List Value) (o : ThreadOptions) (schemaPath : Option String)
    (rest : List Value) :
    ({ overrides := before } : CommandReading).read (optionWords o schemaPath ++ rest)
      = ({ model := o.model.given?
           sandboxMode := o.sandboxMode.given?
           workingDirectory := o.workingDirectory.given?
           additionalDirectories := o.additionalDirectories
           skipsRepositoryCheck := o.skipRepositoryCheck.isTruthy
           schemaPath := (WireText.optional (schemaPath.map .plain)).given?
           overrides := before } : CommandReading).read rest := by
  rw [optionWords, flagText_eq]
  simp only [List.append_assoc]
  -- The sections in their order: model, sandbox, directory, further directories, the lone flag,
  -- schema file.
  refine Eq.trans (CommandReading.read_flagWords (fun c v => { c with model := v })
    (by decide) rfl (fun _ => rfl) _ _) ?_
  refine Eq.trans (CommandReading.read_flagWords (fun c v => { c with sandboxMode := v })
    (by decide) rfl (fun _ => rfl) _ _) ?_
  refine Eq.trans (CommandReading.read_flagWords (fun c v => { c with workingDirectory := v })
    (by decide) rfl (fun _ => rfl) _ _) ?_
  refine Eq.trans (CommandReading.read_flatMap (fun c vs => { c with additionalDirectories := vs })
    (by decide) rfl (fun _ _ => rfl) _ _) ?_
  refine Eq.trans (CommandReading.read_lone rfl _ _) ?_
  exact CommandReading.read_flagWords (fun c v => { c with schemaPath := v })
    (by decide) rfl (fun _ => rfl) _ _

/-- **The words behind the overrides of the client are read** one part after another. -/
theorem read_laterWords (r : TurnRequest) (before : List Value) (texts : List String) :
    ({ overrides := before } : CommandReading).read (laterWords r texts)
      = some (laterReading r before (texts.map .str)) := by
  have hend : ∀ c : CommandReading, c.read [] = some c := fun c => rfl
  rw [laterWords, imageWords, flagText_eq, textWords_overrideWords, ← hend]
  simp only [List.append_assoc]
  -- Behind the options stand the overrides, the conversation and the images.
  rw [read_optionWords]
  refine Eq.trans (CommandReading.read_flatMap (fun c vs => { c with overrides := vs })
    (by decide) rfl (fun _ _ => rfl) _ _) ?_
  refine Eq.trans (CommandReading.read_flagWords (fun c v => { c with threadId := v })
    (by decide) rfl (fun _ => rfl) _ _) ?_
  rw [← List.append_nil (r.images.flatMap _)]
  refine Eq.trans (CommandReading.read_flatMap (fun c vs => { c with images := vs })
    (by decide) rfl (fun _ _ => rfl) _ _) rfl

theorem map_fst_threadOverrides (o : ThreadOptions) :
    (threadOverrides o).map Prod.fst = ["model_reasoning_effort",
      "sandbox_workspace_write.network_access", "features.web_search_request", "approval_policy"] :=
  rfl

/-- What is read is what is asked for, if the overrides read back are those that were given. -/
theorem asked_laterReading {r : TurnRequest} {own : List Value}
    (h : own.map CommandReading.readOverride?
      = (givenSettings (threadOverrides r.options)).map some) :
    (laterReading r [] own).asked = r.asked := by
  have hkeys : ((threadOverrides r.options).map Prod.fst).Nodup := by
    rw [map_fst_threadOverrides]
    decide
  have hsettings : own.filterMap CommandReading.readOverride?
      = givenSettings (threadOverrides r.options) := by
    have hvalues := congrArg (List.filterMap id) h
    rw [List.filterMap_map, List.filterMap_map] at hvalues
    exact hvalues.trans List.filterMap_some
  -- Each of the four is looked up under its own key among those that were given.
  have hsetting : ∀ {key v}, (key, v) ∈ threadOverrides r.options →
      (laterReading r [] own).setting? key = v.present? := by
    intro key v hmem
    rw [CommandReading.setting?]
    show List.lookup key (own.filterMap _) = _
    rw [hsettings, lookup_givenSettings hkeys hmem]
  rw [CommandReading.asked, TurnRequest.asked]
  rw [hsetting (.head _), hsetting (.tail _ (.head _)), hsetting (.tail _ (.tail _ (.head _))),
    hsetting (.tail _ (.tail _ (.tail _ (.head _))))]
  rfl

/-- A command is what every turn of the client begins with, and the words for the request. -/
theorem exists_commandWords_eq (e : Executor) {r : TurnRequest} (h : r.options.HasSettings) :
    ∃ texts, e.commandWords r = .ok (textWords ([e.executable, "exec", "--experimental-json"]
        ++ Config.overrideWords e.overrides) ++ laterWords r texts) ∧
      (texts.map Value.str).map CommandReading.readOverride?
        = (givenSettings (threadOverrides r.options)).map some := by
  obtain ⟨texts, htexts, hread⟩ := exists_threadOverridesWords_eq h
    (map_fst_threadOverrides r.options ▸ by decide)
  refine ⟨texts, ?_, hread⟩
  rw [commandWords, htexts, laterWords]
  simp only [List.append_assoc]
  rfl

/-- An executor holds the overrides of the configuration of its client. -/
theorem overridesOf_of_ofOptions {s : Surroundings} {o : ClientOptions} {e : Executor}
    (h : ofOptions s o = .ok e) : overridesOf o.config = .ok e.overrides := by
  obtain ⟨_, -, h⟩ := Json.exists_of_bind_eq_ok h
  obtain ⟨_, -, h⟩ := Json.exists_of_bind_eq_ok h
  obtain ⟨overrides, hoverrides, h⟩ := Json.exists_of_bind_eq_ok h
  obtain rfl := Except.ok.inj h
  exact hoverrides

/-- **A command says all that was asked for.**  It begins with the overrides of the client.  What
stands behind them is read from left to right as what the request asks for, its overrides last; so
requests that ask for different things have different commands. -/
theorem commandWords_unambiguous {s : Surroundings} {o : ClientOptions} {e : Executor}
    (he : ofOptions s o = .ok e) :
    (∀ r : TurnRequest, r.options.HasSettings →
      ∃ items rest own, overridesOf o.config = .ok items ∧
        e.commandWords r = .ok (textWords ([e.executable, "exec", "--experimental-json"]
          ++ Config.overrideWords items) ++ rest) ∧
        CommandReading.read {} rest = some own ∧ own.asked = r.asked ∧
        own.overrides.map CommandReading.readOverride?
          = (givenSettings (threadOverrides r.options)).map some ∧
        CommandReading.read {} (textWords (Config.overrideWords items) ++ rest)
          = some { own with overrides := items.map .str ++ own.overrides }) ∧
      ∀ r r' : TurnRequest, r.options.HasSettings → r'.options.HasSettings →
        r.asked ≠ r'.asked → e.commandWords r ≠ e.commandWords r' := by
  have hread : ∀ {r : TurnRequest} {texts : List String},
      (texts.map Value.str).map CommandReading.readOverride?
        = (givenSettings (threadOverrides r.options)).map some →
      ∃ own, CommandReading.read {} (laterWords r texts) = some own ∧ own.asked = r.asked :=
    fun hown => ⟨_, read_laterWords _ [] _, asked_laterReading hown⟩
  constructor
  · intro r hr
    obtain ⟨texts, hwords, hown⟩ := exists_commandWords_eq e hr
    refine ⟨e.overrides, laterWords r texts, _, overridesOf_of_ofOptions he, hwords,
      read_laterWords r [] texts, asked_laterReading hown, hown, ?_⟩
    rw [textWords_overrideWords]
    refine Eq.trans (CommandReading.read_flatMap (fun c vs => { c with overrides := vs })
      (by decide) rfl (fun _ _ => rfl) _ _) ?_
    exact read_laterWords r _ texts
  -- Equal commands would be read as the same, and so ask for the same.
  · intro r r' hr hr' hne heq
    obtain ⟨texts, hwords, hown⟩ := exists_commandWords_eq e hr
    obtain ⟨texts', hwords', hown'⟩ := exists_commandWords_eq e hr'
    rw [hwords, hwords'] at heq
    have hsame := List.append_cancel_left (Except.ok.inj heq)
    obtain ⟨own, hreading, hasked⟩ := hread hown
    obtain ⟨own', hreading', hasked'⟩ := hread hown'
    rw [hsame, hreading'] at hreading
    exact hne (hasked.symm.trans (Option.some.inj hreading ▸ hasked'))

/-- A host with an executable in a usual place. -/
def hostWithExecutable : Surroundings :=
  { environment := []
    files := FileTree.ofFile ["/", "bin", "trill"] .executable
    schemaDirectory := "/tmp/schemas" }

/-- A request with texts that look like flags and like an override. -/
def flagLikeRequest : TurnRequest :=
  { images := ["--model"].map .str
    options :=
      { model := .str "--sandbox"
        sandboxMode := .str ""
        approvalPolicy := .str "a=\"b\"" } }

/-- The options of a client with an override. -/
def optionsWithOverride : ClientOptions :=
  { config := .table [(.str "model", .str "m")] }

/-- It is read from its command, and a request with those texts in another place has another
command. -/
theorem commandWords_flagLikeRequest :
    ∃ e rest own, ofOptions hostWithExecutable optionsWithOverride = .ok e ∧
      e.commandWords flagLikeRequest = .ok (textWords
        ["/bin/trill", "exec", "--experimental-json", "--config", "model=\"m\""] ++ rest) ∧
      CommandReading.read {} rest = some own ∧ own.asked = flagLikeRequest.asked ∧
      e.commandWords flagLikeRequest
        ≠ e.commandWords { images := ["--sandbox", "--model"].map .str } := by
  have hmade : ofOptions hostWithExecutable optionsWithOverride
      = .ok ⟨"/bin/trill", none, ["model=\"m\""], .null, .null⟩ := rfl
  have hflags : flagLikeRequest.options.HasSettings :=
    ThreadOptions.hasSettings_of_fields .absent .absent .absent (.given _)
  have hnone : ThreadOptions.HasSettings {} :=
    ThreadOptions.hasSettings_of_fields .absent .absent .absent .absent
  obtain ⟨hall, hne⟩ := commandWords_unambiguous hmade
  obtain ⟨items, rest, own, hitems, hwords, hread, hasked, -⟩ := hall _ hflags
  obtain rfl := Except.ok.inj hitems
  exact ⟨_, rest, own, hmade, hwords, hread, hasked, hne _ _ hflags hnone (by decide)⟩

end Executor

end AgentClient
