import AgentClient.Executor.Command
import Mathlib.Data.List.Forall2

/-!
# Proofs/Executor/CommandParts — the command of a turn, read from left to right

Behind its first three words a command is made of parts: a flag with a value, or the one flag that
stands by itself.  There is one reader of parts, for words of any kind (`WordPart.read`): it takes
the word behind a flag along whatever it is, and gives back the parts that were written
(`read_flatMap_words`), so a value that looks like a flag is none.  The parts of a command are
options, then the conversation to resume if it has an id, then images (`resumes_command`).

A request whose options have the types that their descriptions name always has a command
(`exists_command`).
-/

namespace AgentClient

/-! ## Parts of a command

There is one reader for all kinds of words; what it has to know of a kind is which flag a word is.
It looks at words in the place of a flag only, so nothing is asked of the values: whatever they look
like, writing parts and reading them gives the parts (`read_flatMap_words`). -/

/-- A part of a command whose words are of some kind. -/
inductive WordPart (α : Type) where
  /-- A flag by itself. -/
  | mark (flag : String)
  /-- A flag, or another word of the kind, with its value. -/
  | setting (flag : String) (value : α)
  deriving DecidableEq

namespace WordPart

/-- The flag that takes no value. -/
def loneFlag : String := "--skip-git-repo-check"

variable {α : Type} {flagOf : α → String} {word value : α} {rest : List α}

/-- **The parts of some words**, from left to right: every flag but one takes the next word,
whatever that is. -/
def read (flagOf : α → String) : List α → List (WordPart α)
  | [] => []
  | [word] => [.mark (flagOf word)]
  | word :: value :: rest =>
    if flagOf word = loneFlag then .mark (flagOf word) :: read flagOf (value :: rest)
    else .setting (flagOf word) value :: read flagOf rest

theorem read_setting (h : flagOf word ≠ loneFlag) (value : α) (rest : List α) :
    read flagOf (word :: value :: rest) = .setting (flagOf word) value :: read flagOf rest :=
  if_neg h

/-- The flag that stands by itself takes no word along. -/
theorem read_mark (h : flagOf word = loneFlag) (rest : List α) :
    read flagOf (word :: rest) = .mark (flagOf word) :: read flagOf rest := by
  cases rest with
  | nil => rfl
  | cons value rest => exact if_pos h

end WordPart

/-- A part of a command. -/
abbrev CommandPart := WordPart String

namespace CommandPart

/-- The flag of a part. -/
def flag : CommandPart → String
  | .mark flag | .setting flag _ => flag

/-- The words of a part. -/
def words : CommandPart → List String
  | .mark flag => [flag]
  | .setting flag value => [flag, value]

/-- A part whose flag has a value just when it takes one. -/
def IsRegular : CommandPart → Prop
  | .mark flag => flag = WordPart.loneFlag
  | .setting flag _ => flag ≠ WordPart.loneFlag

/-- The parts of some words, each of which may be a flag. -/
def read : List String → List CommandPart :=
  WordPart.read id

/-- The words of a part are read as that part, whatever follows. -/
theorem read_words_append {p : CommandPart} (h : p.IsRegular) (more : List String) :
    read (p.words ++ more) = p :: read more := by
  cases p with
  | mark flag => exact WordPart.read_mark (show id flag = WordPart.loneFlag from h) more
  | setting flag value =>
    exact WordPart.read_setting (show id flag ≠ WordPart.loneFlag from h) value more

/-- **Parts read back**, whatever their values are. -/
theorem read_flatMap_words {parts : List CommandPart} (h : ∀ p ∈ parts, p.IsRegular) :
    read (parts.flatMap words) = parts := by
  induction parts with
  | nil => rfl
  | cons p parts ih =>
    rw [List.forall_mem_cons] at h
    rw [List.flatMap_cons, read_words_append h.1, ih h.2]

end CommandPart

/-- Words that write parts with certain flags. -/
def WrittenWith (flags words : List String) : Prop :=
  ∃ parts : List CommandPart, words = parts.flatMap CommandPart.words ∧
    ∀ p ∈ parts, p.IsRegular ∧ p.flag ∈ flags

namespace WrittenWith

variable {flags more us vs : List String}

theorem nil : WrittenWith flags [] :=
  ⟨[], rfl, nofun⟩

/-- What is written part by part in two pieces is so in one. -/
theorem append (hu : WrittenWith flags us) (hv : WrittenWith flags vs) :
    WrittenWith flags (us ++ vs) := by
  obtain ⟨parts, rfl, hparts⟩ := hu
  obtain ⟨others, rfl, hothers⟩ := hv
  refine ⟨parts ++ others, List.flatMap_append.symm, fun p hp => ?_⟩
  exact (List.mem_append.mp hp).elim (hparts p) (hothers p)

theorem mark (h : WordPart.loneFlag ∈ flags) : WrittenWith flags [WordPart.loneFlag] :=
  ⟨[.mark _], rfl, fun _ hp => List.mem_singleton.mp hp ▸ ⟨rfl, h⟩⟩

theorem setting {flag : String} (h : flag ∈ flags) (hne : flag ≠ WordPart.loneFlag)
    (value : String) : WrittenWith flags [flag, value] :=
  ⟨[.setting flag value], rfl, fun _ hp => List.mem_singleton.mp hp ▸ ⟨hne, h⟩⟩

end WrittenWith

namespace Executor

/-! ## Words that are texts

The words of a request may be any values, and the command takes texts. The first word that is none
is refused under its index, so the lemmas split a list of words at any place and carry the index
along. -/

/-- The texts of some words: that of the first, and those of the others. -/
theorem wordTexts_cons {v : Value} {t : WireText} (h : v.text? = some t) (index : Nat)
    (vs : List Value) :
    wordTexts index (v :: vs) = (wordTexts (index + 1) vs).map (t.toString :: ·) := by
  cases v with
  | str s | broken points =>
    obtain rfl := Option.some.inj h
    rw [wordTexts]
    cases wordTexts (index + 1) vs <;> rfl
  | _ => exact absurd h nofun

/-- A word that is no text is refused. -/
theorem exists_text_of_wordTexts_cons {index : Nat} {v : Value} {vs : List Value}
    {words : List String} (h : wordTexts index (v :: vs) = .ok words) :
    ∃ t rest, v.text? = some t ∧ wordTexts (index + 1) vs = .ok rest ∧
      words = t.toString :: rest := by
  obtain ⟨t, ht⟩ : ∃ t, v.text? = some t := by
    -- Only the two kinds of text are let through; any other word is refused at once.
    cases v with
    | str | broken => exact ⟨_, rfl⟩
    | _ => exact absurd h nofun
  rw [wordTexts_cons ht] at h
  revert h
  cases wordTexts (index + 1) vs with
  | error f => rintro ⟨⟩
  | ok rest =>
    rintro ⟨⟩
    exact ⟨t, rest, ht, rfl, rfl⟩

/-- The texts of two pieces of a command are those of each. -/
theorem exists_of_wordTexts_append {index : Nat} {us vs : List Value} {words : List String}
    (h : wordTexts index (us ++ vs) = .ok words) :
    ∃ xs ys, wordTexts index us = .ok xs ∧ wordTexts (index + us.length) vs = .ok ys ∧
      words = xs ++ ys := by
  -- Along the first piece; the places of the second are counted from its end.
  induction us generalizing index words with
  | nil => exact ⟨[], words, rfl, h, rfl⟩
  | cons u us ih =>
    obtain ⟨t, rest, ht, hrest, rfl⟩ := exists_text_of_wordTexts_cons h
    obtain ⟨xs, ys, hx, hy, rfl⟩ := ih hrest
    refine ⟨t.toString :: xs, ys, ?_, ?_, rfl⟩
    · rw [wordTexts_cons ht, hx]
      rfl
    · rw [List.length_cons, Nat.add_comm us.length 1, ← Nat.add_assoc]
      exact hy

/-- Words that are texts already stay as they are. -/
theorem wordTexts_textWords (index : Nat) (ws : List String) :
    wordTexts index (textWords ws) = .ok ws := by
  induction ws generalizing index with
  | nil => rfl
  | cons w ws ih =>
    rw [textWords, List.map_cons, wordTexts_cons (t := .plain w) rfl]
    exact congrArg (Except.map (w :: ·)) (ih (index + 1))

/-- Words all of which are texts are accepted. -/
theorem exists_wordTexts {ws : List Value} (h : ∀ v ∈ ws, ∃ t, v.text? = some t) (index : Nat) :
    ∃ words, wordTexts index ws = .ok words := by
  induction ws generalizing index with
  | nil => exact ⟨[], rfl⟩
  | cons v ws ih =>
    rw [List.forall_mem_cons] at h
    obtain ⟨t, ht⟩ := h.1
    obtain ⟨words, hwords⟩ := ih h.2 (index + 1)
    exact ⟨t.toString :: words, by rw [wordTexts_cons ht, hwords]; rfl⟩

/-! ## The parts of a command

The command is written section by section, and each section is shown to write parts with flags of
its own (`WrittenWith`): a flag with a value, a value behind each flag, overrides, or nothing where
an option is not given. Put together they are the parts of `HasParts`, from which both what the
command resumes and the schema file it names can be read. -/

/-- The flags that may stand before the conversation to resume. -/
def optionFlags : List String :=
  ["--config", "--model", "--sandbox", "--cd", "--add-dir", WordPart.loneFlag, "--output-schema"]

section

variable {flag : String} {flags words : List String} (hflag : flag ∈ flags)
  (hne : flag ≠ WordPart.loneFlag)

include hflag hne

/-- A flag with a value is written as that, or left out. -/
theorem writtenWith_flagWords {index : Nat} {v : Value}
    (h : wordTexts index (flagWords flag v) = .ok words) : WrittenWith flags words := by
  revert h
  rw [flagWords]
  -- An option that is not given writes nothing.
  split
  · intro h
    obtain ⟨_, more, ht, hmore, rfl⟩ := exists_text_of_wordTexts_cons h
    obtain rfl := Option.some.inj ht
    obtain ⟨_, rest, -, hrest, rfl⟩ := exists_text_of_wordTexts_cons hmore
    obtain rfl := Except.ok.inj hrest
    exact .setting hflag hne _
  · rintro ⟨⟩
    exact .nil

/-- So are several values, each behind a flag of its own. -/
theorem writtenWith_flatMap {index : Nat} {vs : List Value}
    (h : wordTexts index (vs.flatMap fun v => [.str flag, v]) = .ok words) :
    WrittenWith flags words := by
  induction vs generalizing index words with
  | nil =>
    obtain rfl := Except.ok.inj h
    exact .nil
  | cons v vs ih =>
    obtain ⟨_, more, ht, hmore, rfl⟩ := exists_text_of_wordTexts_cons h
    obtain rfl := Option.some.inj ht
    obtain ⟨_, rest, -, hrest, rfl⟩ := exists_text_of_wordTexts_cons hmore
    exact (WrittenWith.setting hflag hne _).append (ih hrest)

end

/-- The parts that overrides are. -/
def overrideParts (items : List String) : List CommandPart :=
  items.map (.setting "--config")

theorem flatMap_words_overrideParts (items : List String) :
    (overrideParts items).flatMap CommandPart.words = Config.overrideWords items := by
  rw [overrideParts, List.flatMap_map]
  rfl

theorem isRegular_of_mem_overrideParts {items : List String} :
    ∀ p ∈ overrideParts items, p.IsRegular ∧ p.flag ∈ ["--config"] := by
  refine List.forall_mem_map.mpr fun item _ => ⟨?_, List.mem_singleton.mpr rfl⟩
  exact show "--config" ≠ WordPart.loneFlag by decide

/-- An override of a thread is written behind the flag for it, or not at all. -/
theorem writtenWith_threadOverrideWords {key : String} {v : Value} {words : List String}
    (h : threadOverrideWords key v = .ok words) : WrittenWith ["--config"] words := by
  revert h
  rw [threadOverrideWords.eq_def]
  split
  · rintro ⟨⟩
    exact .nil
  · cases Config.toml key v with
    | error f => rintro ⟨⟩
    | ok text =>
      rintro ⟨⟩
      exact .setting (by decide) (by decide) _

/-- So are all of its overrides, one after another. -/
theorem writtenWith_threadOverridesWords {items : List (String × Value)} {words : List String}
    (h : threadOverridesWords items = .ok words) : WrittenWith ["--config"] words := by
  induction items generalizing words with
  | nil =>
    obtain rfl := Except.ok.inj h
    exact .nil
  | cons item items ih =>
    obtain ⟨key, v⟩ := item
    revert h
    rw [threadOverridesWords]
    cases hfirst : threadOverrideWords key v with
    | error f => rintro ⟨⟩
    | ok first =>
      cases hrest : threadOverridesWords items with
      | error f => rintro ⟨⟩
      | ok rest =>
        rintro ⟨⟩
        exact (writtenWith_threadOverrideWords hfirst).append (ih hrest)

/-- The flags of the options of a thread. -/
def threadFlags : List String :=
  ["--model", "--sandbox", "--cd", "--add-dir", WordPart.loneFlag]

/-- The part that names the schema file; no path and an empty one name none. -/
def schemaParts : Option String → List CommandPart
  | none | some "" => []
  | some path => [.setting "--output-schema" path]

/-- A schema has one part, its path behind the flag for it. -/
theorem schemaParts_some {path : String} (h : path ≠ "") :
    schemaParts (some path) = [.setting "--output-schema" path] := by
  rw [schemaParts.eq_def]
  split
  · next hnone => exact absurd hnone nofun
  · next hempty => exact absurd (Option.some.inj hempty) h
  · next hpath => rw [← Option.some.inj hpath]

/-- What is written for a schema are the words of its part. -/
theorem wordTexts_schema {index : Nat} {path : Option String} {words : List String}
    (h : wordTexts index (flagText "--output-schema" (path.map .plain)) = .ok words) :
    words = (schemaParts path).flatMap CommandPart.words := by
  rcases path with _ | path
  · exact (Except.ok.inj h).symm
  -- An empty path counts as none.
  · by_cases hpath : path = ""
    · subst hpath
      exact (Except.ok.inj h).symm
    · have hwords : flagText "--output-schema" ((some path).map .plain)
          = textWords ["--output-schema", path] := if_pos (decide_eq_true hpath)
      rw [hwords, wordTexts_textWords] at h
      rw [schemaParts_some hpath, ← Except.ok.inj h]
      rfl

/-- The options of a thread are written with their flags, and the schema file behind them. -/
theorem exists_of_wordTexts_optionWords {index : Nat} {o : ThreadOptions}
    {schemaPath : Option String}
    {words : List String} (h : wordTexts index (optionWords o schemaPath) = .ok words) :
    ∃ front, WrittenWith threadFlags front ∧
      words = front ++ (schemaParts schemaPath).flatMap CommandPart.words := by
  rw [optionWords] at h
  -- The options are taken apart from the end, a section at a time.
  obtain ⟨front, schema, h₁, hschema, rfl⟩ := exists_of_wordTexts_append h
  obtain ⟨_, lone, h₂, hlone, rfl⟩ := exists_of_wordTexts_append h₁
  obtain ⟨_, directories, h₃, hdirectories, rfl⟩ := exists_of_wordTexts_append h₂
  obtain ⟨_, directory, h₄, hdirectory, rfl⟩ := exists_of_wordTexts_append h₃
  obtain ⟨model, sandbox, hmodel, hsandbox, rfl⟩ := exists_of_wordTexts_append h₄
  have hmark : WrittenWith threadFlags lone := by
    revert hlone
    split <;> rintro ⟨⟩
    · exact .mark (by decide)
    · exact .nil
  refine ⟨_, .append (.append (.append (.append ?_ ?_) ?_) ?_) hmark,
    by rw [wordTexts_schema hschema]⟩
  · exact writtenWith_flagWords (by decide) (by decide) hmodel
  · exact writtenWith_flagWords (by decide) (by decide) hsandbox
  · exact writtenWith_flagWords (by decide) (by decide) hdirectory
  · exact writtenWith_flatMap (by decide) (by decide) hdirectories

/-- The part that names the conversation to resume; no id and an empty one name none. -/
def resumeParts : Option WireText → List CommandPart
  | none | some (.plain "") => []
  | some id => [.setting "resume" id.toString]

/-- What is written for a conversation are the words of its part. -/
theorem wordTexts_resume {index : Nat} {id : Option WireText} {words : List String}
    (h : wordTexts index (flagText "resume" id) = .ok words) :
    words = (resumeParts id).flatMap CommandPart.words := by
  rcases id with _ | s | points
  · exact (Except.ok.inj h).symm
  -- An empty id counts as none.
  · by_cases hs : s = ""
    · subst hs
      exact (Except.ok.inj h).symm
    · have hwords : flagText "resume" (some (.plain s)) = textWords ["resume", s] :=
        if_pos (decide_eq_true hs)
      have hparts : resumeParts (some (.plain s)) = [.setting "resume" s] := by
        rw [resumeParts.eq_def]
        split
        · next hnone => exact absurd hnone nofun
        · next hempty => exact absurd (WireText.plain.inj (Option.some.inj hempty)) hs
        · next hid => rw [← Option.some.inj hid]; rfl
      rw [hwords, wordTexts_textWords] at h
      rw [hparts, ← Except.ok.inj h]
      rfl
  · exact (Except.ok.inj h).symm

/-- **A command for a conversation**: behind its first words options, then the conversation to
resume if there is one, then images. -/
def Resumes (id : Option WireText) (words : List String) : Prop :=
  ∃ (executable : String) (options images : List CommandPart),
    words = executable :: "exec" :: "--experimental-json"
        :: (options ++ resumeParts id ++ images).flatMap CommandPart.words ∧
      CommandPart.read (words.drop 3) = options ++ resumeParts id ++ images ∧
      (∀ p ∈ options, p.flag ∈ optionFlags) ∧ ∀ p ∈ images, p.flag = "--image"

theorem isRegular_of_mem_resumeParts {id : Option WireText} {p : CommandPart}
    (h : p ∈ resumeParts id) : p.IsRegular := by
  rw [resumeParts.eq_def] at h
  split at h
  · exact absurd h List.not_mem_nil
  · exact absurd h List.not_mem_nil
  · rw [List.mem_singleton.mp h]
    exact show "resume" ≠ WordPart.loneFlag by decide

theorem isRegular_of_mem_schemaParts {path : Option String} {p : CommandPart}
    (h : p ∈ schemaParts path) : p.IsRegular := by
  rw [schemaParts.eq_def] at h
  split at h
  · exact absurd h List.not_mem_nil
  · exact absurd h List.not_mem_nil
  · rw [List.mem_singleton.mp h]
    exact show "--output-schema" ≠ WordPart.loneFlag by decide

/-- The part of a schema has the flag of schemas. -/
theorem flag_of_mem_schemaParts {path : Option String} {p : CommandPart}
    (h : p ∈ schemaParts path) :
    p.flag = "--output-schema" := by
  rw [schemaParts.eq_def] at h
  split at h
  · exact absurd h List.not_mem_nil
  · exact absurd h List.not_mem_nil
  · rw [List.mem_singleton.mp h]
    rfl

/-- **The parts of the command of a turn**: overrides of the client, options of the thread, the
schema file, overrides of the thread, the conversation to resume, images. -/
structure HasParts (r : TurnRequest) (words : List String)
    (overrides options settings images : List CommandPart) : Prop where
  words_eq : words.drop 3 = (overrides ++ options ++ schemaParts r.schemaPath ++ settings
    ++ resumeParts r.threadId ++ images).flatMap CommandPart.words
  overrides : ∀ p ∈ overrides, p.IsRegular ∧ p.flag ∈ ["--config"]
  options : ∀ p ∈ options, p.IsRegular ∧ p.flag ∈ threadFlags
  settings : ∀ p ∈ settings, p.IsRegular ∧ p.flag ∈ ["--config"]
  images : ∀ p ∈ images, p.IsRegular ∧ p.flag ∈ ["--image"]

/-- **Every command is written in parts**: overrides, options, schema, settings, conversation and
images, in this order. -/
theorem exists_hasParts {e : Executor} {r : TurnRequest} {words : List String}
    (h : e.command r = .ok words) :
    ∃ options settings images,
      HasParts r words (overrideParts e.overrides) options settings images ∧
      words.take 3 = [e.executable, "exec", "--experimental-json"] ∧
      threadOverridesWords (threadOverrides r.options)
        = .ok (settings.flatMap CommandPart.words) := by
  revert h
  rw [command, commandWords]
  cases hover : threadOverridesWords (threadOverrides r.options) with
  | error f => rintro ⟨⟩
  | ok threadWords =>
    intro h
    -- The words are taken apart from the end: images, the conversation, the overrides of the
    -- thread, its options.
    obtain ⟨_, imageWords, h₁, himages, rfl⟩ := exists_of_wordTexts_append h
    obtain ⟨_, resume, h₂, hresume, rfl⟩ := exists_of_wordTexts_append h₁
    obtain ⟨_, others, h₃, hothers, rfl⟩ := exists_of_wordTexts_append h₂
    obtain ⟨front, optionTexts, hfront, htexts, rfl⟩ := exists_of_wordTexts_append h₃
    rw [wordTexts_textWords] at hfront hothers
    obtain rfl := Except.ok.inj hfront
    obtain rfl := Except.ok.inj hothers
    obtain rfl := wordTexts_resume hresume
    obtain ⟨_, hthread, rfl⟩ := exists_of_wordTexts_optionWords htexts
    have hwritten : WrittenWith ["--image"] imageWords :=
      writtenWith_flatMap (by decide) (by decide) himages
    obtain ⟨options, rfl, hoptions⟩ := hthread
    obtain ⟨settings, rfl, hsettings⟩ := writtenWith_threadOverridesWords hover
    obtain ⟨images, rfl, hpictures⟩ := hwritten
    refine ⟨options, settings, images,
      ⟨?_, isRegular_of_mem_overrideParts, hoptions, hsettings, hpictures⟩, rfl, rfl⟩
    rw [← flatMap_words_overrideParts]
    simp only [List.flatMap_append, List.append_assoc]
    rfl

namespace HasParts

variable {r : TurnRequest} {words : List String}
    {overrides options settings images : List CommandPart}

/-- The parts read back. -/
theorem read_eq (h : HasParts r words overrides options settings images) :
    CommandPart.read (words.drop 3) = overrides ++ options ++ schemaParts r.schemaPath ++ settings
      ++ resumeParts r.threadId ++ images := by
  -- Every section has parts of its own kind, and parts of each kind are read back.
  rw [h.words_eq]
  refine CommandPart.read_flatMap_words fun p hp => ?_
  simp only [List.mem_append] at hp
  rcases hp with ((((hp | hp) | hp) | hp) | hp) | hp
  · exact (h.overrides p hp).1
  · exact (h.options p hp).1
  · exact isRegular_of_mem_schemaParts hp
  · exact (h.settings p hp).1
  · exact isRegular_of_mem_resumeParts hp
  · exact (h.images p hp).1

end HasParts

/-- **The command of a turn** is one for the conversation that the request names. -/
theorem resumes_command {e : Executor} {r : TurnRequest} {words : List String}
    (h : e.command r = .ok words) : Resumes r.threadId words := by
  obtain ⟨options, settings, images, hparts, hfirst, -⟩ := exists_hasParts h
  refine ⟨e.executable,
    overrideParts e.overrides ++ options ++ schemaParts r.schemaPath ++ settings, images, ?_,
    hparts.read_eq, fun p hp => ?_, fun p hp => List.mem_singleton.mp (hparts.images p hp).2⟩
  · rw [← hparts.words_eq, ← List.take_append_drop 3 words, hfirst]
    rfl
  · have hconfig : ["--config"] ⊆ optionFlags := by decide
    have hthread : threadFlags ⊆ optionFlags := by decide
    simp only [List.mem_append] at hp
    -- No flag before the conversation is the word for it.
    rcases hp with ((hp | hp) | hp) | hp
    · exact hconfig (hparts.overrides p hp).2
    · exact hthread (hparts.options p hp).2
    · rw [flag_of_mem_schemaParts hp]
      decide
    · exact hconfig (hparts.settings p hp).2

/-- **The schema file that a command names** is the one of the request; without one it names none.
-/
theorem settingsOf_command {e : Executor} {r : TurnRequest} {words : List String}
    (h : e.command r = .ok words) :
    (CommandPart.read (words.drop 3)).filter (·.flag = "--output-schema")
      = schemaParts r.schemaPath := by
  obtain ⟨options, settings, images, hparts, -, -⟩ := exists_hasParts h
  -- No other section has this flag among its own, so the filter leaves the one part, if it is
  -- there.
  have hnone : ∀ {parts : List CommandPart} {flags : List String},
      (∀ p ∈ parts, p.IsRegular ∧ p.flag ∈ flags) → "--output-schema" ∉ flags →
        parts.filter (·.flag = "--output-schema") = [] := by
    intro parts flags hflags hnot
    refine List.filter_eq_nil_iff.mpr fun p hp heq => hnot ?_
    exact of_decide_eq_true heq ▸ (hflags p hp).2
  have hresume : (resumeParts r.threadId).filter (·.flag = "--output-schema") = [] := by
    rw [resumeParts.eq_def]
    split <;> rfl
  have hschema : (schemaParts r.schemaPath).filter (·.flag = "--output-schema")
      = schemaParts r.schemaPath :=
    List.filter_eq_self.mpr fun p hp => decide_eq_true (flag_of_mem_schemaParts hp)
  rw [hparts.read_eq]
  simp only [List.filter_append, hnone hparts.overrides (by decide),
    hnone hparts.options (by decide),
    hnone hparts.settings (by decide), hnone hparts.images (by decide), hresume, hschema,
    List.nil_append, List.append_nil]

end Executor

/-! ## Requests that always have a command

A command fails for a word that is no text or for an override without a TOML form. Neither occurs
where every option has the type that its description gives it, which is what the predicates here
say, field by field. -/

/-- An option that is a text, or not given. -/
inductive Value.IsOptionalText : Value → Prop where
  | absent : IsOptionalText .null
  | given (s : String) : IsOptionalText (.str s)

/-- An option that is a truth value, or not given. -/
inductive Value.IsOptionalSwitch : Value → Prop where
  | absent : IsOptionalSwitch .null
  | given (b : Bool) : IsOptionalSwitch (.bool b)

/-- **Options of a thread that have their types.** -/
structure ThreadOptions.WellTyped (o : ThreadOptions) : Prop where
  model : o.model.IsOptionalText
  sandboxMode : o.sandboxMode.IsOptionalText
  workingDirectory : o.workingDirectory.IsOptionalText
  skipRepositoryCheck : ∃ b, o.skipRepositoryCheck = .bool b
  reasoningEffort : o.reasoningEffort.IsOptionalText
  networkAccess : o.networkAccess.IsOptionalSwitch
  webSearch : o.webSearch.IsOptionalSwitch
  approvalPolicy : o.approvalPolicy.IsOptionalText
  additionalDirectories : ∀ d ∈ o.additionalDirectories, ∃ s, d = .str s

/-- Options of a thread of which each that is written as an override is a text or a truth value. -/
def ThreadOptions.HasSettings (o : ThreadOptions) : Prop :=
  ∀ item ∈ Executor.threadOverrides o, item.2.IsOptionalText ∨ item.2.IsOptionalSwitch

/-- A thread whose four fields have their types has settings that can be written. -/
theorem ThreadOptions.hasSettings_of_fields {o : ThreadOptions}
    (hreasoning : o.reasoningEffort.IsOptionalText) (hnetwork : o.networkAccess.IsOptionalSwitch)
    (hsearch : o.webSearch.IsOptionalSwitch) (happroval : o.approvalPolicy.IsOptionalText) :
    o.HasSettings := by
  simp only [HasSettings, Executor.threadOverrides, List.forall_mem_cons]
  exact ⟨.inl hreasoning, .inr hnetwork, .inr hsearch, .inl happroval, List.forall_mem_nil _⟩

/-- Options that have their types are such. -/
theorem ThreadOptions.WellTyped.hasSettings {o : ThreadOptions} (h : o.WellTyped) : o.HasSettings :=
  hasSettings_of_fields h.reasoningEffort h.networkAccess h.webSearch h.approvalPolicy

/-- **A request whose parts have their types**, its timeout apart. -/
structure TurnRequest.WellTyped (r : TurnRequest) : Prop where
  options : r.options.WellTyped
  images : ∀ image ∈ r.images, ∃ s, image = .str s

namespace Executor

theorem exists_threadOverrideWords (key : String) {v : Value}
    (h : v.IsOptionalText ∨ v.IsOptionalSwitch) :
    ∃ words, threadOverrideWords key v = .ok words := by
  rcases h with ⟨_ | s⟩ | ⟨_ | _ | _⟩ <;> exact ⟨_, rfl⟩

/-- Settings that are texts and switches can be written. -/
theorem exists_threadOverridesWords {items : List (String × Value)}
    (h : ∀ item ∈ items, item.2.IsOptionalText ∨ item.2.IsOptionalSwitch) :
    ∃ words, threadOverridesWords items = .ok words := by
  induction items with
  | nil => exact ⟨[], rfl⟩
  | cons item items ih =>
    obtain ⟨key, v⟩ := item
    rw [List.forall_mem_cons] at h
    obtain ⟨first, hfirst⟩ := exists_threadOverrideWords key h.1
    obtain ⟨rest, hrest⟩ := ih h.2
    exact ⟨first ++ rest, by rw [threadOverridesWords, hfirst, hrest]; rfl⟩

/-- The words of an option are texts if its value is, where it is given. -/
theorem exists_text_of_mem_flagWords {flag : String} {v w : Value}
    (h : v.isTruthy = true → ∃ t, v.text? = some t) (hw : w ∈ flagWords flag v) :
    ∃ t, w.text? = some t := by
  rw [flagWords] at hw
  split at hw
  · next htruthy =>
    rcases List.mem_cons.mp hw with rfl | hw
    · exact ⟨_, rfl⟩
    · exact List.mem_singleton.mp hw ▸ h htruthy
  · exact absurd hw List.not_mem_nil

theorem exists_text_of_isOptionalText {v : Value} (h : v.IsOptionalText) (hv : v.isTruthy = true) :
    ∃ t, v.text? = some t := by
  cases h with
  | absent => exact absurd hv Bool.false_ne_true
  | given s => exact ⟨_, rfl⟩

theorem exists_text_of_mem_flagText {flag : String} {t : Option WireText} {w : Value}
    (hw : w ∈ flagText flag t) : ∃ t, w.text? = some t := by
  refine exists_text_of_mem_flagWords (fun hv => ?_) hw
  cases t with
  | none => exact absurd hv Bool.false_ne_true
  | some t => exact ⟨t, t.text?_toValue⟩

theorem exists_text_of_mem_flatMap {flag : String} {vs : List Value} {w : Value}
    (h : ∀ v ∈ vs, ∃ s, v = .str s) (hw : w ∈ vs.flatMap fun v => [.str flag, v]) :
    ∃ t, w.text? = some t := by
  obtain ⟨v, hv, hw⟩ := List.mem_flatMap.mp hw
  obtain ⟨s, rfl⟩ := h v hv
  rcases List.mem_cons.mp hw with rfl | hw
  · exact ⟨_, rfl⟩
  · exact List.mem_singleton.mp hw ▸ ⟨_, rfl⟩

theorem exists_text_of_mem_textWords {ws : List String} {w : Value} (hw : w ∈ textWords ws) :
    ∃ t, w.text? = some t := by
  obtain ⟨s, -, rfl⟩ := List.mem_map.mp hw
  exact ⟨_, rfl⟩

/-- **A request whose parts have their types has a command.** -/
theorem exists_command (e : Executor) {r : TurnRequest} (h : r.WellTyped) :
    ∃ words, e.command r = .ok words := by
  obtain ⟨ho, himages⟩ := h
  obtain ⟨overrides, hover⟩ :
      ∃ words, threadOverridesWords (threadOverrides r.options) = .ok words :=
    exists_threadOverridesWords ho.hasSettings
  rw [command, commandWords, hover]
  refine exists_wordTexts (fun v hv => ?_) 0
  -- One case for each section of the command, in the order in which they are written.
  simp only [optionWords, List.mem_append] at hv
  rcases hv with (((hv | ((((hv | hv) | hv) | hv) | hv) | hv) | hv) | hv) | hv
  · exact exists_text_of_mem_textWords hv
  · exact exists_text_of_mem_flagWords (exists_text_of_isOptionalText ho.model) hv
  · exact exists_text_of_mem_flagWords (exists_text_of_isOptionalText ho.sandboxMode) hv
  · exact exists_text_of_mem_flagWords (exists_text_of_isOptionalText ho.workingDirectory) hv
  · exact exists_text_of_mem_flatMap ho.additionalDirectories hv
  · split at hv
    · exact List.mem_singleton.mp hv ▸ ⟨_, rfl⟩
    · exact absurd hv List.not_mem_nil
  · exact exists_text_of_mem_flagText hv
  · exact exists_text_of_mem_textWords hv
  · exact exists_text_of_mem_flagText hv
  · exact exists_text_of_mem_flatMap himages hv

/-! ### The place of the schema file

Two clients may keep their schema files in different directories. Their commands differ in one word,
and that word is a text in both, so one is refused just if the other is. -/

/-- Words that differ at most in texts fail alike, or are both accepted. -/
theorem wordTexts_cases {us vs : List Value}
    (h : List.Forall₂ (fun u v => u = v ∨ ∃ s t, u = .str s ∧ v = .str t) us vs) (index : Nat) :
    (∃ f, wordTexts index us = .error f ∧ wordTexts index vs = .error f) ∨
      ∃ xs ys, wordTexts index us = .ok xs ∧ wordTexts index vs = .ok ys := by
  induction h generalizing index with
  | nil => exact .inr ⟨[], [], rfl, rfl⟩
  | @cons u v us vs huv _ ih =>
    have htexts : ∀ {t t' : WireText}, u.text? = some t → v.text? = some t' →
        (∃ f, wordTexts index (u :: us) = .error f ∧ wordTexts index (v :: vs) = .error f) ∨
          ∃ xs ys, wordTexts index (u :: us) = .ok xs ∧ wordTexts index (v :: vs) = .ok ys := by
      intro t t' ht ht'
      rw [wordTexts_cons ht, wordTexts_cons ht']
      rcases ih (index + 1) with ⟨f, hf, hf'⟩ | ⟨xs, ys, hxs, hys⟩
      · rw [hf, hf']
        exact .inl ⟨f, rfl, rfl⟩
      · rw [hxs, hys]
        exact .inr ⟨_, _, rfl, rfl⟩
    -- The words at this place are one and the same, text or not, or two texts.
    rcases huv with rfl | ⟨s, t, rfl, rfl⟩
    · cases u with
      | str | broken => exact htexts rfl rfl
      | _ => exact .inl ⟨_, rfl, rfl⟩
    · exact htexts rfl rfl

/-- **Where the schema file is** has nothing to do with whether a request has a command. -/
theorem command_cases (e : Executor) (r : TurnRequest) (schema : Option String)
    {path path' : String}
    (hne : path ≠ "") (hne' : path' ≠ "") :
    (∃ f, e.command { r with schemaPath := schema.map fun _ => path } = .error f ∧
      e.command { r with schemaPath := schema.map fun _ => path' } = .error f) ∨
    ∃ words words', e.command { r with schemaPath := schema.map fun _ => path } = .ok words ∧
      e.command { r with schemaPath := schema.map fun _ => path' } = .ok words' := by
  rw [command, command, commandWords, commandWords]
  cases threadOverridesWords (threadOverrides r.options) with
  | error f => exact .inl ⟨f, rfl, rfl⟩
  | ok overrides =>
    have hrefl : ∀ ws : List Value,
        List.Forall₂ (fun u v => u = v ∨ ∃ s t : String, u = .str s ∧ v = .str t) ws ws :=
      fun ws => List.forall₂_same.mpr fun _ _ => .inl rfl
    have hflag : ∀ q : String, q ≠ "" →
        flagText "--output-schema" (some (.plain q)) = [.str "--output-schema", .str q] :=
      fun q hq => if_pos (decide_eq_true hq)
    refine wordTexts_cases ?_ 0
    -- all words are the same but for those of the schema file, which are two texts, or none
    simp only [optionWords]
    refine List.rel_append (List.rel_append (List.rel_append (List.rel_append (hrefl _)
      (List.rel_append (hrefl _) ?_)) (hrefl _)) (hrefl _)) (hrefl _)
    cases schema with
    | none => exact .nil
    | some _ =>
      show List.Forall₂ _ (flagText _ (some (.plain path))) (flagText _ (some (.plain path')))
      rw [hflag path hne, hflag path' hne']
      exact .cons (.inl rfl) (.cons (.inr ⟨_, _, rfl, rfl⟩) .nil)

end Executor

end AgentClient
