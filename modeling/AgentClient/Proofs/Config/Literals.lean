import AgentClient.Config.Overrides
import AgentClient.Proofs.Config.TomlRoundTrip
import AgentClient.Proofs.Json.RoundTrip

/-!
# Proofs/Config/Literals — where a TOML literal is the JSON of the same value

An override is written as TOML and read as JSON.  The two notations agree on strings, truth values,
whole numbers and lists of them: what is written of such a leaf is a JSON document for it
(`standsFor_toml`), so it is what an override with that literal puts (`overrideValue_of_toml`). -/

namespace AgentClient

namespace Config

open Json Number

/-- A leaf of a configuration: a string, a truth value, a whole number that is not too long to be
written, or a list of leaves, with at most `depth` lists around any part. -/
inductive IsLeaf : Nat → Value → Prop where
  | str {depth : Nat} (s : String) : IsLeaf depth (.str s)
  | bool {depth : Nat} (b : Bool) : IsLeaf depth (.bool b)
  | int {depth : Nat} {n : Int} (hn : isOverlong n = false) : IsLeaf depth (.int n)
  | list {depth : Nat} {items : List Value} (hitems : ∀ v ∈ items, IsLeaf depth v) :
    IsLeaf (depth + 1) (.list items)

theorem IsLeaf.mono {depth depth' : Nat} {v : Value} (h : IsLeaf depth v) (hle : depth ≤ depth') :
    IsLeaf depth' v := by
  induction h generalizing depth' with
  | str s => exact .str s
  | bool b => exact .bool b
  | int hn => exact .int hn
  | list _ ih =>
    obtain ⟨d, rfl⟩ := Nat.exists_eq_add_of_lt hle
    exact .list fun v hv => ih v hv (by omega)

/-! ## Literals

The reader of JSON is followed over a text that was written as TOML. Only the delete character is
written differently in a string, and its escape is one of JSON too. -/

/-- A literal begins like a JSON value. -/
theorem beginsValue_toml {path text : String} {v : Value} (h : toml path v = .ok text) :
    BeginsValue text.toList := by
  obtain ⟨c, cs, hcs, hc⟩ := Toml.beginsWith_toml h
  have hne : ∀ {d : Char}, Toml.isOpening d = false → c ≠ d := Toml.ne_of_class hc
  refine ⟨c, cs, hcs, ?_, hne (by decide), hne (by decide)⟩
  simp [isGap, hne (d := ' ') (by decide), hne (d := '\t') (by decide),
    hne (d := '\n') (by decide), hne (d := '\r') (by decide)]

theorem le_toNat_of_isTomlPlain (c : Char) (h : isTomlPlain c = true) : 0x20 ≤ c.toNat := by
  rw [isTomlPlain, Bool.and_eq_true, decide_eq_true_eq] at h
  exact h.1

theorem readValueWith_tomlText (d : Dialect) (inner? : Option ValueReader) (s : String)
    (rest : List Char) :
    readValueWith d inner? ((tomlText s).toList ++ rest) = .ok (.str s, rest) := by
  rw [Toml.toList_tomlText, List.cons_append, List.append_assoc, List.singleton_append,
    readValueWith, readText_textChars _ le_toNat_of_isTomlPlain]
  rfl

theorem readValueWith_boolText (d : Dialect) (inner? : Option ValueReader) (b : Bool)
    (rest : List Char) :
    readValueWith d inner? ((if b then "true" else "false").toList ++ rest)
      = .ok (.bool b, rest) := by
  cases b <;> rfl

/-- A reader of scalars reads them at every depth. -/
theorem readValue_of_readValueWith {d : Dialect} {cs rest : List Char} {v : Value}
    (h : ∀ inner?, readValueWith d inner? cs = .ok (v, rest)) (depth : Nat) :
    readValue d depth cs = .ok (v, rest) := by
  cases depth with
  | zero => exact h none
  | succ depth => exact h (some (readValue d depth))

/-- The members of a list stand for themselves if each of them does, wherever it is. -/
theorem exists_tomlItems {inner : ValueReader} {items : List Value}
    (h : ∀ v ∈ items, ∀ path, ∃ text, toml path v = .ok text ∧ StandsFor inner text v)
    (path : String) (index : Nat) :
    ∃ texts, tomlItems path index items = .ok texts ∧
      List.Forall₂ (StandsFor inner) texts items := by
  induction items generalizing index with
  | nil => exact ⟨[], rfl, .nil⟩
  | cons v vs ih =>
    rw [List.forall_mem_cons] at h
    obtain ⟨text, htext, hstands⟩ := h.1 (itemPath path index)
    obtain ⟨texts, htexts, hall⟩ := ih h.2 (index + 1)
    refine ⟨text :: texts, ?_, .cons hstands hall⟩
    rw [tomlItems, htext, htexts]
    rfl

/-- **A leaf has a literal, and the literal is its JSON**, whatever follows. -/
theorem standsFor_toml {depth : Nat} {v : Value} (h : IsLeaf depth v) (d : Dialect)
    (path : String) :
    ∃ text, toml path v = .ok text ∧ StandsFor (readValue d depth) text v := by
  induction h generalizing path with
  | str s =>
    have htext : toml path (.str s) = .ok (tomlText s) := rfl
    refine ⟨_, htext, beginsValue_toml htext, fun rest _ => ?_⟩
    exact readValue_of_readValueWith (fun inner? => readValueWith_tomlText d inner? s rest) _
  | bool b =>
    have htext : toml path (.bool b) = .ok (if b then "true" else "false") := by cases b <;> rfl
    refine ⟨_, htext, beginsValue_toml htext, fun rest _ => ?_⟩
    exact readValue_of_readValueWith (fun inner? => readValueWith_boolText d inner? b rest) _
  | @int depth n hn =>
    have htext : toml path (.int n) = .ok (intText n) := by rw [toml, hn]; rfl
    refine ⟨_, htext, beginsValue_toml htext, fun rest hrest => ?_⟩
    exact readValue_of_readValueWith (fun inner? => readValueWith_intText hn d inner? hrest) _
  | @list depth items _ ih =>
    obtain ⟨texts, htexts, hall⟩ := exists_tomlItems ih path 0
    have htext : toml path (.list items) = .ok ("[" ++ Text.join ", " texts ++ "]") := by
      rw [toml, htexts]
      rfl
    refine ⟨_, htext, beginsValue_toml htext, fun rest _ => ?_⟩
    rw [String.toList_append, String.toList_append, List.append_assoc, List.append_assoc]
    show (readArray (readValue d depth) (Layout.plain.chars texts (']' :: rest)) >>= _) = _
    rw [readArray_chars .plain hall]
    rfl

/-! ## Overrides

The text behind the sign of an override may have anything in front of it and behind it that JSON
lets stand there; a literal has nothing. -/

/-- A leaf that is nested no deeper than a document of the wire is what its literal puts. -/
theorem overrideValue_of_toml {depth : Nat} {v : Value} (h : IsLeaf depth v)
    (hdepth : depth ≤ Dialect.wire.maxDepth) (path : String) :
    ∃ text, toml path v = .ok text ∧ overrideValue text = .ok v := by
  obtain ⟨text, htext, hstands⟩ := standsFor_toml (h.mono hdepth) .wire path
  have hread := hstands.reads [] nofun
  rw [List.append_nil] at hread
  refine ⟨text, htext, ?_⟩
  rw [overrideValue, Json.read, readDocument, if_neg hstands.begins.head?_ne,
    hstands.begins.skipGap_eq, hread]
  rfl

end Config

end AgentClient
