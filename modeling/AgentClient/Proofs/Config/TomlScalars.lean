import AgentClient.Config.Toml
import AgentClient.Proofs.Config.TomlReader
import AgentClient.Proofs.Number.Numerals

/-!
# Proofs/Config/TomlScalars — strings, numbers and keys as they are written read back

A string reads back character by character, whatever it holds (`readText_tomlText`).  A whole number
reads back, and a floating-point one as far as its own text does (`readNumber_intText`,
`readNumber_shortText`).  A key reads back unless it is bare but for a final line feed: it is then
written without marks, and a bare key ends before the line feed (`readKey_lineKey`).
-/

namespace AgentClient.Toml

open Number Config

/-! ## Strings

Three kinds of characters have to be told apart: those that stand for themselves, those with a short
escape, and those written by their number. Delete is of the third kind here, but of the first in
JSON, from which the rest of the text is taken. -/

/-- A character that stands for itself in what is written stands for itself in what is read. -/
theorem isRaw_of_isTomlPlain {c : Char} (h : isTomlPlain c = true) : isRaw c = true := by
  rw [isRaw, ← isTomlPlain, h, Bool.or_true]

/-- The code of a character is that of a scalar. -/
theorem scalar?_toNat (c : Char) : scalar? c.toNat = some c := by
  have hc : c.toNat < 0x110000 := by
    have hv : c.toNat < 0xD800 ∨ (0xDFFF < c.toNat ∧ c.toNat < 0x110000) := c.valid
    omega
  rw [scalar?, if_pos hc, Text.charOf?_toNat]

theorem readText_mark (cs : List Char) : readText ('"' :: cs) = some ([], cs) := by
  rw [readText.eq_def]
  rfl

/-- A character that stands for itself. -/
theorem readText_raw {c : Char} (hmark : c ≠ '"') (hslash : c ≠ '\\') (hraw : isRaw c = true)
    (cs : List Char) :
    readText (c :: cs) = (readText cs).map fun (text, rest) => (c :: text, rest) := by
  rw [readText.eq_def]
  simp only [if_neg hmark, if_neg hslash, if_pos hraw]

/-- An escape of one letter, which is neither of the two that begin a code. -/
theorem readText_short {e c : Char} (he : shortEscape? e = some c) (cs : List Char) :
    readText ('\\' :: e :: cs) = (readText cs).map fun (text, rest) => (c :: text, rest) := by
  have hunit : e ≠ 'u' ∧ e ≠ 'U' := by
    refine ⟨?_, ?_⟩ <;> rintro rfl
    · exact absurd (he.symm.trans (by decide : shortEscape? 'u' = none)) (Option.some_ne_none c)
    · exact absurd (he.symm.trans (by decide : shortEscape? 'U' = none)) (Option.some_ne_none c)
  rw [readText.eq_def]
  simp only [if_neg hunit.1, if_neg hunit.2, he]
  rfl

/-- An escape of four digits. -/
theorem readText_unit {h i j k c : Char} {n : Nat} (hn : Text.hexValue4? h i j k = some n)
    (hc : scalar? n = some c) (cs : List Char) :
    readText ('\\' :: 'u' :: h :: i :: j :: k :: cs)
      = (readText cs).map fun (text, rest) => (c :: text, rest) := by
  rw [readText.eq_def]
  simp only [if_true, hn, Option.bind_eq_bind, Option.bind_some, hc]
  exact if_neg (by decide)

/-- The letter of a short escape that is written is read as one for the same character. -/
theorem shortEscape?_of_letter {c letter : Char} (h : Json.shortEscapeLetter? c = some letter) :
    shortEscape? letter = some c := by
  revert h
  rw [Json.shortEscapeLetter?]
  split
  · next hc =>
    rintro ⟨⟩
    exact if_pos hc
  repeat' split
  all_goals first | (subst_vars; rintro ⟨⟩; rfl) | exact nofun

/-- **A character reads back**, whether it stands for itself or has an escape. -/
theorem readText_textChar (c : Char) (cs : List Char) :
    readText (Json.textChar isTomlPlain c ++ cs)
      = (readText cs).map fun (text, rest) => (c :: text, rest) := by
  rw [Json.textChar]
  -- A character is written as a short escape, as itself, or as a code. The mark and the backslash
  -- are of the first kind, so they cannot be taken for the others.
  cases hletter : Json.shortEscapeLetter? c with
  | some letter => exact readText_short (shortEscape?_of_letter hletter) cs
  | none =>
    have hmark : c ≠ '"' := by
      rintro rfl
      exact absurd hletter (by decide)
    have hslash : c ≠ '\\' := by
      rintro rfl
      exact absurd hletter (by decide)
    dsimp only
    cases hplain : isTomlPlain c with
    | true => exact readText_raw hmark hslash (isRaw_of_isTomlPlain hplain) cs
    | false =>
      have hsmall : c.toNat < 0x10000 := by
        rw [isTomlPlain, Bool.and_eq_false_iff, decide_eq_false_iff_not,
          decide_eq_false_iff_not] at hplain
        omega
      obtain ⟨h, i, j, k, hdigits, hvalue⟩ := Text.hexValue4?_hexDigits hsmall
      rw [if_neg Bool.false_ne_true, Json.codeEscape, if_pos hsmall, Json.unitEscape, hdigits]
      exact readText_unit hvalue (scalar?_toNat c) cs

/-- **A string reads back**, up to its closing mark. -/
theorem readText_textChars (cs rest : List Char) :
    readText (cs.flatMap (Json.textChar isTomlPlain) ++ '"' :: rest) = some (cs, rest) := by
  induction cs with
  | nil => exact readText_mark rest
  | cons c cs ih =>
    rw [List.flatMap_cons, List.append_assoc, readText_textChar, ih]
    rfl

theorem toList_tomlText (s : String) :
    (tomlText s).toList = '"' :: (s.toList.flatMap (Json.textChar isTomlPlain) ++ ['"']) := by
  rw [tomlText, String.toList_ofList]
  rfl

/-- The characters that stand for themselves in a JSON text that need not be ASCII. -/
def isJsonPlain (c : Char) : Bool :=
  0x20 ≤ c.toNat

/-- A character with delete escaped. -/
def escapeDelete (c : Char) : List Char :=
  if c = '\x7F' then Json.unitEscape 0x7F else [c]

theorem escapeDelete_of_ne {c : Char} (h : c ≠ '\x7F') : escapeDelete c = [c] :=
  if_neg h

/-- No delete stands in the escape of a control. -/
theorem flatMap_unitEscape {n : Nat} (hn : n < 0x20) :
    (Json.unitEscape n).flatMap escapeDelete = Json.unitEscape n := by
  revert n
  decide

/-- No delete stands in a short escape. -/
theorem ne_delete_of_letter {c letter : Char} (h : Json.shortEscapeLetter? c = some letter) :
    letter ≠ '\x7F' := by
  rintro rfl
  have hnone : shortEscape? '\x7F' = none := by decide
  exact absurd ((shortEscape?_of_letter h).symm.trans hnone) (Option.some_ne_none c)

/-- What JSON makes of a character holds no delete, unless it is the character itself. -/
theorem textChar_eq_flatMap (c : Char) :
    Json.textChar isTomlPlain c = (Json.textChar isJsonPlain c).flatMap escapeDelete := by
  rw [Json.textChar, Json.textChar]
  cases hletter : Json.shortEscapeLetter? c with
  | some letter =>
    dsimp only
    rw [List.flatMap_cons, List.flatMap_singleton,
      escapeDelete_of_ne (ne_delete_of_letter hletter)]
    rfl
  | none =>
    dsimp only
    -- The delete character is the only one that the two notations write differently.
    by_cases hdel : c = '\x7F'
    · subst hdel
      decide
    · have hcode : c.toNat ≠ 0x7F := fun h => hdel (Char.toNat_inj.mp h)
      by_cases hlow : 0x20 ≤ c.toNat
      · have htoml : isTomlPlain c = true := by simp [isTomlPlain, hlow, hcode]
        have hjson : isJsonPlain c = true := decide_eq_true hlow
        rw [if_pos htoml, if_pos hjson, List.flatMap_singleton, escapeDelete_of_ne hdel]
      · have htoml : isTomlPlain c = false := by simp [isTomlPlain, hlow]
        have hjson : isJsonPlain c = false := decide_eq_false hlow
        have hsmall : c.toNat < 0x10000 := by omega
        rw [htoml, hjson, if_neg Bool.false_ne_true, Json.codeEscape, if_pos hsmall,
          flatMap_unitEscape (by omega)]

/-- **A written string is the JSON text with every delete escaped afterwards**: none stands behind a
backslash that would take it. -/
theorem tomlText_eq_flatMap (s : String) :
    tomlText s = String.ofList ((Json.textChars isJsonPlain s.toList).flatMap escapeDelete) := by
  rw [tomlText, Json.textChars, Json.textChars, List.flatMap_append, List.flatMap_cons,
    List.flatMap_assoc, funext textChar_eq_flatMap]
  rfl

/-! ## Numbers

A number is followed by a character that belongs to none, so it is taken whole. -/

/-- What no number goes on with. -/
def EndsNumber (rest : List Char) : Prop :=
  ∀ c ∈ rest.head?, isNumberChar c = false

/-- What is read as far as its characters go is read to its end, if what follows begins otherwise.
-/
theorem span_append {p : Char → Bool} {xs rest : List Char} (hxs : ∀ c ∈ xs, p c = true)
    (hrest : ∀ c ∈ rest.head?, p c = false) :
    (xs ++ rest).takeWhile p = xs ∧ (xs ++ rest).dropWhile p = rest := by
  rw [List.takeWhile_append_of_pos hxs, List.dropWhile_append_of_pos hxs]
  cases rest with
  | nil => exact ⟨List.append_nil xs, rfl⟩
  | cons c rest =>
    rw [List.takeWhile_cons, List.dropWhile_cons, hrest c rfl]
    exact ⟨List.append_nil xs, rfl⟩

/-- A number is read as far as its characters go. -/
theorem readNumber_append {token rest : List Char} (htoken : ∀ c ∈ token, isNumberChar c = true)
    (hrest : EndsNumber rest) :
    readNumber (token ++ rest) = (number? token).map fun v => (v, rest) := by
  obtain ⟨htake, hdrop⟩ := span_append htoken hrest
  rw [readNumber, htake, hdrop]

theorem isNumberChar_of_isDigit {c : Char} (h : c.isDigit = true) : isNumberChar c = true := by
  simp only [isNumberChar, h, Bool.true_or]

theorem eq_zero_of_isDigit {c : Char} (hc : c.isDigit = true) (h : c.toNat - 48 = 0) : c = '0' := by
  rw [Char.isDigit, Bool.and_eq_true, decide_eq_true_eq, ge_iff_le, UInt32.le_iff_toNat_le] at hc
  have hlow : 48 ≤ c.toNat := hc.1
  rw [← Char.ofNat_toNat c, show c.toNat = 48 by omega]

/-- A whole part reads back. -/
theorem wholePart?_append {whole rest : List Char} (hw : IsWhole whole) (hr : EndsRun rest) :
    wholePart? (whole ++ rest) = some (digitValues whole, rest) := by
  obtain ⟨c, cs, rfl⟩ := List.exists_cons_of_ne_nil hw.ne_nil
  have hlong : (digitValues (c :: cs)).length = (c :: cs).length := List.length_map _
  -- A whole part of more than one digit does not begin with a zero, so it is not taken for one with
  -- a zero in front.
  have hhead : ¬ ((digitValues (c :: cs)).head? = some 0 ∧ 1 < (digitValues (c :: cs)).length) := by
    rintro ⟨hzero, hlen⟩
    refine hw.head_ne (hlong ▸ hlen) ?_
    rw [List.head?_cons,
      eq_zero_of_isDigit (hw.areDigits c List.mem_cons_self) (Option.some.inj hzero)]
  rw [wholePart?, takeDigits_append hw.areDigits hr]
  refine if_neg ?_
  rw [Bool.or_eq_true, Bool.and_eq_true, decide_eq_true_eq, decide_eq_true_eq, decide_eq_true_eq]
  exact fun h => h.elim (fun h => absurd h (List.cons_ne_nil _ _)) hhead

/-- **A whole number reads back.** -/
theorem number?_intText (n : Int) : number? (intText n).toList = some (.int n) := by
  -- With a sign or without, all of the text is a whole part, so it is a whole number.
  have hdigits : ∀ (negative : Bool) (m : Nat),
      number? ((if negative then ['-'] else []) ++ digits m)
        = some (.int (if negative then -(m : Int) else m)) := by
    intro negative m
    obtain ⟨c, cs, hcs⟩ := List.exists_cons_of_ne_nil (digits_ne_nil m)
    have hc : c.isDigit = true := areDigits_digits m c (hcs ▸ List.mem_cons_self)
    have hend : EndsRun [] := nofun
    have hwhole := wholePart?_append (isWhole_digits m) hend
    rw [List.append_nil] at hwhole
    rw [number?, hcs, takeSign_append negative hc, ← hcs]
    simp only [hwhole, ofDigits_digitValues_digits]
  cases n with
  | ofNat m =>
    rw [intText, String.toList_ofList]
    exact hdigits false m
  | negSucc m =>
    rw [intText, String.toList_ofList]
    exact hdigits true (m + 1)

/-- The text of a whole number has only characters of numbers. -/
theorem isNumberChar_of_mem_intText (n : Int) :
    ∀ c ∈ (intText n).toList, isNumberChar c = true := by
  cases n with
  | ofNat m =>
    rw [intText, String.toList_ofList]
    exact fun c hc => isNumberChar_of_isDigit (areDigits_digits m c hc)
  | negSucc m =>
    rw [intText, String.toList_ofList]
    exact List.forall_mem_cons.mpr
      ⟨rfl, fun c hc => isNumberChar_of_isDigit (areDigits_digits (m + 1) c hc)⟩

/-! ### Floating-point numbers

The text of such a number always has a point or an exponent, and therefore is never taken for a
whole number. That it reads back as the same number is an assumption about the value, made once in
`isFaithful`. -/

/-- Behind the whole part stands a point, a letter or nothing, so its digits end there. -/
theorem endsRun_append {part exponent : List Char} (hp : IsFraction part)
    (he : IsExponent exponent) :
    EndsRun (part ++ exponent) := by
  cases hp with
  | digits => exact fun c hc => Option.some.inj hc ▸ ⟨rfl, by decide⟩
  | absent =>
    cases he with
    | absent => exact nofun
    | digits => exact fun c hc => Option.some.inj hc ▸ ⟨rfl, by decide⟩

/-- An exponent that is written is one that is read. -/
theorem isExponent_of_isExponent {exponent : List Char} (h : IsExponent exponent)
    (hne : exponent ≠ []) : isExponent exponent = true := by
  cases h with
  | absent => exact absurd rfl hne
  | @digits sign ds hsign hds hnil =>
    have hsigned : (takeSign (sign :: ds)).2 = ds := by
      rcases hsign with rfl | rfl <;> rfl
    have hend : EndsRun [] := nofun
    have hrun := takeDigits_append hds hend
    obtain ⟨d, more, rfl⟩ := List.exists_cons_of_ne_nil hnil
    rw [List.append_nil] at hrun
    rw [isExponent, hsigned, hrun]
    rfl

/-- What stands behind the whole part of a number that cannot be whole is taken for that. -/
theorem isPoint_append {part exponent : List Char} (hp : IsFraction part) (he : IsExponent exponent)
    (hne : part ++ exponent ≠ []) : isPoint (part ++ exponent) = true := by
  -- What follows the whole part is a fraction, with an exponent or without, or an exponent alone.
  cases hp with
  | absent =>
    rw [List.nil_append] at hne ⊢
    have hexp := isExponent_of_isExponent he hne
    cases he with
    | absent => exact absurd rfl hne
    | digits => exact hexp
  | @digits ds hds hnil =>
    have hrun := takeDigits_append hds (endsRun_append .absent he)
    obtain ⟨d, more, rfl⟩ := List.exists_cons_of_ne_nil hnil
    rw [List.nil_append] at hrun
    rw [List.cons_append, isPoint, hrun]
    show (exponent.isEmpty || isExponent exponent) = true
    rcases exponent with _ | ⟨e, es⟩
    · rfl
    · rw [isExponent_of_isExponent he (List.cons_ne_nil _ _), Bool.or_true]

/-- A text that cannot be a whole number is read as a floating-point one. -/
theorem number?_of_isPointed (negative : Bool) {body : List Char} (h : IsPointed body) :
    number? ((if negative then ['-'] else []) ++ body)
      = (readFloat? (String.ofList ((if negative then ['-'] else []) ++ body))).map .float := by
  cases h with
  | @mk whole part exponent hw hp he hne =>
    have hwhole := wholePart?_append hw (endsRun_append hp he)
    have hpoint := isPoint_append hp he hne
    obtain ⟨c, cs, rfl⟩ := List.exists_cons_of_ne_nil hw.ne_nil
    obtain ⟨e, es, hes⟩ := List.exists_cons_of_ne_nil hne
    have hsign := takeSign_append negative (hw.areDigits c List.mem_cons_self)
      (cs ++ (part ++ exponent))
    rw [← List.cons_append] at hsign
    -- Something follows the whole part, so the number is not whole, and it is read from all of its
    -- text.
    rw [number?, hsign]
    rw [hes] at hwhole hpoint ⊢
    simp only [hwhole, hpoint, if_true]

/-- A number with a fraction or an exponent has only characters of numbers. -/
theorem isNumberChar_of_mem_isPointed {body : List Char} (h : IsPointed body) :
    ∀ c ∈ body, isNumberChar c = true := by
  cases h with
  | @mk whole part exponent hw hp he hne =>
    have hdigits : ∀ {ds : List Char}, AreDigits ds → ∀ c ∈ ds, isNumberChar c = true :=
      fun h c hc => isNumberChar_of_isDigit (h c hc)
    refine List.forall_mem_append.mpr ⟨hdigits hw.areDigits, List.forall_mem_append.mpr ⟨?_, ?_⟩⟩
    · cases hp with
      | absent => exact nofun
      | digits hds => exact List.forall_mem_cons.mpr ⟨rfl, hdigits hds⟩
    · cases he with
      | absent => exact nofun
      | digits hsign hds =>
        refine List.forall_mem_cons.mpr ⟨rfl, List.forall_mem_cons.mpr ⟨?_, hdigits hds⟩⟩
        rcases hsign with rfl | rfl <;> rfl

/-- **A finite number reads back** as a floating-point one, if its text does. -/
theorem number?_shortText {x : Binary64} (hx : x.isFinite = true)
    (hread : readFloat? x.shortText = some x) : number? x.shortText.toList = some (.float x) := by
  obtain ⟨negative, body, htext, hbody⟩ := exists_shortText hx
  rw [htext, number?_of_isPointed negative hbody, ← htext, String.ofList_toList, hread]
  rfl

/-- So has the text of every finite number. -/
theorem isNumberChar_of_mem_shortText {x : Binary64} (hx : x.isFinite = true) :
    ∀ c ∈ x.shortText.toList, isNumberChar c = true := by
  obtain ⟨negative, body, htext, hbody⟩ := exists_shortText hx
  rw [htext]
  refine List.forall_mem_append.mpr ⟨?_, isNumberChar_of_mem_isPointed hbody⟩
  cases negative with
  | true => exact fun c hc => List.mem_singleton.mp hc ▸ rfl
  | false => exact nofun

/-! ## Keys

The rule by which keys are written bare looks at a key without its final line feed. So there is one
kind of key that is written bare and is not. -/

/-- Whether a key is bare but for a line feed at its end. -/
def isLineKey (name : String) : Bool :=
  name.toList.getLast? = some '\n' && !name.toList.dropLast.isEmpty &&
    name.toList.dropLast.all isKeyChar

/-- A key that is bare but for a line feed at its end. -/
theorem isLineKey_iff {name : String} :
    isLineKey name = true ↔
      ∃ body, body ≠ [] ∧ (∀ c ∈ body, isKeyChar c = true) ∧ name.toList = body ++ ['\n'] := by
  rw [isLineKey, Bool.and_eq_true, Bool.and_eq_true, Bool.not_eq_true', decide_eq_true_eq,
    List.isEmpty_eq_false_iff, List.all_eq_true]
  constructor
  · rintro ⟨⟨hlast, hne⟩, hbare⟩
    exact ⟨_, hne, hbare, (List.dropLast_append_getLast? _ hlast).symm⟩
  · rintro ⟨body, hne, hbare, hname⟩
    rw [hname, List.dropLast_concat]
    exact ⟨⟨List.getLast?_concat, hne⟩, hbare⟩

/-- The two rules for bare characters agree. -/
theorem isBareChar_eq (c : Char) : isBareChar c = isKeyChar c := by
  have hupper : c.isUpper = (decide ('A' ≤ c) && decide (c ≤ 'Z')) := Bool.decide_and _ _
  change _ = (c.isUpper || c.isLower || c.isDigit || decide (c = '_') || decide (c = '-'))
  rw [hupper]
  rfl

/-- A key of bare characters is read as far as they go. -/
theorem readKey_append {name rest : List Char} (hname : ∀ c ∈ name, isKeyChar c = true)
    (hne : name ≠ []) (hrest : ∀ c ∈ rest.head?, isKeyChar c = false) :
    readKey (name ++ rest) = some (String.ofList name, rest) := by
  obtain ⟨htake, hdrop⟩ := span_append hname hrest
  obtain ⟨c, cs, rfl⟩ := List.exists_cons_of_ne_nil hne
  have hc : isKeyChar c = true := hname c List.mem_cons_self
  have hmark : c ≠ '"' := by
    rintro rfl
    exact absurd hc (by decide)
  rw [List.cons_append] at htake hdrop ⊢
  rw [readKey, if_neg hmark, if_pos hc, htake, hdrop]

/-- A quoted key is read as the string that it is. -/
theorem readKey_tomlText (name : String) (rest : List Char) :
    readKey ((tomlText name).toList ++ rest) = some (name, rest) := by
  rw [toList_tomlText, List.cons_append, List.append_assoc, readKey, if_pos rfl]
  rw [List.singleton_append, readText_textChars, Option.map_some]
  dsimp only
  rw [String.ofList_toList]

/-- How keys are written: without marks if they are bare or bare but for a line feed at the end, and
quoted otherwise. -/
theorem tomlKey_cases (name : String) :
    (isLineKey name = true ∧ tomlKey name = name) ∨
    (isLineKey name = false ∧ tomlKey name = name ∧ name.toList ≠ [] ∧
      ∀ c ∈ name.toList, isKeyChar c = true) ∨
    (isLineKey name = false ∧ tomlKey name = tomlText name) := by
  rw [tomlKey, isBareKey, dropFinalNewline, isLineKey, funext isBareChar_eq]
  -- A line feed at the end is dropped before the key is looked at, so such a key is written as it
  -- is.
  by_cases hlast : name.toList.getLast? = some '\n'
  · rw [if_pos hlast, decide_eq_true hlast, Bool.true_and]
    cases !name.toList.dropLast.isEmpty && name.toList.dropLast.all isKeyChar with
    | true => exact .inl ⟨rfl, rfl⟩
    | false => exact .inr (.inr ⟨rfl, rfl⟩)
  · rw [if_neg hlast, decide_eq_false hlast, Bool.false_and, Bool.false_and]
    right
    cases hbare : !name.toList.isEmpty && name.toList.all isKeyChar with
    | false => exact .inr ⟨rfl, rfl⟩
    | true =>
      rw [Bool.and_eq_true, Bool.not_eq_true', List.isEmpty_eq_false_iff, List.all_eq_true] at hbare
      exact .inl ⟨rfl, rfl, hbare⟩

/-- **A key reads back**, unless it is bare but for a line feed at its end. -/
theorem readKey_tomlKey {name : String} (h : isLineKey name = false) {rest : List Char}
    (hrest : ∀ c ∈ rest.head?, isKeyChar c = false) :
    readKey ((tomlKey name).toList ++ rest) = some (name, rest) := by
  rcases tomlKey_cases name with ⟨hline, -⟩ | ⟨-, hkey, hne, hbare⟩ | ⟨-, hkey⟩
  · exact absurd (h.symm.trans hline) Bool.false_ne_true
  · rw [hkey, readKey_append hbare hne hrest, String.ofList_toList]
  · rw [hkey, readKey_tomlText]

/-- **A key that is bare but for a line feed** ends before the line feed. -/
theorem readKey_lineKey {name : String} (h : isLineKey name = true) (rest : List Char) :
    ∃ key, readKey ((tomlKey name).toList ++ rest) = some (key, '\n' :: rest) := by
  rcases tomlKey_cases name with ⟨-, hkey⟩ | ⟨hline, -⟩ | ⟨hline, -⟩
  · obtain ⟨body, hne, hbare, hname⟩ := isLineKey_iff.mp h
    refine ⟨String.ofList body, ?_⟩
    rw [hkey, hname, List.append_assoc]
    exact readKey_append hbare hne fun c hc => Option.some.inj hc ▸ (by decide)
  · exact absurd (hline.symm.trans h) Bool.false_ne_true
  · exact absurd (hline.symm.trans h) Bool.false_ne_true

end AgentClient.Toml
