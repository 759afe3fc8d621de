import AgentClient.Proofs.Json.RoundTrip
import AgentClient.Proofs.Json.TrailingReturn

/-!
# Proofs/Json/Limits — what a text looks like that meets a limit of its reader

A reader gives up on a text for two reasons that are no fault of its syntax: too many arrays and
objects inside one another, and too many digits in a whole number.  What that means is said by a
scan of the text that knows marks of texts and brackets only (`Scan`).  The scan and the readers go
along together (`IsScanned`), so **a limit is met only where the scan has that many arrays and
objects open**, or stands outside any text before that many digits (`isMet_of_read`).  Brackets
enough meet the one limit whatever stands behind them (`read_replicate_bracket`), and digits enough
the other (`read_digits`).
-/

namespace AgentClient.Json

open Number

/-! ## Scanning

The scan is much simpler than a reader: it does not know what a number, a name or a comma is. It is
right about brackets as long as it knows which of them are inside texts, and for that it has to know
marks and backslashes. -/

/-- Where a scan is. -/
inductive Region where
  | outside
  | inText
  /-- Behind a backslash in a text. -/
  | escaped
  deriving DecidableEq, Repr

/-- How many arrays and objects are open, and where the scan is. -/
structure Scan where
  opened : Nat
  region : Region
  deriving DecidableEq, Repr

/-- Whether a character changes a scan that is outside of texts. -/
def isMark (c : Char) : Bool :=
  c = '"' || c = '[' || c = '\x7b' || c = ']' || c = '\x7d'

namespace Scan

/-- One character more. -/
def step : Scan → Char → Scan
  | ⟨n, .outside⟩, c =>
    if c = '"' then ⟨n, .inText⟩
    else if c = '[' || c = '\x7b' then ⟨n + 1, .outside⟩
    else if c = ']' || c = '\x7d' then ⟨n - 1, .outside⟩
    else ⟨n, .outside⟩
  | ⟨n, .inText⟩, c =>
    if c = '"' then ⟨n, .outside⟩ else if c = '\\' then ⟨n, .escaped⟩ else ⟨n, .inText⟩
  | ⟨n, .escaped⟩, _ => ⟨n, .inText⟩

/-- A scan after some characters more. -/
def past (s : Scan) (cs : List Char) : Scan :=
  cs.foldl step s

/-- Outside of texts, with some arrays and objects open. -/
abbrev outside (n : Nat) : Scan :=
  ⟨n, .outside⟩

theorem past_append (s : Scan) (cs cs' : List Char) : s.past (cs ++ cs') = (s.past cs).past cs' :=
  List.foldl_append

/-- A character that is no mark leaves the scan where it is. -/
theorem step_of_not_isMark {c : Char} (h : isMark c = false) (n : Nat) :
    (outside n).step c = outside n := by
  simp only [isMark, Bool.or_eq_false_iff, decide_eq_false_iff_not] at h
  obtain ⟨⟨⟨⟨hmark, hopen⟩, hbrace⟩, hclose⟩, hend⟩ := h
  simp [step, hmark, hopen, hbrace, hclose, hend]

theorem past_of_not_isMark {cs : List Char} (h : ∀ c ∈ cs, isMark c = false) (n : Nat) :
    (outside n).past cs = outside n := by
  induction cs with
  | nil => rfl
  | cons c cs ih =>
    rw [List.forall_mem_cons] at h
    rw [past, List.foldl_cons, step_of_not_isMark h.1]
    exact ih h.2

/-- A character of a text that neither ends it nor begins an escape. -/
theorem step_inText {c : Char} (hmark : c ≠ '"') (hslash : c ≠ '\\') (n : Nat) :
    step ⟨n, .inText⟩ c = ⟨n, .inText⟩ := by
  rw [step, if_neg hmark, if_neg hslash]

end Scan

/-! ## Limits

What a text holds that meets a limit is said by the scan alone, so it does not depend on how far a
reader got. A stop for a fault of the syntax says nothing here. Reading and scanning are put
together by `IsScanned`, which carries over from one reader to the next like the readers themselves.
-/

/-- A text in which more than `depth` arrays and objects are inside one another: at some place of it
that many are open. -/
def NestsBeyond (depth : Nat) (s : Scan) (cs : List Char) : Prop :=
  ∃ front rest, cs = front ++ rest ∧ s.past front = .outside (depth + 1)

/-- A text with a run of so many digits outside of texts. -/
def HasDigitRun (count : Nat) (s : Scan) (cs : List Char) : Prop :=
  ∃ front ds rest, cs = front ++ (ds ++ rest) ∧ (s.past front).region = .outside
    ∧ AreDigits ds ∧ ds.length = count ∧ ∀ c ∈ rest.head?, c.isDigit = false

/-- What a text holds in which a reader stops: nothing that is said here, or what meets a limit. -/
def Stop.IsMet (depth : Nat) (s : Scan) (cs : List Char) : Stop → Prop
  | .malformed .. => True
  | .tooDeep _ => NestsBeyond depth s cs
  | .tooManyDigits count => maxDigits < count ∧ HasDigitRun count s cs

/-- The outcome of a reader on a text, next to a scan of it that is at `s` before the reader and at
`s'` behind what it has read. -/
inductive IsScanned {α : Type} (depth : Nat) (s s' : Scan) (cs : List Char) :
    Except Stop (α × List Char) → Prop
  | ok (a : α) (front : List Char) {rest : List Char} (h : cs = front ++ rest)
      (hpast : s.past front = s') :
    IsScanned depth s s' cs (.ok (a, rest))
  | error {f : Stop} (h : f.IsMet depth s cs) : IsScanned depth s s' cs (.error f)

section

variable {α β : Type} {depth : Nat} {s s' s'' : Scan} {cs : List Char}

/-- What holds behind some characters holds with them in front. -/
theorem Stop.IsMet.append_left {f : Stop} (front : List Char)
    (h : f.IsMet depth (s.past front) cs) : f.IsMet depth s (front ++ cs) := by
  cases f with
  | malformed => trivial
  | tooDeep nest =>
    obtain ⟨front', rest, rfl, hpast⟩ := h
    exact ⟨front ++ front', rest, (List.append_assoc ..).symm, (Scan.past_append ..).trans hpast⟩
  | tooManyDigits count =>
    obtain ⟨hmany, front', ds, rest, rfl, hregion, hds⟩ := h
    refine ⟨hmany, front ++ front', ds, rest, (List.append_assoc ..).symm, ?_, hds⟩
    rw [Scan.past_append]
    exact hregion

namespace IsScanned

variable {x : Except Stop (α × List Char)}

theorem malformed (what : Complaint) (rest : List Char) :
    IsScanned depth s s' cs (.error (.malformed what rest) : Except Stop (α × List Char)) :=
  .error trivial

/-- What is scanned behind a front is scanned behind all of it. -/
theorem append_left (front : List Char) (h : IsScanned depth (s.past front) s' cs x) :
    IsScanned depth s s' (front ++ cs) x := by
  cases h with
  | ok a front' h hpast =>
    exact .ok a (front ++ front') (h ▸ (List.append_assoc ..).symm)
      ((Scan.past_append ..).trans hpast)
  | error h => exact .error (h.append_left front)

/-- Behind a mark, an escape or a character. -/
theorem cons {c : Char} (h : IsScanned depth (s.step c) s' cs x) :
    IsScanned depth s s' (c :: cs) x :=
  append_left [c] h

/-- What is read next is scanned next. -/
theorem bind (h : IsScanned depth s s' cs x) {g : α × List Char → Except Stop (β × List Char)}
    (hg : ∀ a rest, IsScanned depth s' s'' rest (g (a, rest))) :
    IsScanned depth s s'' cs (x >>= g) := by
  cases h with
  | ok a front h hpast =>
    subst h
    exact append_left front (hpast ▸ hg a _)
  | error h => exact .error h

/-- What is made of a value makes no difference to the scan. -/
theorem map (h : IsScanned depth s s' cs x) (g : α → β) :
    IsScanned depth s s' cs (x.map fun (a, rest) => (g a, rest)) := by
  cases h with
  | ok a front h hpast => exact .ok (g a) front h hpast
  | error h => exact .error h

end IsScanned

end

/-! ## Texts

Within a text no bracket counts. An escape hides one character, and the four digits of a code escape
are no marks. -/

variable {depth n : Nat} {cs : List Char}

theorem ne_mark_of_hexValue? {c : Char} (h : (Text.hexValue? c).isSome) : c ≠ '"' ∧ c ≠ '\\' := by
  constructor <;> rintro rfl <;> exact absurd h (by decide)

/-- A code is made of four digits. -/
theorem isSome_of_hexValue4? {h i j k : Char} {unit : Nat}
    (hvalue : Text.hexValue4? h i j k = some unit) :
    ∀ c ∈ [h, i, j, k], (Text.hexValue? c).isSome := by
  obtain ⟨_, hh, hvalue⟩ := Option.bind_eq_some_iff.mp hvalue
  obtain ⟨_, hi, hvalue⟩ := Option.bind_eq_some_iff.mp hvalue
  obtain ⟨_, hj, hvalue⟩ := Option.bind_eq_some_iff.mp hvalue
  obtain ⟨_, hk, -⟩ := Option.bind_eq_some_iff.mp hvalue
  simp [hh, hi, hj, hk]

/-- The digits of a code escape keep a scan in the text. -/
theorem Scan.past_codeEscape {h i j k : Char} {unit : Nat}
    (hvalue : Text.hexValue4? h i j k = some unit) (n : Nat) :
    Scan.past ⟨n, .inText⟩ ['\\', 'u', h, i, j, k] = ⟨n, .inText⟩ := by
  have hdigit : ∀ c ∈ [h, i, j, k], Scan.step ⟨n, .inText⟩ c = ⟨n, .inText⟩ := fun c hc =>
    have hne := ne_mark_of_hexValue? (isSome_of_hexValue4? hvalue c hc)
    Scan.step_inText hne.1 hne.2 n
  show Scan.step (Scan.step (Scan.step (Scan.step ⟨n, .inText⟩ h) i) j) k = _
  rw [hdigit h (by simp), hdigit i (by simp), hdigit j (by simp), hdigit k (by simp)]

/-- **Reading a text** goes to its closing mark: escapes and plain characters keep the scan inside
of the text. -/
theorem isScanned_readUnits (start cs : List Char) :
    IsScanned depth ⟨n, .inText⟩ (.outside n) cs (readUnits start cs) := by
  -- The cases that go on are a code escape, a short escape and a plain character; the others fail.
  fun_induction readUnits start cs with
  | case2 rest => exact .ok [] ['"'] rfl rfl
  | case6 i j k l rest unit hvalue _ _ ih =>
    refine .append_left ['\\', 'u', i, j, k, l] ?_
    rw [Scan.past_codeEscape hvalue]
    exact ih.map _
  | case9 e rest _ d _ _ ih => exact .append_left ['\\', e] (ih.map _)
  | case11 c rest hmark hslash _ ih =>
    refine .cons ?_
    rw [Scan.step_inText hmark hslash]
    exact ih.map _
  | _ => exact .malformed ..

/-- A text is scanned from its opening mark to its closing one. -/
theorem isScanned_readText (d : Dialect) (start cs : List Char) :
    IsScanned depth (.outside n) (.outside n) ('"' :: cs) (readText d start cs) := by
  refine .cons ((isScanned_readUnits start cs).bind fun units rest => ?_)
  dsimp only
  split
  · exact .malformed ..
  · exact .ok _ [] rfl rfl

/-! ## Numbers and words

These consist of characters that leave the scan as it is. A whole number that is refused for its
digits has them in one run, since its first digit is no zero. -/

/-- Characters that no scan outside of texts is changed by. -/
def AreBare (cs : List Char) : Prop :=
  ∀ c ∈ cs, isMark c = false

/-- Digits are no marks. -/
theorem areBare_of_areDigits (h : AreDigits cs) : AreBare cs := by
  intro c hc
  have hdigit := h c hc
  by_contra hmark
  simp only [isMark, Bool.not_eq_false, Bool.or_eq_true, decide_eq_true_eq] at hmark
  rcases hmark with (((rfl | rfl) | rfl) | rfl) | rfl <;> exact absurd hdigit (by decide)

/-- A span that takes bare characters from the front of a text. -/
def TakesBare (cs rest : List Char) : Prop :=
  ∃ front, cs = front ++ rest ∧ AreBare front

theorem TakesBare.refl (cs : List Char) : TakesBare cs cs :=
  ⟨[], rfl, nofun⟩

theorem TakesBare.trans {rest more : List Char} (h : TakesBare cs rest) (h' : TakesBare rest more) :
    TakesBare cs more := by
  obtain ⟨front, rfl, hfront⟩ := h
  obtain ⟨front', rfl, hfront'⟩ := h'
  exact ⟨front ++ front', (List.append_assoc ..).symm, List.forall_mem_append.mpr ⟨hfront, hfront'⟩⟩

theorem TakesBare.cons {c : Char} {rest : List Char} (hc : isMark c = false)
    (h : TakesBare cs rest) : TakesBare (c :: cs) rest := by
  obtain ⟨front, rfl, hfront⟩ := h
  exact ⟨c :: front, rfl, List.forall_mem_cons.mpr ⟨hc, hfront⟩⟩

/-- The digits at the front of a text are as many as their values. -/
theorem exists_digitSpan (cs : List Char) :
    ∃ ds, cs = ds ++ (digitSpan cs).2 ∧ AreDigits ds ∧ ds.length = (digitSpan cs).1.length
      ∧ ∀ c ∈ (digitSpan cs).2.head?, c.isDigit = false := by
  induction cs with
  | nil => exact ⟨[], rfl, nofun, rfl, nofun⟩
  | cons c cs ih =>
    -- The digits at the front, up to the first character that is none.
    cases hc : c.isDigit with
    | true =>
      obtain ⟨ds, hcs, hds, hlen, hrest⟩ := ih
      rw [digitSpan, asciiDigit?_of_isDigit hc]
      exact ⟨c :: ds, congrArg (c :: ·) hcs, List.forall_mem_cons.mpr ⟨hc, hds⟩,
        congrArg (· + 1) hlen, hrest⟩
    | false =>
      rw [digitSpan, asciiDigit?_of_not_isDigit hc]
      exact ⟨[], rfl, nofun, rfl, fun d hd => Option.some.inj hd ▸ hc⟩

theorem takesBare_digitSpan (cs : List Char) : TakesBare cs (digitSpan cs).2 := by
  obtain ⟨ds, hcs, hds, -⟩ := exists_digitSpan cs
  exact ⟨ds, hcs, areBare_of_areDigits hds⟩

theorem takesBare_numberSign (cs : List Char) : TakesBare cs (numberSign cs).2 := by
  rw [numberSign.eq_def]
  split
  · exact .cons (by decide) (.refl _)
  · exact .refl cs

theorem takesBare_wholeSpan (cs : List Char) : TakesBare cs (wholeSpan cs).2 := by
  rw [wholeSpan.eq_def]
  split
  · exact .cons (by decide) (.refl _)
  · exact takesBare_digitSpan cs

/-- A fraction has a point and digits, which are no marks. -/
theorem takesBare_fractionSpan (cs : List Char) : TakesBare cs (fractionSpan cs).2 := by
  rw [fractionSpan.eq_def]
  split
  · next rest =>
    have hdigits := takesBare_digitSpan rest
    split
    · exact .refl _
    · next hspan =>
      rw [hspan] at hdigits
      exact .cons (by decide) hdigits
  · exact .refl cs

theorem takesBare_exponentSign (cs : List Char) : TakesBare cs (exponentSign cs).2 := by
  rw [exponentSign.eq_def]
  split
  · exact .cons (by decide) (.refl _)
  · exact .cons (by decide) (.refl _)
  · exact .refl cs

/-- An exponent has a letter, a sign and digits, which are no marks. -/
theorem takesBare_exponentSpan (cs : List Char) : TakesBare cs (exponentSpan cs).2 := by
  cases cs with
  | nil => exact .refl []
  | cons c cs =>
    have hdigits := (takesBare_exponentSign cs).trans (takesBare_digitSpan _)
    rw [exponentSpan.eq_def]
    dsimp only
    split
    · next hc =>
      have hmark : isMark c = false := by
        rw [Bool.or_eq_true, decide_eq_true_eq, decide_eq_true_eq] at hc
        rcases hc with rfl | rfl <;> decide
      split
      · exact .refl _
      · next hspan =>
        rw [hspan] at hdigits
        exact .cons hmark hdigits
    · exact .refl _

/-- A whole part of more than one digit is all the digits there are. -/
theorem exists_wholeSpan {whole : List Nat} {rest : List Char} (h : wholeSpan cs = (whole, rest))
    (hlong : 1 < whole.length) :
    ∃ ds, cs = ds ++ rest ∧ AreDigits ds ∧ ds.length = whole.length
      ∧ ∀ c ∈ rest.head?, c.isDigit = false := by
  have hdigits := exists_digitSpan cs
  rw [wholeSpan.eq_def] at h
  split at h
  · obtain ⟨rfl, -⟩ := Prod.mk.inj h
    exact absurd hlong (Nat.lt_irrefl 1)
  · rwa [h] at hdigits

/-- The value of a number fails for its digits alone, and only if it is whole. -/
theorem numberOf_eq_error {negative : Bool} {whole : List Nat} {part : Option (List Nat)}
    {exponent : Option Int} {f : Stop} (h : numberOf negative whole part exponent = .error f) :
    f = .tooManyDigits whole.length ∧ maxDigits < whole.length := by
  rw [numberOf.eq_def] at h
  split at h
  · split at h
    · next hmany => exact ⟨(Except.error.inj h).symm, hmany⟩
    · exact absurd h nofun
  · exact absurd h nofun
  · exact absurd h nofun

theorem isScanned_of_takesBare {α : Type} (a : α) {rest : List Char} (h : TakesBare cs rest) :
    IsScanned depth (.outside n) (.outside n) cs (.ok (a, rest)) := by
  obtain ⟨front, hcs, hfront⟩ := h
  exact .ok a front hcs (Scan.past_of_not_isMark hfront n)

/-- **Reading a number** leaves the scan where it is; the fault of too many digits shows that they
are there. -/
theorem isScanned_readNumber (cs : List Char) :
    IsScanned depth (.outside n) (.outside n) cs (readNumber cs) := by
  have htakes := takesBare_numberSign cs
  rcases hsign : numberSign cs with ⟨negative, rest⟩
  have hwholeTakes := takesBare_wholeSpan rest
  rcases hwhole : wholeSpan rest with ⟨whole, more⟩
  have hpartTakes := takesBare_fractionSpan more
  rcases hpart : fractionSpan more with ⟨part, last⟩
  have hexponentTakes := takesBare_exponentSpan last
  rcases hexponent : exponentSpan last with ⟨exponent, left⟩
  rw [hsign] at htakes
  rw [hwhole] at hwholeTakes
  rw [hpart] at hpartTakes
  rw [hexponent] at hexponentTakes
  rw [readNumber_eq hsign hwhole hpart hexponent]
  split
  · exact .malformed ..
  · cases hvalue : numberOf negative whole part exponent with
    | ok v =>
      exact isScanned_of_takesBare v
        (htakes.trans (hwholeTakes.trans (hpartTakes.trans hexponentTakes)))
    | error f =>
      -- Behind the sign the digits of the whole part are all there, and what follows is none.
      obtain ⟨rfl, hmany⟩ := numberOf_eq_error hvalue
      obtain ⟨front, rfl, hfront⟩ := htakes
      obtain ⟨ds, hrest, hds⟩ := exists_wholeSpan hwhole (Nat.lt_trans (by decide) hmany)
      have hregion : ((Scan.outside n).past front).region = .outside := by
        rw [Scan.past_of_not_isMark hfront]
      have hmet : (Stop.tooManyDigits whole.length).IsMet depth (.outside n) (front ++ rest) :=
        ⟨hmany, front, ds, more, congrArg (front ++ ·) hrest, hregion, hds⟩
      exact .error hmet

/-- The words have no marks. -/
theorem areBare_of_mem_wordValues : ∀ p ∈ wordValues, AreBare p.1 := by
  have hbare : (wordValues.all fun p => p.1.all fun c => !isMark c) = true := by decide
  intro p hp c hc
  have hmark := List.all_eq_true.mp (List.all_eq_true.mp hbare p hp) c hc
  rwa [Bool.not_eq_true'] at hmark

/-- So reading a word or a number leaves the scan where it is. -/
theorem isScanned_readWord (cs : List Char) :
    IsScanned depth (.outside n) (.outside n) cs (readWord cs) := by
  rw [readWord]
  split
  · next word v hfind =>
    have hfront := List.find?_some hfind
    obtain ⟨rest, rfl⟩ := List.isPrefixOf_iff_prefix.mp hfront
    have hbare := areBare_of_mem_wordValues _ (List.mem_of_find?_eq_some hfind)
    rw [List.drop_left]
    exact isScanned_of_takesBare v ⟨word, rfl, hbare⟩
  · exact isScanned_readNumber cs

/-! ## Arrays and objects

Between brackets the scan is one level up, and the mark that closes them takes it back. The parts
may be anything that is scanned at that level. -/

/-- Gaps are no marks. -/
theorem takesBare_skipGap (cs : List Char) : TakesBare cs (skipGap cs) := by
  refine ⟨cs.takeWhile isGap, List.takeWhile_append_dropWhile.symm, fun c hc => ?_⟩
  have hgap := List.mem_takeWhile_imp hc
  simp only [isGap, Bool.or_eq_true, decide_eq_true_eq] at hgap
  rcases hgap with ((rfl | rfl) | rfl) | rfl <;> decide

section

variable {α : Type} {s : Scan}

/-- What is read behind a gap is read with the gap in front. -/
theorem IsScanned.of_skipGap {x : Except Stop (α × List Char)}
    (h : IsScanned depth (.outside n) s (skipGap cs) x) : IsScanned depth (.outside n) s cs x := by
  obtain ⟨front, hcs, hfront⟩ := takesBare_skipGap cs
  rw [hcs]
  refine .append_left front ?_
  rwa [Scan.past_of_not_isMark hfront]

/-- **Parts are scanned up to the mark that closes them** if each of them is scanned. -/
theorem isScanned_readParts {part : PartReader α}
    (h : ∀ cs, IsScanned depth (.outside (n + 1)) (.outside (n + 1)) cs (part cs)) {close : Char}
    (hclose : (Scan.outside (n + 1)).step close = .outside n) (what : Complaint) (fuel : Nat)
    (cs : List Char) :
    IsScanned depth (.outside (n + 1)) (.outside n) cs (readParts part close what fuel cs) := by
  -- Along the parts: each leaves the scan at the depth inside, a comma does too, and the closing
  -- mark leads out.
  induction fuel generalizing cs with
  | zero => exact .malformed ..
  | succ fuel ih =>
    rw [readParts]
    refine (h cs).bind fun a rest => .of_skipGap ?_
    dsimp only
    cases skipGap rest with
    | nil => exact .malformed ..
    | cons c r =>
      dsimp only
      split
      · next hc => exact hc ▸ .ok [a] [close] rfl hclose
      · split
        · next hc =>
          subst hc
          refine .cons (.of_skipGap ((ih (skipGap r)).bind fun as rest => ?_))
          exact .ok (a :: as) [] rfl rfl
        · exact .malformed ..

end

section

variable {inner : ValueReader}
  (hinner : ∀ cs, IsScanned depth (.outside (n + 1)) (.outside (n + 1)) cs (inner cs))
include hinner

/-- **Reading an array** takes the scan out to the depth around it. -/
theorem isScanned_readArray (cs : List Char) :
    IsScanned depth (.outside (n + 1)) (.outside n) cs (readArray inner cs) := by
  refine .of_skipGap ?_
  by_cases hclose : (skipGap cs).head? = some ']'
  · obtain ⟨r, hr⟩ := List.head?_eq_some_iff.mp hclose
    rw [readArray_of_close inner hr, hr]
    exact .ok [] [']'] rfl rfl
  · rw [readArray_of_head?_ne inner hclose]
    exact isScanned_readParts hinner rfl .noValue _ _

/-- A member is a text, a colon and a value, each of which leaves the depth as it is. -/
theorem isScanned_readMember (d : Dialect) (cs : List Char) :
    IsScanned depth (.outside (n + 1)) (.outside (n + 1)) cs (readMember d inner cs) := by
  have hname : IsScanned depth (.outside (n + 1)) (.outside (n + 1)) cs (readName d cs) := by
    rw [readName.eq_def]
    split
    · refine (isScanned_readText d _ _).bind fun name rest => .of_skipGap ?_
      dsimp only
      generalize skipGap rest = gap
      split
      · refine .cons (.of_skipGap (.ok name [] rfl rfl))
      · exact .malformed ..
    · exact .malformed ..
  refine hname.bind fun name rest => (hinner rest).bind fun v rest => ?_
  exact .ok (name.toValue, v) [] rfl rfl

/-- **Reading an object** takes the scan out to the depth around it. -/
theorem isScanned_readObject (d : Dialect) (cs : List Char) :
    IsScanned depth (.outside (n + 1)) (.outside n) cs (readObject d inner cs) := by
  refine .of_skipGap ?_
  by_cases hclose : (skipGap cs).head? = some '\x7d'
  · obtain ⟨r, hr⟩ := List.head?_eq_some_iff.mp hclose
    rw [readObject_of_close d inner hr, hr]
    exact .ok [] ['\x7d'] rfl rfl
  · rw [readObject_of_head?_ne d inner hclose]
    exact (isScanned_readParts (isScanned_readMember hinner d) rfl .noName _ _).map _

end

/-! ## Values and documents

A bracket is the limit just where the reader has no level left, that is, where as many are open as
it started with. That number is what the induction keeps: levels open and levels left add up to the
depth of the reader. -/

/-- A value is scanned if the values inside it are, and a bracket too many is the limit met. -/
theorem isScanned_readValueWith (d : Dialect) {inner? : Option ValueReader}
    (hnone : inner? = none → n = depth)
    (hinner : ∀ inner ∈ inner?, ∀ cs,
      IsScanned depth (.outside (n + 1)) (.outside (n + 1)) cs (inner cs)) (cs : List Char) :
    IsScanned depth (.outside n) (.outside n) cs (readValueWith d inner? cs) := by
  rw [readValueWith.eq_def]
  split
  · exact (isScanned_readText d _ _).map WireText.toValue
  · next rest =>
    -- Without a reader for what is inside the depth is reached, and the bracket is the one that is
    -- too many.
    cases inner? with
    | none => exact .error ⟨['['], rest, rfl, hnone rfl ▸ rfl⟩
    | some inner => exact .cons ((isScanned_readArray (hinner inner rfl) rest).map Value.list)
  · next rest =>
    cases inner? with
    | none => exact .error ⟨['\x7b'], rest, rfl, hnone rfl ▸ rfl⟩
    | some inner => exact .cons ((isScanned_readObject (hinner inner rfl) d rest).map Value.table)
  · exact isScanned_readWord cs

/-- **A value is scanned**, at as many levels as are left to it. -/
theorem isScanned_readValue (d : Dialect) (left n : Nat) (cs : List Char) :
    IsScanned (n + left) (.outside n) (.outside n) cs (readValue d left cs) := by
  induction left generalizing n cs with
  | zero =>
    exact isScanned_readValueWith d (fun _ => rfl) (fun _ h => absurd h (Option.not_mem_none _)) cs
  | succ left ih =>
    refine isScanned_readValueWith d (fun h => absurd h (Option.some_ne_none _))
      (fun inner hinner cs => ?_) cs
    obtain rfl := Option.some.inj hinner
    rw [← Nat.succ_add_eq_add_succ]
    exact ih (n + 1) cs

/-- **A fault of the reader is met by the text**, scanned from its front. -/
theorem isMet_of_readDocument {d : Dialect} {f : Stop} (h : readDocument d cs = .error f) :
    f.IsMet d.maxDepth (.outside 0) cs := by
  have hvalue : IsScanned d.maxDepth (.outside 0) (.outside 0) cs
      (readValue d d.maxDepth (skipGap cs)) := by
    refine .of_skipGap ?_
    have hscanned := isScanned_readValue d d.maxDepth 0 (skipGap cs)
    rwa [Nat.zero_add] at hscanned
  rw [readDocument.eq_def] at h
  split at h
  · exact Except.error.inj h ▸ trivial
  -- A fault in the value is met by the scan. Behind the value only something that should not be
  -- there can be a fault, which says nothing about limits.
  · cases hread : readValue d d.maxDepth (skipGap cs) with
    | error f' =>
      rw [hread] at h hvalue
      obtain rfl := Except.error.inj h
      cases hvalue with
      | error hmet => exact hmet
    | ok p =>
      obtain ⟨v, rest⟩ := p
      rw [hread] at h
      dsimp only [bind, Except.bind] at h
      split at h
      · exact absurd h nofun
      · exact Except.error.inj h ▸ trivial

/-- What a text holds that is no document for its syntax or for a limit. -/
def Fault.IsMet (depth : Nat) (s : String) : Fault → Prop
  | .malformed .. => True
  | .tooDeep _ => NestsBeyond depth (.outside 0) s.toList
  | .tooManyDigits count => maxDigits < count ∧ HasDigitRun count (.outside 0) s.toList

/-- **A limit is met only by a text that goes beyond it.** -/
theorem isMet_of_read {d : Dialect} {s : String} {f : Fault} (h : read d s = .error f) :
    f.IsMet d.maxDepth s := by
  rw [read.eq_def] at h
  cases hread : readDocument d s.toList with
  | ok v =>
    rw [hread] at h
    exact absurd h nofun
  | error stop =>
    rw [hread] at h
    obtain rfl := Except.error.inj h
    have hmet := isMet_of_readDocument hread
    -- A complaint has a place in place of the text left; the limits are the same.
    cases stop with
    | malformed => trivial
    | tooDeep | tooManyDigits => exact hmet

/-! ## Texts that meet a limit

The other direction, for the two texts that a reader gives up on soonest: nothing but brackets, and
nothing but digits. What stands behind the brackets is never looked at. -/

/-- One bracket more than the depth allows is refused, whatever follows. -/
theorem readValue_replicate_bracket (d : Dialect) (depth : Nat) (cs : List Char) :
    readValue d depth (List.replicate (depth + 1) '[' ++ cs) = .error (.tooDeep .array) := by
  induction depth with
  | zero => rfl
  | succ depth ih =>
    rw [List.replicate_succ, List.cons_append, readValue, readValueWith]
    have hgap : skipGap (List.replicate (depth + 1) '[' ++ cs)
        = List.replicate (depth + 1) '[' ++ cs := rfl
    have hhead : (skipGap (List.replicate (depth + 1) '[' ++ cs)).head? ≠ some ']' := by
      rw [hgap, List.replicate_succ, List.cons_append]
      exact fun h => absurd (Option.some.inj h) (by decide)
    rw [readArray_of_head?_ne _ hhead, readParts, hgap, ih]
    rfl

/-- **One bracket too many** is too many, whatever stands behind it. -/
theorem read_replicate_bracket (d : Dialect) (cs : List Char) :
    read d (.ofList (List.replicate (d.maxDepth + 1) '[' ++ cs)) = .error (.tooDeep .array) := by
  have hgap : skipGap (List.replicate (d.maxDepth + 1) '[' ++ cs)
      = List.replicate (d.maxDepth + 1) '[' ++ cs := rfl
  have hhead : (List.replicate (d.maxDepth + 1) '[' ++ cs).head? ≠ some (Char.ofNat 0xFEFF) := by
    rw [List.replicate_succ, List.cons_append]
    exact fun h => absurd (Option.some.inj h) (by decide)
  rw [read, String.toList_ofList, readDocument, if_neg hhead, hgap, readValue_replicate_bracket]
  rfl

/-- **Digits enough** are too many, if they are one number. -/
theorem read_digits (d : Dialect) {ds : List Char} (hds : AreDigits ds)
    (hhead : ds.head? ≠ some '0') (hmany : maxDigits < ds.length) :
    read d (.ofList ds) = .error (.tooManyDigits ds.length) := by
  have hne : ds ≠ [] := List.length_pos_iff.mp (Nat.lt_of_le_of_lt (Nat.zero_le _) hmany)
  obtain ⟨c, cs, hc, rfl⟩ := exists_cons_of_areDigits hds hne
  have hbegins : BeginsNumber (c :: cs) := ⟨c, cs, hc, .inl rfl⟩
  have hsign : numberSign (c :: cs) = (false, c :: cs) :=
    numberSign_of_head?_ne fun h => ne_of_isDigit hc rfl (Option.some.inj h)
  -- All of the text is digits, so nothing is left for a fraction and an exponent.
  have hspan : digitSpan ((c :: cs) ++ []) = (digitValues (c :: cs), []) :=
    digitSpan_append hds nofun
  rw [List.append_nil] at hspan
  have hlen : (digitValues (c :: cs)).length = (c :: cs).length := List.length_map _
  have hnil : digitValues (c :: cs) ≠ [] := List.cons_ne_nil _ _
  have hnumber : readNumber (c :: cs) = .error (.tooManyDigits (c :: cs).length) := by
    rw [readNumber_eq hsign ((wholeSpan_of_head?_ne hhead).trans hspan) rfl rfl, if_neg hnil,
      numberOf, hlen, if_pos hmany]
    rfl
  have hvalue : readValue d d.maxDepth (c :: cs) = readNumber (c :: cs) := by
    cases d.maxDepth <;> exact hbegins.readValueWith_eq d _
  rw [read, String.toList_ofList, readDocument, if_neg hbegins.beginsValue.head?_ne,
    hbegins.beginsValue.skipGap_eq, hvalue, hnumber]
  rfl

end AgentClient.Json
