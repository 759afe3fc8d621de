import AgentClient.Text.Utf8
import Mathlib.Data.List.Forall2
import Mathlib.Data.Nat.Find

/-!
# Proofs/Text/Decoding — the text of a byte string, and the reader that finds it

`Reads` says what the text of a byte string is without running a reader: an encoded character is
read, and where none stands, the longest part that begins some character, or else a single byte, is
replaced as a whole.  `reads_iff_eq_decode` is the theorem: every byte string has exactly one text,
and reading byte by byte finds it. -/

namespace AgentClient.Text.Utf8

/-! ## The text of a byte string

The relation is stated by the encodings of characters alone. It knows no state: what stands at the
front of the bytes decides, and a part that is replaced is the longest that could still have become
a character. -/

/-- Bytes that the encoding of some character starts with. -/
def Begins (part : List UInt8) : Prop :=
  ∃ c : Char, part <+: String.utf8EncodeChar c

/-- **A maximal part** at the front of `part ++ rest`, where no character can be read. -/
structure IsMaximalPart (part rest : List UInt8) : Prop where
  /-- No encoded character stands at the front. -/
  unreadable : ∀ c : Char, ¬ String.utf8EncodeChar c <+: part ++ rest
  ne_nil : part ≠ []
  /-- The part begins some character, or it is a single byte. -/
  begins : Begins part ∨ part.length = 1
  /-- Nothing longer begins a character. -/
  maximal : ∀ longer, longer <+: part ++ rest → part.length < longer.length → ¬ Begins longer

/-- The text of a byte string: characters are read, maximal parts replaced, one after another. -/
inductive Reads : List UInt8 → List Char → Prop
  | nil : Reads [] []
  | character (c : Char) {bytes : List UInt8} {text : List Char} :
      Reads bytes text → Reads (String.utf8EncodeChar c ++ bytes) (c :: text)
  | replaced {part bytes : List UInt8} {text : List Char} :
      IsMaximalPart part bytes → Reads bytes text → Reads (part ++ bytes) (replacement :: text)

/-! ## What the first byte of a character decides

Five ranges of bytes: a character by itself, the beginnings of two, three and four bytes, and those
that begin nothing. The second byte has a narrower range behind four of them. -/

theorem begin_ascii {b : Nat} (h : b < 0x80) : begin b = (.idle, [Char.ofNat b]) := by
  rw [begin, if_pos h]

theorem begin_two {b : Nat} (h : 0xC2 ≤ b) (h' : b ≤ 0xDF) :
    begin b = (.inside (b - 0xC0) 1 0x80 0xBF, []) := by
  rw [begin, if_neg (by omega), if_pos (by simp [h, h'])]

/-- A byte that begins three: the least and the greatest of these leave out what is too long and the
surrogates. -/
theorem begin_three {b : Nat} (h : 0xE0 ≤ b) (h' : b ≤ 0xEF) :
    begin b = (.inside (b - 0xE0) 2 (if b = 0xE0 then 0xA0 else 0x80)
      (if b = 0xED then 0x9F else 0xBF), []) := by
  rw [begin, if_neg (by omega), if_neg (by simp; omega)]
  by_cases h0 : b = 0xE0
  · simp [h0]
  · by_cases hD : b = 0xED
    · simp [hD]
    · rw [if_neg h0, if_neg hD, if_pos (by simp; omega), if_neg h0, if_neg hD]

/-- A byte that begins four: the least leaves out what is too long, the greatest what is beyond the
last character. -/
theorem begin_four {b : Nat} (h : 0xF0 ≤ b) (h' : b ≤ 0xF4) :
    begin b = (.inside (b - 0xF0) 3 (if b = 0xF0 then 0x90 else 0x80)
      (if b = 0xF4 then 0x8F else 0xBF), []) := by
  rw [begin, if_neg (by omega), if_neg (by simp; omega), if_neg (by omega), if_neg (by omega),
    if_neg (by simp; omega)]
  by_cases h0 : b = 0xF0
  · simp [h0]
  · by_cases h4 : b = 0xF4
    · simp [h4]
    · rw [if_neg h0, if_pos (by simp; omega), if_neg h0, if_neg h4]

theorem begin_other {b : Nat} (h : 0x80 ≤ b) (h' : b < 0xC2 ∨ 0xF4 < b) :
    begin b = (.idle, [replacement]) := by
  rw [begin, if_neg (by omega), if_neg (by simp; omega), if_neg (by omega), if_neg (by omega),
    if_neg (by simp; omega), if_neg (by omega), if_neg (by simp; omega), if_neg (by omega)]

/-- A byte is a character, begins one of two, three or four bytes, or neither. -/
theorem lead_cases (b : Nat) :
    b < 0x80 ∨ (0xC2 ≤ b ∧ b ≤ 0xDF) ∨ (0xE0 ≤ b ∧ b ≤ 0xEF) ∨ (0xF0 ≤ b ∧ b ≤ 0xF4) ∨
      (0x80 ≤ b ∧ (b < 0xC2 ∨ 0xF4 < b)) := by omega

/-! ## What a character begun still asks for

The state of the reader says how many bytes are missing and in which range the next one has to be.
Read as a list of ranges it is what the rest of the character looks like, and feeding bytes that fit
the list completes the character. -/

/-- The ranges of the bytes that a character begun still needs. -/
def Progress.asks : Progress → List (Nat × Nat)
  | .idle => []
  | .inside _ missing least greatest =>
    (least, greatest) :: List.replicate (missing - 1) (0x80, 0xBF)

/-- A byte in a range. -/
def Within (r : Nat × Nat) (b : UInt8) : Prop :=
  r.1 ≤ b.toNat ∧ b.toNat ≤ r.2

/-- The bits of a character, those of the bytes that continue it put behind the ones before. -/
def gather (bits : Nat) (tail : List UInt8) : Nat :=
  tail.foldl (fun n b => n * 64 + (b.toNat - 0x80)) bits

/-- Before the last byte one is asked for, and then whatever continues. -/
theorem asks_next {bits n missing least greatest : Nat} (h : 1 < missing) :
    (Progress.inside bits missing least greatest).asks
      = (least, greatest) :: (Progress.inside n (missing - 1) 0x80 0xBF).asks := by
  obtain ⟨m, rfl⟩ : ∃ m, missing = m + 2 := ⟨missing - 2, by omega⟩
  rfl

theorem asks_last {bits missing least greatest : Nat} (h : missing ≤ 1) :
    (Progress.inside bits missing least greatest).asks = [(least, greatest)] := by
  simp [Progress.asks, show missing - 1 = 0 by omega]

/-- The last byte that is asked for makes the character. -/
theorem step_last {bits missing least greatest : Nat} {b : UInt8} (h : missing ≤ 1)
    (hb : Within (least, greatest) b) :
    step (.inside bits missing least greatest) b
      = (.idle, [Char.ofNat (bits * 64 + (b.toNat - 0x80))]) := by
  simp [step, hb.1, hb.2, h]

/-- A byte before the last adds its bits. -/
theorem step_next {bits missing least greatest : Nat} {b : UInt8} (h : 1 < missing)
    (hb : Within (least, greatest) b) :
    step (.inside bits missing least greatest) b
      = (.inside (bits * 64 + (b.toNat - 0x80)) (missing - 1) 0x80 0xBF, []) := by
  simp [step, hb.1, hb.2, show ¬ missing ≤ 1 by omega]

/-- A byte out of range ends the character begun, and is read as if nothing had been. -/
theorem step_out {bits missing least greatest : Nat} {b : UInt8}
    (hb : ¬ Within (least, greatest) b) :
    step (.inside bits missing least greatest) b
      = ((step .idle b).1, replacement :: (step .idle b).2) := by
  have hb' : ¬ (least ≤ b.toNat ∧ b.toNat ≤ greatest) := hb
  simp only [step, Bool.and_eq_true, decide_eq_true_eq, if_neg hb']

/-- **The bytes asked for complete the character.** -/
theorem feed_of_asks {tail : List UInt8} {bits missing least greatest : Nat}
    (h : List.Forall₂ Within (Progress.inside bits missing least greatest).asks tail) :
    feed (.inside bits missing least greatest) tail = (.idle, [Char.ofNat (gather bits tail)]) := by
  -- Along the bytes; the range that the first is asked for is left behind with it.
  induction tail generalizing bits missing least greatest with
  | nil => cases h
  | cons b tail ih =>
    rcases Nat.lt_or_ge 1 missing with hm | hm
    · rw [asks_next (n := bits * 64 + (b.toNat - 0x80)) hm, List.forall₂_cons] at h
      rw [feed, step_next hm h.1]
      simp only [ih h.2, gather, List.foldl_cons, List.nil_append]
    · rw [asks_last hm, List.forall₂_cons, List.forall₂_nil_left_iff] at h
      rw [feed, step_last hm h.1, h.2]
      rfl

/-- **Some of the bytes asked for leave the character begun**, and it then takes any byte in range
in the place of the one that comes next. -/
theorem feed_front_of_asks {front back : List UInt8} {next : UInt8}
    {bits missing least greatest : Nat}
    (h : List.Forall₂ Within (Progress.inside bits missing least greatest).asks
      (front ++ next :: back)) :
    ∃ bits' missing' least' greatest',
      feed (.inside bits missing least greatest) front
        = (.inside bits' missing' least' greatest', []) ∧
      ∀ b, Within (least', greatest') b →
        List.Forall₂ Within (Progress.inside bits missing least greatest).asks
          (front ++ b :: back) := by
  -- Along the front. The next byte may be exchanged for any in the range that it is asked for, and
  -- the character is still complete.
  induction front generalizing bits missing least greatest with
  | nil =>
    refine ⟨bits, missing, least, greatest, rfl, fun b hb => ?_⟩
    obtain ⟨-, h⟩ := List.forall₂_cons.mp h
    exact .cons hb h
  | cons a front ih =>
    rcases Nat.lt_or_ge 1 missing with hm | hm
    · rw [asks_next (n := bits * 64 + (a.toNat - 0x80)) hm, List.cons_append,
        List.forall₂_cons] at h
      obtain ⟨bits', missing', least', greatest', hfeed, hback⟩ := ih h.2
      refine ⟨bits', missing', least', greatest', ?_, fun b hb => ?_⟩
      · simp only [feed, step_next hm h.1, hfeed, List.append_nil]
      · rw [asks_next hm]
        exact .cons h.1 (hback b hb)
    · have hlen := h.length_eq
      rw [asks_last hm] at hlen
      simp at hlen

/-! ## The bytes of a character

The encoding and the ranges agree in both directions: the bytes of a character behind the first are
those asked for, and any bytes that are asked for make a character. The arithmetic of the bits is
done once for each length. -/

/-- A code that is no surrogate is that of its character. -/
theorem toNat_ofNat_of_lt {n : Nat} (h : n < 0xD800 ∨ (0xDFFF < n ∧ n < 0x110000)) :
    (Char.ofNat n).val.toNat = n := by
  have hv : n.isValidChar := h
  rw [Char.ofNat, dif_pos hv]
  rfl

/-- **The encoding of a character** is a byte that begins it and the bytes that this one asks for.
-/
theorem encode_cases (c : Char) :
    (c.toNat < 0x80 ∧ String.utf8EncodeChar c = [UInt8.ofNat c.toNat]) ∨
      ∃ lead tail bits missing least greatest, String.utf8EncodeChar c = lead :: tail ∧
        begin lead.toNat = (.inside bits missing least greatest, []) ∧
        List.Forall₂ Within (Progress.inside bits missing least greatest).asks tail ∧
        gather bits tail = c.toNat := by
  have hv : c.toNat < 0xD800 ∨ (0xDFFF < c.toNat ∧ c.toNat < 0x110000) := c.valid
  have hc : c.val.toNat = c.toNat := rfl
  -- By the number of bytes: one, two, three or four. What the first asks for is what the others
  -- are.
  unfold String.utf8EncodeChar
  simp only [hc]
  split
  · exact .inl ⟨by omega, rfl⟩
  right
  split
  · refine ⟨_, _, _, _, _, _, rfl, begin_two ?_ ?_, ?_, ?_⟩
    all_goals simp [Progress.asks, Within, gather]
    all_goals omega
  split
  · refine ⟨_, _, _, _, _, _, rfl, begin_three ?_ ?_, ?_, ?_⟩
    all_goals simp [Progress.asks, Within, gather]
    all_goals (try split_ifs) <;> omega
  · refine ⟨_, _, _, _, _, _, rfl, begin_four ?_ ?_, ?_, ?_⟩
    all_goals simp [Progress.asks, Within, gather, List.replicate]
    all_goals (try split_ifs) <;> omega

/-- The two bytes of a character, from its code. -/
theorem encode_two {n : Nat} (h : 0x80 ≤ n) (h' : n < 0x800) :
    String.utf8EncodeChar (Char.ofNat n)
      = [UInt8.ofNat (n / 64 + 0xC0), UInt8.ofNat (n % 64 + 0x80)] := by
  rw [String.utf8EncodeChar, toNat_ofNat_of_lt (by omega)]
  simp only [show ¬ n ≤ 0x7F by omega, show n ≤ 0x7FF by omega, if_true, if_false,
    show n / 64 % 0x20 = n / 64 by omega]

/-- The three bytes of a character, from its code, which is no surrogate. -/
theorem encode_three {n : Nat} (h : 0x800 ≤ n) (h' : n < 0x10000)
    (hs : n < 0xD800 ∨ 0xDFFF < n) :
    String.utf8EncodeChar (Char.ofNat n)
      = [UInt8.ofNat (n / 4096 + 0xE0), UInt8.ofNat (n / 64 % 64 + 0x80),
        UInt8.ofNat (n % 64 + 0x80)] := by
  rw [String.utf8EncodeChar, toNat_ofNat_of_lt (by omega)]
  simp only [show ¬ n ≤ 0x7F by omega, show ¬ n ≤ 0x7FF by omega, show n ≤ 0xFFFF by omega,
    if_true, if_false, show n / 4096 % 0x10 = n / 4096 by omega]

/-- The four bytes of a character, from its code. -/
theorem encode_four {n : Nat} (h : 0x10000 ≤ n) (h' : n < 0x110000) :
    String.utf8EncodeChar (Char.ofNat n)
      = [UInt8.ofNat (n / 262144 + 0xF0), UInt8.ofNat (n / 4096 % 64 + 0x80),
        UInt8.ofNat (n / 64 % 64 + 0x80), UInt8.ofNat (n % 64 + 0x80)] := by
  rw [String.utf8EncodeChar, toNat_ofNat_of_lt (by omega)]
  simp only [show ¬ n ≤ 0x7F by omega, show ¬ n ≤ 0x7FF by omega, show ¬ n ≤ 0xFFFF by omega,
    if_false, show n / 262144 % 0x08 = n / 262144 by omega]

/-- A byte is the one of a number that it has. -/
theorem ofNat_eq_of_toNat {n : Nat} {b : UInt8} (h : n = b.toNat) : UInt8.ofNat n = b := by
  rw [h, UInt8.ofNat_toNat]

/-- One byte that is asked for. -/
theorem of_asks_one {tail : List UInt8} {bits least greatest : Nat}
    (h : List.Forall₂ Within (Progress.inside bits 1 least greatest).asks tail) :
    ∃ x, tail = [x] ∧ least ≤ x.toNat ∧ x.toNat ≤ greatest := by
  rw [asks_last (Nat.le_refl 1)] at h
  obtain ⟨x, _, hx, htail, rfl⟩ := List.forall₂_cons_left_iff.mp h
  rw [List.forall₂_nil_left_iff] at htail
  exact ⟨x, by rw [htail], hx⟩

/-- Two bytes that are asked for; the second is any that continues. -/
theorem of_asks_two {tail : List UInt8} {bits least greatest : Nat}
    (h : List.Forall₂ Within (Progress.inside bits 2 least greatest).asks tail) :
    ∃ x y, tail = [x, y] ∧ (least ≤ x.toNat ∧ x.toNat ≤ greatest) ∧
      (0x80 ≤ y.toNat ∧ y.toNat ≤ 0xBF) := by
  rw [asks_next (n := 0) (by omega)] at h
  obtain ⟨x, _, hx, htail, rfl⟩ := List.forall₂_cons_left_iff.mp h
  obtain ⟨y, rfl, hy⟩ := of_asks_one htail
  exact ⟨x, y, rfl, hx, hy⟩

/-- Three bytes that are asked for; only the first has a range of its own. -/
theorem of_asks_three {tail : List UInt8} {bits least greatest : Nat}
    (h : List.Forall₂ Within (Progress.inside bits 3 least greatest).asks tail) :
    ∃ x y z, tail = [x, y, z] ∧ (least ≤ x.toNat ∧ x.toNat ≤ greatest) ∧
      (0x80 ≤ y.toNat ∧ y.toNat ≤ 0xBF) ∧ (0x80 ≤ z.toNat ∧ z.toNat ≤ 0xBF) := by
  rw [asks_next (n := 0) (by omega)] at h
  obtain ⟨x, _, hx, htail, rfl⟩ := List.forall₂_cons_left_iff.mp h
  obtain ⟨y, z, rfl, hy, hz⟩ := of_asks_two htail
  exact ⟨x, y, z, rfl, hx, hy, hz⟩

/-- Two bytes in their ranges are those of a character. -/
theorem exists_encode_two {lead x : UInt8} (h : 0xC2 ≤ lead.toNat) (h' : lead.toNat ≤ 0xDF)
    (hx : 0x80 ≤ x.toNat ∧ x.toNat ≤ 0xBF) :
    ∃ c : Char, String.utf8EncodeChar c = [lead, x] := by
  refine ⟨Char.ofNat ((lead.toNat - 0xC0) * 64 + (x.toNat - 0x80)), ?_⟩
  rw [encode_two (by omega) (by omega), ofNat_eq_of_toNat (b := lead) (by omega),
    ofNat_eq_of_toNat (b := x) (by omega)]

/-- The second of three bytes keeps overlong forms and surrogates out. -/
theorem exists_encode_three {lead x y : UInt8} (h : 0xE0 ≤ lead.toNat) (h' : lead.toNat ≤ 0xEF)
    (hx : (if lead.toNat = 0xE0 then 0xA0 else 0x80) ≤ x.toNat ∧
      x.toNat ≤ if lead.toNat = 0xED then 0x9F else 0xBF)
    (hy : 0x80 ≤ y.toNat ∧ y.toNat ≤ 0xBF) :
    ∃ c : Char, String.utf8EncodeChar c = [lead, x, y] := by
  have hx' : 0x80 ≤ x.toNat ∧ x.toNat ≤ 0xBF := by split_ifs at hx <;> omega
  have hlong : lead.toNat = 0xE0 → 0xA0 ≤ x.toNat := fun h0 => by simpa [h0] using hx.1
  have hpair : lead.toNat = 0xED → x.toNat ≤ 0x9F := fun hD => by simpa [hD] using hx.2
  refine ⟨Char.ofNat (((lead.toNat - 0xE0) * 64 + (x.toNat - 0x80)) * 64 + (y.toNat - 0x80)), ?_⟩
  rw [encode_three (by omega) (by omega) (by omega), ofNat_eq_of_toNat (b := lead) (by omega),
    ofNat_eq_of_toNat (b := x) (by omega), ofNat_eq_of_toNat (b := y) (by omega)]

/-- The second of four bytes keeps overlong forms out, and all that lies beyond the last character.
-/
theorem exists_encode_four {lead x y z : UInt8} (h : 0xF0 ≤ lead.toNat) (h' : lead.toNat ≤ 0xF4)
    (hx : (if lead.toNat = 0xF0 then 0x90 else 0x80) ≤ x.toNat ∧
      x.toNat ≤ if lead.toNat = 0xF4 then 0x8F else 0xBF)
    (hy : 0x80 ≤ y.toNat ∧ y.toNat ≤ 0xBF) (hz : 0x80 ≤ z.toNat ∧ z.toNat ≤ 0xBF) :
    ∃ c : Char, String.utf8EncodeChar c = [lead, x, y, z] := by
  -- The range of the second byte depends on the first: it keeps the code from being too small at
  -- the least of them and too large at the greatest.
  have hx' : 0x80 ≤ x.toNat ∧ x.toNat ≤ 0xBF := by split_ifs at hx <;> omega
  have hlong : lead.toNat = 0xF0 → 0x90 ≤ x.toNat := fun h0 => by simpa [h0] using hx.1
  have hlast : lead.toNat = 0xF4 → x.toNat ≤ 0x8F := fun h4 => by simpa [h4] using hx.2
  refine ⟨Char.ofNat ((((lead.toNat - 0xF0) * 64 + (x.toNat - 0x80)) * 64 + (y.toNat - 0x80)) * 64
    + (z.toNat - 0x80)), ?_⟩
  rw [encode_four (by omega) (by omega), ofNat_eq_of_toNat (b := lead) (by omega),
    ofNat_eq_of_toNat (b := x) (by omega), ofNat_eq_of_toNat (b := y) (by omega),
    ofNat_eq_of_toNat (b := z) (by omega)]

/-- **A byte that begins a character and the bytes that it asks for** are the encoding of one. -/
theorem exists_encode {lead : UInt8} {tail : List UInt8} {bits missing least greatest : Nat}
    (hlead : begin lead.toNat = (.inside bits missing least greatest, []))
    (htail : List.Forall₂ Within (Progress.inside bits missing least greatest).asks tail) :
    ∃ c : Char, String.utf8EncodeChar c = lead :: tail := by
  -- One case for each range of the first byte; the two that begin nothing are ruled out.
  rcases lead_cases lead.toNat with h | ⟨h, h'⟩ | ⟨h, h'⟩ | ⟨h, h'⟩ | ⟨h, h'⟩
  · rw [begin_ascii h] at hlead
    cases hlead
  · rw [begin_two h h', Prod.mk.injEq, Progress.inside.injEq] at hlead
    obtain ⟨⟨rfl, rfl, rfl, rfl⟩, -⟩ := hlead
    obtain ⟨x, rfl, hx⟩ := of_asks_one htail
    exact exists_encode_two h h' hx
  · rw [begin_three h h', Prod.mk.injEq, Progress.inside.injEq] at hlead
    obtain ⟨⟨rfl, rfl, rfl, rfl⟩, -⟩ := hlead
    obtain ⟨x, y, rfl, hx, hy⟩ := of_asks_two htail
    exact exists_encode_three h h' hx hy
  · rw [begin_four h h', Prod.mk.injEq, Progress.inside.injEq] at hlead
    obtain ⟨⟨rfl, rfl, rfl, rfl⟩, -⟩ := hlead
    obtain ⟨x, y, z, rfl, hx, hy, hz⟩ := of_asks_three htail
    exact exists_encode_four h h' hx hy hz
  · rw [begin_other h h'] at hlead
    cases hlead

/-! ## Reading and replacing

The reader starts afresh behind each character and behind each replacement. While a character is
begun nothing is given, so a part that cannot go on gives one replacement, whatever its length. -/

/-- **An encoded character is read.** -/
theorem feed_encode (c : Char) : feed .idle (String.utf8EncodeChar c) = (.idle, [c]) := by
  rcases encode_cases c with ⟨h, henc⟩ | ⟨lead, tail, bits, missing, least, greatest, henc, hlead,
    htail, hbits⟩
  · rw [henc, feed, step, UInt8.toNat_ofNat', Nat.mod_eq_of_lt (by omega), begin_ascii h]
    simp [feed, Char.ofNat_toNat]
  · rw [henc]
    simp only [feed, step, hlead, feed_of_asks htail, hbits, List.nil_append, Char.ofNat_toNat]

/-- **A part of a character leaves it begun**, and a byte in range then makes it longer. -/
theorem feed_part {c : Char} {part back : List UInt8} {next : UInt8} (hne : part ≠ [])
    (henc : String.utf8EncodeChar c = part ++ next :: back) :
    ∃ bits missing least greatest,
      feed .idle part = (.inside bits missing least greatest, []) ∧
      ∀ b, Within (least, greatest) b → Begins (part ++ [b]) := by
  obtain ⟨lead, front, rfl⟩ := List.exists_cons_of_ne_nil hne
  -- A part that is not all of the character is no single byte; so its first byte is the one that
  -- begins.
  rcases encode_cases c with
    ⟨h, henc'⟩ | ⟨lead', tail, bits, missing, least, greatest, henc', hlead, htail, -⟩
  · rw [henc'] at henc
    simp at henc
  · obtain ⟨rfl, rfl⟩ : lead' = lead ∧ tail = front ++ next :: back := by
      simpa [henc'] using henc
    obtain ⟨bits', missing', least', greatest', hfeed, hback⟩ := feed_front_of_asks htail
    refine ⟨bits', missing', least', greatest', ?_, fun b hb => ?_⟩
    · simp only [feed, step, hlead, hfeed, List.append_nil]
    · obtain ⟨d, hd⟩ := exists_encode hlead (hback b hb)
      exact ⟨d, back, by simp [hd]⟩

theorem decode_append_of_feed {bytes rest : List UInt8} {cs : List Char}
    (h : feed .idle bytes = (.idle, cs)) : decode (bytes ++ rest) = cs ++ decode rest := by
  simp only [decode, feed_append, h, List.append_assoc]

theorem decode_encode_append (c : Char) (bytes : List UInt8) :
    decode (String.utf8EncodeChar c ++ bytes) = c :: decode bytes :=
  decode_append_of_feed (feed_encode c)

/-- A character begun and then a byte that cannot continue it: one replacement, and a fresh start.
-/
theorem decode_append_of_inside {part rest : List UInt8} {bits missing least greatest : Nat}
    (h : feed .idle part = (.inside bits missing least greatest, []))
    (hout : ∀ b, rest.head? = some b → ¬ Within (least, greatest) b) :
    decode (part ++ rest) = replacement :: decode rest := by
  cases rest with
  | nil => simp only [List.append_nil, decode, h, feed, finish]; rfl
  | cons b rest =>
    simp only [decode, feed_append, h, feed, step_out (hout b rfl), List.nil_append,
      List.cons_append, List.append_assoc]

/-- A byte that begins a character does: the least of what it asks for completes one. -/
theorem begins_of_begin {b : UInt8} {bits missing least greatest : Nat}
    (h : begin b.toNat = (.inside bits missing least greatest, []))
    (hrange : least ≤ greatest ∧ least < 256) : Begins [b] := by
  have hasks : List.Forall₂ Within (Progress.inside bits missing least greatest).asks
      (UInt8.ofNat least :: List.replicate (missing - 1) 0x80) := by
    refine .cons ⟨?_, ?_⟩ (List.forall₂_iff_get.mpr ⟨by simp, fun i h₁ h₂ => ?_⟩)
    · simp [Nat.mod_eq_of_lt hrange.2]
    · simpa [Nat.mod_eq_of_lt hrange.2] using hrange.1
    · simp [Within]
  obtain ⟨c, hc⟩ := exists_encode h hasks
  exact ⟨c, _, by rw [hc]; rfl⟩

/-- A byte that begins no character is replaced alone. -/
theorem feed_of_not_begins {b : UInt8} (h : ¬ Begins [b]) :
    feed .idle [b] = (.idle, [replacement]) := by
  rcases lead_cases b.toNat with hb | ⟨hb, hb'⟩ | ⟨hb, hb'⟩ | ⟨hb, hb'⟩ | ⟨hb, hb'⟩
  · refine absurd ⟨Char.ofNat b.toNat, [], ?_⟩ h
    rw [String.utf8EncodeChar, toNat_ofNat_of_lt (by omega)]
    simp only [show b.toNat ≤ 0x7F by omega, if_true, UInt8.ofNat_toNat, List.append_nil]
  · exact absurd (begins_of_begin (begin_two hb hb') (by omega)) h
  · exact absurd (begins_of_begin (begin_three hb hb') (by split_ifs <;> omega)) h
  · exact absurd (begins_of_begin (begin_four hb hb') (by split_ifs <;> omega)) h
  · simp only [feed, step, begin_other hb hb', List.append_nil]

/-- **A maximal part is replaced.** -/
theorem decode_append_of_isMaximalPart {part rest : List UInt8} (h : IsMaximalPart part rest) :
    decode (part ++ rest) = replacement :: decode rest := by
  by_cases hb : Begins part
  · obtain ⟨c, back, hc⟩ := hb
    -- A part that were a whole character could be read.
    obtain ⟨next, back, rfl⟩ : ∃ next back', back = next :: back' := by
      refine List.exists_cons_of_ne_nil fun hnil => h.unreadable c ?_
      rw [← hc, hnil, List.append_nil]
      exact List.prefix_append part rest
    obtain ⟨bits, missing, least, greatest, hfeed, hlonger⟩ := feed_part h.ne_nil hc.symm
    refine decode_append_of_inside hfeed fun b hb hin => ?_
    obtain ⟨rest, rfl⟩ : ∃ rest', rest = b :: rest' := by
      cases rest with
      | nil => cases hb
      | cons a rest => exact ⟨rest, by rw [Option.some.inj hb]⟩
    exact h.maximal (part ++ [b]) ⟨rest, by simp⟩ (by simp) (hlonger b hin)
  · obtain ⟨b, rfl⟩ := List.length_eq_one_iff.mp (h.begins.resolve_left hb)
    exact decode_append_of_feed (feed_of_not_begins hb)

/-! ## Every byte string has one text

At most one text, since the reader finds it; at least one, since where no character stands there is
a longest part that begins one, or a first byte. -/

/-- **Decoding does what the relation says**, character by character and part by part. -/
theorem decode_eq_of_reads {bytes : List UInt8} {text : List Char} (h : Reads bytes text) :
    decode bytes = text := by
  induction h with
  | nil => rfl
  | character c _ ih => rw [decode_encode_append, ih]
  | replaced hpart _ ih => rw [decode_append_of_isMaximalPart hpart, ih]

/-- Where no character stands, some part is maximal: the longest one that begins a character, or the
first byte if there is none. -/
theorem exists_isMaximalPart {bytes : List UInt8} (hne : bytes ≠ [])
    (h : ∀ c : Char, ¬ String.utf8EncodeChar c <+: bytes) :
    ∃ part rest, bytes = part ++ rest ∧ IsMaximalPart part rest := by
  classical
  have hlen := List.length_pos_iff.mpr hne
  -- The empty part begins every character, so there is a longest one that begins some.
  let n := Nat.findGreatest (fun k => Begins (bytes.take k)) bytes.length
  have hn : Begins (bytes.take n) :=
    Nat.findGreatest_spec (P := fun k => Begins (bytes.take k)) (Nat.zero_le _)
      ⟨'a', List.nil_prefix⟩
  have hle : n ≤ bytes.length := Nat.findGreatest_le _
  refine ⟨bytes.take (max 1 n), bytes.drop (max 1 n), (List.take_append_drop _ _).symm, ?_⟩
  have hlength : (bytes.take (max 1 n)).length = max 1 n := by
    rw [List.length_take]
    omega
  refine ⟨by rwa [List.take_append_drop], ?_, ?_, fun longer hlonger hlt hbegins => ?_⟩
  · exact List.ne_nil_of_length_pos (by omega)
  · rcases Nat.eq_zero_or_pos n with h0 | hpos
    · exact .inr (by rw [hlength, h0]; rfl)
    · exact .inl (by rwa [Nat.max_eq_right hpos])
  · rw [List.take_append_drop] at hlonger
    refine Nat.findGreatest_is_greatest (P := fun k => Begins (bytes.take k)) (n := bytes.length)
      (k := longer.length) ?_ hlonger.length_le ?_
    · have : n < longer.length := by omega
      exact this
    · rwa [← List.prefix_iff_eq_take.mp hlonger]

/-- **Every byte string has a text.** -/
theorem exists_reads (bytes : List UInt8) : ∃ text, Reads bytes text := by
  -- On the number of bytes: a character takes some of them, and where none stands a part that
  -- cannot be completed does.
  induction hn : bytes.length using Nat.strongRecOn generalizing bytes with
  | ind n ih =>
    subst hn
    by_cases hnil : bytes = []
    · exact ⟨[], hnil ▸ .nil⟩
    by_cases hc : ∃ c : Char, String.utf8EncodeChar c <+: bytes
    · obtain ⟨c, rest, rfl⟩ := hc
      obtain ⟨text, htext⟩ := ih rest.length (by simp [Char.utf8Size_pos]) rest rfl
      exact ⟨c :: text, .character c htext⟩
    · obtain ⟨part, rest, rfl, hpart⟩ := exists_isMaximalPart hnil (not_exists.mp hc)
      have hlen := List.length_pos_iff.mpr hpart.ne_nil
      obtain ⟨text, htext⟩ := ih rest.length (by simp; omega) rest rfl
      exact ⟨replacement :: text, .replaced hpart htext⟩

/-- **The text of a byte string is the one that reading byte by byte finds.** -/
theorem reads_iff_eq_decode {bytes : List UInt8} {text : List Char} :
    Reads bytes text ↔ text = decode bytes := by
  refine ⟨fun h => (decode_eq_of_reads h).symm, ?_⟩
  rintro rfl
  obtain ⟨text, htext⟩ := exists_reads bytes
  rwa [decode_eq_of_reads htext]

end AgentClient.Text.Utf8
