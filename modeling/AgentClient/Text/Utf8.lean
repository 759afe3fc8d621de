import AgentClient.Text.Surrogate

/-!
# Text/Utf8 — reading UTF-8 byte by byte, with replacement

Every byte string has a text. A byte sequence that no character has is replaced by U+FFFD, one for
every maximal part that begins some character; a sequence that the input ends inside of is such a
part. The reader keeps only what it needs of a character begun, so bytes may come in any portions.
-/

namespace AgentClient.Text.Utf8

/-- What is known of the character being read. -/
inductive Progress where
  /-- Between characters. -/
  | idle
  /-- Inside a character: the bits so far, how many bytes are missing, and the least and the
  greatest value of the next one. -/
  | inside (bits missing least greatest : Nat)
  deriving DecidableEq, Repr

/-- Begin a character with a byte. Overlong forms, surrogates and numbers above U+10FFFF are
excluded by the range of the second byte. -/
def begin (b : Nat) : Progress × List Char :=
  if b < 0x80 then (.idle, [Char.ofNat b])
  else if 0xC2 ≤ b && b ≤ 0xDF then (.inside (b - 0xC0) 1 0x80 0xBF, [])
  else if b = 0xE0 then (.inside 0 2 0xA0 0xBF, [])
  else if b = 0xED then (.inside 0xD 2 0x80 0x9F, [])
  else if 0xE1 ≤ b && b ≤ 0xEF then (.inside (b - 0xE0) 2 0x80 0xBF, [])
  else if b = 0xF0 then (.inside 0 3 0x90 0xBF, [])
  else if 0xF1 ≤ b && b ≤ 0xF3 then (.inside (b - 0xF0) 3 0x80 0xBF, [])
  else if b = 0xF4 then (.inside 4 3 0x80 0x8F, [])
  else (.idle, [replacement])

/-- Read one byte: what is known afterwards, and the characters completed. A byte that cannot
continue the character begun ends it as unreadable and begins the next. -/
def step (p : Progress) (byte : UInt8) : Progress × List Char :=
  let b := byte.toNat
  match p with
  | .idle => begin b
  | .inside bits missing least greatest =>
    if least ≤ b && b ≤ greatest then
      let bits := bits * 64 + (b - 0x80)
      if missing ≤ 1 then (.idle, [Char.ofNat bits])
      else (.inside bits (missing - 1) 0x80 0xBF, [])
    else
      let (q, cs) := begin b
      (q, replacement :: cs)

/-- Read a portion of bytes. -/
def feed (p : Progress) : List UInt8 → Progress × List Char
  | [] => (p, [])
  | b :: bs =>
    let (q, cs) := step p b
    let (r, ds) := feed q bs
    (r, cs ++ ds)

/-- **Bytes may come in any portions.** -/
theorem feed_append (p : Progress) (bs cs : List UInt8) :
    feed p (bs ++ cs)
      = ((feed (feed p bs).1 cs).1, (feed p bs).2 ++ (feed (feed p bs).1 cs).2) := by
  induction bs generalizing p with
  | nil => rfl
  | cons b bs ih => simp [feed, ih]

/-- What the end of the input adds. -/
def finish : Progress → List Char
  | .idle => []
  | .inside .. => [replacement]

/-- The text of a whole byte string. -/
def decode (bytes : List UInt8) : List Char :=
  let (p, cs) := feed .idle bytes
  cs ++ finish p

end AgentClient.Text.Utf8
