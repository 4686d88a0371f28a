/-!
# UTF-8

A character is written as one to four bytes. Reading goes byte by byte; a byte that cannot
continue the character that has begun ends it as malformed and is read anew, so that each
longest beginning of a character that is not completed counts as one malformed sequence.
-/

namespace TokenSearch.Text

/-- A text read from outside: its characters, with `none` in place of what is no character. -/
abbrev Scanned := List (Option Char)

namespace Utf8

/-- The bytes of a character. -/
def encodeChar (c : Char) : List UInt8 :=
  let n := c.toNat
  if n < 0x80 then [n.toUInt8]
  else if n < 0x800 then [(0xC0 + n / 0x40).toUInt8, (0x80 + n % 0x40).toUInt8]
  else if n < 0x10000 then
    [(0xE0 + n / 0x1000).toUInt8, (0x80 + n / 0x40 % 0x40).toUInt8, (0x80 + n % 0x40).toUInt8]
  else
    [(0xF0 + n / 0x40000).toUInt8, (0x80 + n / 0x1000 % 0x40).toUInt8,
      (0x80 + n / 0x40 % 0x40).toUInt8, (0x80 + n % 0x40).toUInt8]

/-- The bytes of a text. -/
def encode (cs : List Char) : List UInt8 := cs.flatMap encodeChar

/-- A character that has begun. -/
structure Pending where
  /-- The bits of the code point read so far. -/
  bits : Nat
  /-- The least value of the next byte. -/
  low : Nat
  /-- The greatest value of the next byte. -/
  high : Nat
  /-- The number of bytes behind the next one. -/
  further : Nat
  deriving DecidableEq, Repr

/-- The character that a lead byte begins. Bytes that would begin a longer form than needed, a
surrogate or a number beyond the code points are bounded away. -/
def lead? (b : Nat) : Option Pending :=
  if 0xC2 ≤ b ∧ b ≤ 0xDF then some ⟨b - 0xC0, 0x80, 0xBF, 0⟩
  else if b = 0xE0 then some ⟨0, 0xA0, 0xBF, 1⟩
  else if b = 0xED then some ⟨0xD, 0x80, 0x9F, 1⟩
  else if 0xE1 ≤ b ∧ b ≤ 0xEF then some ⟨b - 0xE0, 0x80, 0xBF, 1⟩
  else if b = 0xF0 then some ⟨0, 0x90, 0xBF, 2⟩
  else if 0xF1 ≤ b ∧ b ≤ 0xF3 then some ⟨b - 0xF0, 0x80, 0xBF, 2⟩
  else if b = 0xF4 then some ⟨4, 0x80, 0x8F, 2⟩
  else none

/-- Read a byte where a character begins: what it completes, and the character it leaves open. -/
def first (b : Nat) : Scanned × Option Pending :=
  if b < 0x80 then ([some (Char.ofNat b)], none)
  else match lead? b with
    | some pending => ([], some pending)
    | none => ([none], none)

/-- Read one byte: what it completes, and the character it leaves open. -/
def step : Option Pending → Nat → Scanned × Option Pending
  | none, b => first b
  | some pending, b =>
    if pending.low ≤ b ∧ b ≤ pending.high then
      let bits := pending.bits * 0x40 + (b - 0x80)
      match pending.further with
      | 0 => ([some (Char.ofNat bits)], none)
      | further + 1 => ([], some ⟨bits, 0x80, 0xBF, further⟩)
    else
      let (done, state) := first b
      (none :: done, state)

/-- Read bytes, with a character already begun or none. -/
def readFrom : Option Pending → List UInt8 → Scanned
  | none, [] => []
  | some _, [] => [none]
  | state, b :: bs =>
    let (done, state) := step state b.toNat
    done ++ readFrom state bs

/-- The characters that bytes stand for, with `none` for each malformed sequence. -/
def read (bs : List UInt8) : Scanned := readFrom none bs

/-- The text that bytes stand for, if no sequence is malformed. -/
def decode? (bs : List UInt8) : Option (List Char) := (read bs).mapM id

/-- The text that bytes stand for, with the replacement character for each malformed sequence. -/
def decodeLossy (bs : List UInt8) : List Char := (read bs).map (·.getD '\uFFFD')

end Utf8

end TokenSearch.Text
