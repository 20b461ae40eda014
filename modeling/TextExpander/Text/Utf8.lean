import TextExpander.Text.Basic

/-!
# UTF-8

Encoding a text, and reading bytes that may not be the encoding of any text. The reader works
through the bytes from the left. Where a character starts it takes the longest run of bytes that
could still become one; if the run is cut off or goes wrong it counts as one ill-formed part, and
reading goes on with the byte that did not fit.

## Main definitions

* `Utf8.encode`: the bytes of a text.
* `Utf8.scalars`: the characters of a run of bytes, with `none` for each ill-formed part.
* `Utf8.decode?`: the text of well-formed bytes.
* `Utf8.decodeLossy`: the same for any bytes, with U+FFFD for each ill-formed part.
-/

namespace TextExpander

namespace Utf8

/-- The UTF-8 encoding of a text. -/
def encode (t : Text) : List UInt8 :=
  t.flatMap String.utf8EncodeChar

/-- The number of bytes of a character by its first byte; zero if no character starts so. -/
def width (lead : UInt8) : Nat :=
  if lead < 0x80 then 1
  else if 0xC2 ≤ lead ∧ lead ≤ 0xDF then 2
  else if 0xE0 ≤ lead ∧ lead ≤ 0xEF then 3
  else if 0xF0 ≤ lead ∧ lead ≤ 0xF4 then 4
  else 0

/-- The part of the code point that stands in the first byte of a character of more than one. -/
def leadBits (lead : UInt8) : Nat :=
  if lead < 0xE0 then lead.toNat - 0xC0
  else if lead < 0xF0 then lead.toNat - 0xE0
  else lead.toNat - 0xF0

/-- The least second byte after a first byte: overlong forms are ill-formed. -/
def secondMin (lead : UInt8) : UInt8 :=
  if lead = 0xE0 then 0xA0 else if lead = 0xF0 then 0x90 else 0x80

/-- The greatest second byte after a first byte: surrogates, and code points beyond the last, are
ill-formed. -/
def secondMax (lead : UInt8) : UInt8 :=
  if lead = 0xED then 0x9F else if lead = 0xF4 then 0x8F else 0xBF

/-- Reads `n` continuation bytes onto a code point, the first of them between `lo` and `hi`. The
result is the code point, or `none` if a byte is missing or does not fit, and the bytes left. -/
def continuation : (n : Nat) → (value : Nat) → (lo hi : UInt8) → List UInt8 →
    Option Nat × List UInt8
  | 0, value, _, _, rest => (some value, rest)
  | _ + 1, _, _, _, [] => (none, [])
  | n + 1, value, lo, hi, b :: rest =>
    if lo ≤ b ∧ b ≤ hi then continuation n (value * 64 + (b.toNat - 0x80)) 0x80 0xBF rest
    else (none, b :: rest)

/-- Reads one character, or one ill-formed part, that starts with the byte `lead`. -/
def readChar (lead : UInt8) (rest : List UInt8) : Option Char × List UInt8 :=
  match width lead with
  | 0 => (none, rest)
  | 1 => (some (Char.ofNat lead.toNat), rest)
  | n + 2 =>
    let (value, left) := continuation (n + 1) (leadBits lead) (secondMin lead) (secondMax lead) rest
    (value.map Char.ofNat, left)

theorem length_continuation_le (n value : Nat) (lo hi : UInt8) (bytes : List UInt8) :
    (continuation n value lo hi bytes).2.length ≤ bytes.length := by
  induction bytes generalizing n value lo hi with
  | nil => cases n <;> simp [continuation]
  | cons b rest ih =>
    cases n with
    | zero => simp [continuation]
    | succ n =>
      rw [continuation]
      split
      · exact Nat.le_succ_of_le (ih ..)
      · simp

theorem length_readChar_le (lead : UInt8) (rest : List UInt8) :
    (readChar lead rest).2.length ≤ rest.length := by
  unfold readChar
  split
  · simp
  · simp
  · exact length_continuation_le ..

/-- The characters read so far, last first, and then those of the bytes that are left. -/
def scalarsFrom (seen : List (Option Char)) : List UInt8 → List (Option Char)
  | [] => seen.reverse
  | lead :: rest => scalarsFrom ((readChar lead rest).1 :: seen) (readChar lead rest).2
termination_by bytes => bytes.length
decreasing_by
  have := length_readChar_le lead rest
  simp
  omega

/-- The characters of a run of bytes, with `none` for each ill-formed part. -/
def scalars (bytes : List UInt8) : List (Option Char) :=
  scalarsFrom [] bytes

/-- The text that the bytes encode, if they are well-formed. -/
def decode? (bytes : List UInt8) : Option Text :=
  let read := scalars bytes
  if read.all Option.isSome then some (read.filterMap id) else none

/-- The text that the bytes encode, with U+FFFD in place of each ill-formed part. -/
def decodeLossy (bytes : List UInt8) : Text :=
  (scalars bytes).map fun c => c.getD '\uFFFD'

end Utf8

end TextExpander
