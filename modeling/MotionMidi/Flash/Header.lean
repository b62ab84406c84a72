import MotionMidi.Power

/-!
# The header of a record

| Offset | Size | Contents |
|---|---|---|
| 0 | 4 | a magic number |
| 4 | 4 | flags; the lowest bit is set while the record is incomplete |
| 8 | 4 | the length of the text with its terminator |

Numbers have their lowest byte first.

## Main definitions

- `Flash.wordBytes`, `Flash.wordValue` — numbers as bytes
- `Flash.Header` — the header of a record, and its bytes
- `Flash.Header.IsComplete` — the record was written to its end
-/

namespace MotionMidi.Flash

/-- A number as four bytes, the lowest one first. -/
def wordBytes (n : Nat) : List UInt8 :=
  [n, n / 2 ^ 8, n / 2 ^ 16, n / 2 ^ 24].map UInt8.ofNat

/-- The number that bytes make, the lowest one first. -/
def wordValue (bytes : List UInt8) : Nat :=
  bytes.foldr (fun byte n => byte.toNat + 256 * n) 0

/-- The number that marks a header. -/
def magicNumber : Nat := 0x4e554e31

/-- The flags of a record. All are set but the lowest, which tells an incomplete one. -/
def flagsOf (complete : Bool) : Nat :=
  if complete then 0xfffffffe else 0xffffffff

/-- The header of a record. -/
structure Header where
  magic : Nat
  flags : Nat
  /-- The length of the text with its terminator. -/
  length : Nat
  deriving DecidableEq, Repr

namespace Header

/-- The size of a header, in bytes. -/
def size : Nat := 12

/-- The header of a record with a text of so many bytes. -/
def make (complete : Bool) (textLength : Nat) : Header where
  magic := magicNumber
  flags := flagsOf complete
  length := textLength + 1

/-- The bytes of a header. -/
def encode (header : Header) : List UInt8 :=
  wordBytes header.magic ++ wordBytes header.flags ++ wordBytes header.length

/-- The header that bytes tell. -/
def decode (bytes : List UInt8) : Header where
  magic := wordValue (bytes.take 4)
  flags := wordValue ((bytes.drop 4).take 4)
  length := wordValue ((bytes.drop 8).take 4)

/-- The header marks a record that was written to its end. -/
def IsComplete (header : Header) : Prop :=
  header.magic = magicNumber ∧ header.flags % 2 = 0

instance (header : Header) : Decidable header.IsComplete :=
  inferInstanceAs (Decidable (_ ∧ _))

end Header

end MotionMidi.Flash
