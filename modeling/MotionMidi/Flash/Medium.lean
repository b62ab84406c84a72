/-!
# Flash media

A medium is a row of bytes that can be read anywhere, erased by the sector, and programmed by the
page. Erased bytes are all ones, and programming only clears bits.

## Main definitions

- `Flash.Geometry` — the sizes of sectors, of pages, and of the whole medium
- `Flash.Failure` — why a medium refuses
- `Flash.Medium` — the actions of a medium
-/

namespace MotionMidi.Flash

/-- The sizes of a medium, in bytes. -/
structure Geometry where
  /-- The smallest part that can be erased. -/
  sectorSize : Nat
  /-- The smallest part that can be programmed. -/
  pageSize : Nat
  /-- The whole medium. -/
  capacity : Nat
  deriving DecidableEq, Repr

/-- Why a medium refuses. -/
inductive Failure where
  /-- The bytes do not all lie in the medium. -/
  | outOfBounds
  /-- The bytes are not whole sectors, or not whole pages. -/
  | misaligned
  /-- Programming would set a bit that is clear. -/
  | setsBits
  /-- The power is off. -/
  | powerLoss
  /-- The medium was told to fail. -/
  | injected
  deriving DecidableEq, Repr

/-- The value of an erased byte. -/
def erasedByte : UInt8 := 0xff

/-- Actions on a medium with states in `σ`. -/
abbrev Action (σ α : Type) := EStateM Failure σ α

/-- A medium with states in `σ`. -/
class Medium (σ : Type) where
  /-- The sizes of the medium. -/
  geometry : σ → Geometry
  /-- The bytes from an offset on. -/
  read (offset length : Nat) : Action σ (List UInt8)
  /-- Erases the bytes from an offset on. -/
  erase (offset length : Nat) : Action σ Unit
  /-- Programs bytes from an offset on. -/
  program (offset : Nat) (bytes : List UInt8) : Action σ Unit

end MotionMidi.Flash
