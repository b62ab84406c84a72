import MotionMidi.Flash.Medium

/-!
# A region of flash

A medium in memory that is as strict as the hardware, and whose power can be cut.

## Main definitions

- `Flash.Region` — the bytes of a medium, and the power that is left
- `Flash.Region.erased` — a region that was never programmed
- `Flash.Region.overwrite` — replaces bytes in the middle of others
-/

namespace MotionMidi.Flash

/-- A medium in memory. -/
structure Region where
  bytes : List UInt8
  sectorSize : Nat
  pageSize : Nat
  /-- How many programs will succeed before the power is off, if it is going to be. -/
  powerLeft : Option Nat := none
  /-- How often bytes were programmed. -/
  programs : Nat := 0
  /-- How often bytes were erased. -/
  erases : Nat := 0
  deriving DecidableEq, Repr

namespace Region

/-- A region that was never programmed. -/
def erased (geometry : Geometry) : Region where
  bytes := List.replicate geometry.capacity erasedByte
  sectorSize := geometry.sectorSize
  pageSize := geometry.pageSize

/-- The sizes of a region. -/
def geometry (region : Region) : Geometry where
  sectorSize := region.sectorSize
  pageSize := region.pageSize
  capacity := region.bytes.length

/-- Refuses bytes that do not lie in the region or are not whole units. -/
def check (offset length size : Nat) : Action Region Unit := do
  if (← get).bytes.length < offset + length then throw .outOfBounds
  if offset % size ≠ 0 ∨ length % size ≠ 0 then throw .misaligned

/-- Replaces the bytes from an offset on. -/
def overwrite (bytes : List UInt8) (offset : Nat) (new : List UInt8) : List UInt8 :=
  bytes.take offset ++ new ++ bytes.drop (offset + new.length)

/-- The new bytes have a bit that the old ones lack. -/
def setsBits (old new : List UInt8) : Bool :=
  (old.zip new).any fun (o, n) => n &&& ~~~o ≠ 0

/-- Spends the power of one program. -/
def spendPower : Action Region Unit := do
  let region ← get
  match region.powerLeft with
  | none => return
  | some 0 => throw .powerLoss
  | some (left + 1) => set { region with powerLeft := some left }

/-- Reads bytes. -/
def read (offset length : Nat) : Action Region (List UInt8) := do
  check offset length 1
  return ((← get).bytes.drop offset).take length

/-- Erases whole sectors. -/
def erase (offset length : Nat) : Action Region Unit := do
  check offset length (← get).sectorSize
  modify fun region =>
    { region with
      bytes := overwrite region.bytes offset (List.replicate length erasedByte)
      erases := region.erases + 1 }

/-- Programs whole pages, which only clears bits. Power is spent even if bits would be set. -/
def program (offset : Nat) (new : List UInt8) : Action Region Unit := do
  check offset new.length (← get).pageSize
  spendPower
  let region ← get
  if setsBits ((region.bytes.drop offset).take new.length) new then throw .setsBits
  set { region with
    bytes := overwrite region.bytes offset new
    programs := region.programs + 1 }

instance : Medium Region where
  geometry := geometry
  read := read
  erase := erase
  program := program

end Region

end MotionMidi.Flash
