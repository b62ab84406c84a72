import MotionMidi.Error
import MotionMidi.Flash.Header
import MotionMidi.Flash.Medium
import MotionMidi.Utf8

/-!
# The save slot

Keeps one text in flash, such that a write that is cut short is never mistaken for a complete one.

A record is a header, the text, and a terminating zero.

## Main definitions

- `Flash.Geometry.Supported` — the media that can hold a record
- `SaveSlot.programs` — the pages that make up a record, in the order they are programmed
- `SaveSlot.write`, `SaveSlot.read` — save a text, and give it back
- `SaveSlot.isValid` — whether a complete record is there

## Design notes

Erased flash is all ones, so an erased header is incomplete. A record of several pages is written
with an incomplete header, and the first page is programmed again with the flag cleared once all
others are in place. This only clears a bit, so it needs no further erase.
-/

namespace MotionMidi

open Flash

namespace Flash

/-- The number of units that cover a length. -/
def unitsCovering (size length : Nat) : Nat :=
  (length + size - 1) / size

/-- The largest page. -/
def largestPage : Nat := 256

/-- Pages hold a header and are not too large, sectors are whole pages, and the medium is whole
sectors, at least one. -/
def Geometry.Supported (geometry : Geometry) : Prop :=
  Header.size ≤ geometry.pageSize ∧ geometry.pageSize ≤ largestPage ∧
    geometry.pageSize ≤ geometry.sectorSize ∧ geometry.sectorSize % geometry.pageSize = 0 ∧
    geometry.sectorSize ≤ geometry.capacity ∧ geometry.capacity % geometry.sectorSize = 0

instance (geometry : Geometry) : Decidable geometry.Supported :=
  inferInstanceAs (Decidable (_ ∧ _))

end Flash

namespace SaveSlot

/-- The longest text, in bytes. -/
def longestText : Nat := 4096

/-- The bytes of a record. -/
def recordBytes (complete : Bool) (text : List UInt8) : List UInt8 :=
  (Header.make complete text.length).encode ++ text ++ [0]

/-- A page of some bytes. Past their end the page is left erased. -/
def page (size : Nat) (bytes : List UInt8) (index : Nat) : List UInt8 :=
  ((bytes ++ List.replicate size erasedByte).drop (index * size)).take size

/-- The pages that make up a record, with their offsets, in the order they are programmed. -/
def programs (size : Nat) (text : List UInt8) : List (Nat × List UInt8) :=
  let count := unitsCovering size (recordBytes true text).length
  let first := (0, page size (recordBytes true text) 0)
  if count = 1 then [first]
  else
    (List.range count).map (fun index =>
      (index * size, page size (recordBytes false text) index)) ++ [first]

/-- The bytes that are erased for a record. -/
def erasedLength (geometry : Geometry) (recordLength : Nat) : Nat :=
  unitsCovering geometry.sectorSize
    (unitsCovering geometry.pageSize recordLength * geometry.pageSize) * geometry.sectorSize

/-- Actions on a slot in a medium with states in `σ`. -/
abbrev Action (σ α : Type) := EStateM Error σ α

variable {σ α : Type}

/-- An action of the medium. Its reasons for failing are not told apart. -/
def onMedium (action : Flash.Action σ α) : Action σ α :=
  action.adaptExcept fun _ => .mediumFailure

/-- The result of an action, be it a failure. -/
def attempt (action : Action σ α) : StateM σ (Except Error α) := fun medium =>
  match action medium with
  | .ok a medium => (.ok a, medium)
  | .error error medium => (.error error, medium)

variable [Medium σ]

/-- Refuses a medium that cannot hold a record. -/
def check : Action σ Unit := do
  if ¬ (Medium.geometry (← get)).Supported then throw .unsupportedGeometry

/-- The bytes of the medium from an offset on, whatever they mean. -/
def readRaw (offset length : Nat) : Action σ (List UInt8) :=
  onMedium (Medium.read offset length)

/-- The header of the record. -/
def header : Action σ Header := do
  return Header.decode (← readRaw 0 Header.size)

/-- Whether a complete record is there. A medium that cannot be read holds none. -/
def isValid : StateM σ Bool := do
  match ← attempt header with
  | .ok header => return header.IsComplete
  | .error _ => return false

/-- The saved text. -/
def read : Action σ String := do
  let header ← header
  if ¬ header.IsComplete then throw .noValidRecord
  let geometry := Medium.geometry (← get)
  if header.length = 0 ∨ longestText < header.length - 1 ∨
      geometry.capacity < Header.size + header.length then
    throw .noValidRecord
  let terminator ← readRaw (Header.size + header.length - 1) 1
  if terminator ≠ [0] then throw .noValidRecord
  match Utf8.decode? (← readRaw Header.size (header.length - 1)) with
  | some text => return text
  | none => throw .noValidRecord

/-- Saves a text in place of the one before. -/
def write (text : String) : Action σ Unit := do
  let bytes := Utf8.encode text
  let recordLength := Header.size + bytes.length + 1
  let geometry := Medium.geometry (← get)
  if geometry.capacity < recordLength ∨ longestText < bytes.length then throw .slotTooSmall
  onMedium (Medium.erase 0 (erasedLength geometry recordLength))
  (programs geometry.pageSize bytes).forM fun (offset, page) =>
    onMedium (Medium.program offset page)

end SaveSlot

end MotionMidi
