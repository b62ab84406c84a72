import MotionMidi.Flash.SaveSlot

/-!
# Hexadecimal dumps

Shows the start of a medium, sixteen bytes a row: the address in eight digits, the bytes in groups
of two, and the characters that the bytes stand for.

## Main definitions

- `Hexdump.row` — the text of a row
- `Hexdump.extents` — the addresses and the lengths of the rows
- `Hexdump.show` — the rows, up to the first one that cannot be read
-/

namespace MotionMidi.Hexdump

open Flash

/-- The character of a hexadecimal digit. -/
def digit (n : Nat) : Char :=
  if n < 10 then Char.ofNat ('0'.toNat + n) else Char.ofNat ('a'.toNat + (n - 10))

/-- The lowest `width` hexadecimal digits of a number. -/
def digits : Nat → Nat → List Char
  | 0, _ => []
  | width + 1, n => digits width (n / 16) ++ [digit (n % 16)]

/-- The two digits of a byte. -/
def byteDigits (byte : UInt8) : List Char :=
  digits 2 byte.toNat

/-- Bytes in groups of two, each with a space in front. -/
def groups : List UInt8 → List Char
  | [] => []
  | [byte] => ' ' :: byteDigits byte
  | first :: second :: bytes => ' ' :: byteDigits first ++ byteDigits second ++ groups bytes

/-- The character that a byte stands for. A point stands for those that cannot be printed. -/
def printable (byte : UInt8) : Char :=
  if 0x20 ≤ byte ∧ byte ≤ 0x7e then Char.ofNat byte.toNat else '.'

/-- The text of a row. -/
def row (address : Nat) (bytes : List UInt8) : String :=
  String.ofList
    (digits 8 address ++ ':' :: groups bytes ++ ' ' :: ' ' :: bytes.map printable)

/-- The bytes of a row. -/
def rowLength : Nat := 16

/-- The bytes that are shown of a medium that is large enough. -/
def shownLength : Nat := 576

/-- The addresses and the lengths of the rows that show so many bytes. -/
def extents (length : Nat) : List (Nat × Nat) :=
  (List.range (unitsCovering rowLength length)).map fun index =>
    (rowLength * index, min rowLength (length - rowLength * index))

variable {σ : Type} [Medium σ]

/-- The rows at some addresses. The first one that cannot be read is replaced by a message and
ends the dump. -/
def rows : List (Nat × Nat) → StateM σ (List String)
  | [] => return []
  | (address, length) :: extents => do
    match ← SaveSlot.attempt (SaveSlot.readRaw address length) with
    | .ok bytes => return row address bytes :: (← rows extents)
    | .error _ => return ["Unable to read flash"]

/-- The rows that show the start of a medium. -/
def dump : StateM σ (List String) := do
  rows (extents (min shownLength (Medium.geometry (← get)).capacity))

end MotionMidi.Hexdump
