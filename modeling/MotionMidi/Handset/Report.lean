import MotionMidi.Power

/-!
# Reports

The six bytes in which the handset reports its state.

| Byte | Contents |
|---|---|
| 0, 1 | joystick along X and Y |
| 2, 3, 4 | upper eight bits of the acceleration along X, Y, and Z |
| 5 | from the low end: the Z and the C button, clear while held, then the lower two bits of the acceleration along X, Y, and Z |

## Main definitions

- `TenBits` — a number of ten bits, split into eight upper and two lower ones
- `Report`, `Report.decode` — the state that a report tells
-/

namespace MotionMidi

/-- A number of ten bits. -/
abbrev TenBits := Fin 1024

/-- A pair of bits of a byte, counted in pairs from the low end. -/
def bitPair (byte : UInt8) (index : Nat) : Fin 4 :=
  Fin.ofNat 4 (byte.toNat / 4 ^ index)

/-- The number with the given upper eight and lower two bits. -/
def TenBits.join (upper : UInt8) (lower : Fin 4) : TenBits :=
  ⟨4 * upper.toNat + lower.val, by
    have := upper.toNat_lt
    omega⟩

/-- The state of the handset, not calibrated. -/
structure Report where
  joyX : UInt8
  joyY : UInt8
  accelX : TenBits
  accelY : TenBits
  accelZ : TenBits
  buttonC : Bool
  buttonZ : Bool
  deriving DecidableEq, Repr

namespace Report

/-- The state that a report tells. -/
def decode (bytes : Vector UInt8 6) : Report where
  joyX := bytes[0]
  joyY := bytes[1]
  accelX := .join bytes[2] (bitPair bytes[5] 1)
  accelY := .join bytes[3] (bitPair bytes[5] 2)
  accelZ := .join bytes[4] (bitPair bytes[5] 3)
  buttonC := bytes[5].toNat / 2 % 2 = 0
  buttonZ := bytes[5].toNat % 2 = 0

end Report

end MotionMidi
