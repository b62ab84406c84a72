import MotionMidi.Sensor

/-!
# Inputs

The channels of a reading that a mapping can follow.

## Main definitions

- `Input` — a joystick axis or one half of it, or an acceleration axis
- `Input.mnemonic`, `Input.parse?` — the written names, in either case
- `Input.raw` — the value of the channel in a reading
- `Input.defaultDomain` — the domain of a mapping that declares none
-/

namespace MotionMidi

/-- The axes of the joystick. -/
inductive JoystickAxis where
  | x
  | y
  deriving DecidableEq, Repr

/-- The axes of the accelerometer. -/
inductive AccelerationAxis where
  | x
  | y
  | z
  deriving DecidableEq, Repr

/-- The two halves of a joystick axis. -/
inductive Half where
  | negative
  | positive
  deriving DecidableEq, Repr

/-- A channel of the handset: a whole joystick axis, one half of it, or an acceleration. -/
inductive Input where
  | joystick (axis : JoystickAxis) (half : Option Half)
  | acceleration (axis : AccelerationAxis)
  deriving DecidableEq, Repr

namespace Input

/-- Every input. -/
def all : List Input :=
  [.acceleration .x, .acceleration .y, .acceleration .z,
    .joystick .x none, .joystick .x (some .negative), .joystick .x (some .positive),
    .joystick .y none, .joystick .y (some .negative), .joystick .y (some .positive)]

/-- The written name. -/
def mnemonic : Input → String
  | .acceleration .x => "ax"
  | .acceleration .y => "ay"
  | .acceleration .z => "az"
  | .joystick .x none => "jx"
  | .joystick .x (some .negative) => "jx-"
  | .joystick .x (some .positive) => "jx+"
  | .joystick .y none => "jy"
  | .joystick .y (some .negative) => "jy-"
  | .joystick .y (some .positive) => "jy+"

/-- Reads a written name, in either case. -/
def parse? (word : List Char) : Option Input :=
  all.find? fun input => input.mnemonic.toList = word.map Char.toLower

/-- The deflection along a joystick axis. -/
def deflection (reading : Reading) : JoystickAxis → Binary32
  | .x => reading.joyX
  | .y => reading.joyY

/-- The value of the channel. Half of an axis reads positive on its own side and zero on the
other. -/
def raw (input : Input) (reading : Reading) : Binary32 :=
  match input with
  | .joystick axis none => deflection reading axis
  | .joystick axis (some .negative) => (-deflection reading axis).max 0
  | .joystick axis (some .positive) => (deflection reading axis).max 0
  | .acceleration .x => reading.accelX
  | .acceleration .y => reading.accelY
  | .acceleration .z => reading.accelZ

/-- The domain of a mapping that declares none: zero to one for half an axis, else minus one to
one. -/
def defaultDomain : Input → Binary32 × Binary32
  | .joystick _ (some _) => (0, 1)
  | _ => (-1, 1)

@[simp] theorem parse?_mnemonic (input : Input) : parse? input.mnemonic.toList = some input := by
  rcases input with ⟨_ | _, _ | _ | _⟩ | ⟨_ | _ | _⟩ <;> decide

end Input

end MotionMidi
