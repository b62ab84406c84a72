import MotionMidi.Binary32.Basic

/-!
# Readings of the handset

A reading is one sample of the joystick, the accelerometer and the two buttons. Button presses
and releases are differences between two samples in a row.

## Main definitions

- `Reading` — one sample of every channel
- `Sensor` — the latest sample and the one before it
- `Sensor.held`, `pressed`, `released` — what a button does between the two
-/

namespace MotionMidi

/-- The buttons of the handset. -/
inductive Button where
  | c
  | z
  deriving DecidableEq, Repr

/-- One sample. Joystick axes lie in `[-1, 1]`; acceleration is relative to one g. -/
structure Reading where
  joyX : Binary32 := 0
  joyY : Binary32 := 0
  accelX : Binary32 := 0
  accelY : Binary32 := 0
  accelZ : Binary32 := 0
  buttonC : Bool := false
  buttonZ : Bool := false
  deriving DecidableEq, Repr, Inhabited

/-- Whether a button is down in the sample. -/
def Reading.button (reading : Reading) : Button → Bool
  | .c => reading.buttonC
  | .z => reading.buttonZ

/-- The latest sample and its predecessor. Both are at rest before the first sample. -/
structure Sensor where
  current : Reading := {}
  previous : Reading := {}
  deriving DecidableEq, Repr, Inhabited

namespace Sensor

/-- Takes a new sample; the one it replaces becomes the predecessor. -/
def update (sensor : Sensor) (reading : Reading) : Sensor :=
  { current := reading, previous := sensor.current }

/-- The button is down in the latest sample. -/
def held (sensor : Sensor) (button : Button) : Bool :=
  sensor.current.button button

/-- The button went down between the two samples. -/
def pressed (sensor : Sensor) (button : Button) : Bool :=
  sensor.current.button button && !sensor.previous.button button

/-- The button came up between the two samples. -/
def released (sensor : Sensor) (button : Button) : Bool :=
  !sensor.current.button button && sensor.previous.button button

end Sensor

end MotionMidi
