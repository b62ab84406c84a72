import MotionMidi.Handset.Report
import MotionMidi.Sensor

/-!
# Calibration

The factory calibration of a handset, and the readings that reports give under it.

| Byte | Contents |
|---|---|
| 0, 1, 2 | upper eight bits of the acceleration at rest along X, Y, and Z |
| 3 | lower two bits of these, Z at the low end, then Y, then X |
| 4, 5, 6, 7 | the same for an acceleration of one g |
| 8, 9, 10 | joystick along X: largest, smallest, and center |
| 11, 12, 13 | the same along Y |
| 14, 15 | a checksum, not used |

## Main definitions

- `Calibration`, `Calibration.decode` — the calibration that a block of bytes tells
- `JoystickCalibration.normalize` — deflection between minus one and one
- `AccelerationCalibration.normalize` — acceleration relative to one g
- `Calibration.reading` — the reading that a report gives

## Design notes

Nothing is assumed about the numbers of the block. A half of a joystick axis that has no extent and
an accelerometer without a difference between rest and one g read zero.
-/

namespace MotionMidi

/-- Raw positions of the joystick along one axis: both ends, and the position at rest. -/
structure JoystickCalibration where
  min : UInt8
  center : UInt8
  max : UInt8
  deriving DecidableEq, Repr

namespace JoystickCalibration

/-- The part of the extent of half an axis around the center that reads zero, and the part at its
end that reads one. -/
def deadZone : Binary32 := 0.1

/-- The deflection of half an axis, between zero and one, for a distance from the center. -/
def deflection (distance extent : Nat) : Binary32 :=
  let full := Binary32.ofNat distance / Binary32.ofNat extent
  Binary32.clamp 0 1 ((full - deadZone) / (1 - 2 * deadZone))

/-- The deflection of the joystick, negative below the center. -/
def normalize (axis : JoystickCalibration) (raw : UInt8) : Binary32 :=
  let center := axis.center.toNat
  if raw.toNat < center then
    let extent := center - axis.min.toNat
    if extent = 0 then 0 else -1 * deflection (center - raw.toNat) extent
  else
    let extent := axis.max.toNat - center
    if extent = 0 then 0 else 1 * deflection (raw.toNat - center) extent

end JoystickCalibration

/-- Raw values of the accelerometer along one axis: at rest, and at one g. -/
structure AccelerationCalibration where
  rest : TenBits
  oneG : TenBits
  deriving DecidableEq, Repr

/-- The acceleration relative to one g. -/
def AccelerationCalibration.normalize (axis : AccelerationCalibration) (raw : TenBits) : Binary32 :=
  let unit := Binary32.ofNat axis.oneG.val - Binary32.ofNat axis.rest.val
  if unit.same 0 then 0
  else (Binary32.ofNat raw.val - Binary32.ofNat axis.rest.val) / unit

/-- The calibration of every axis. -/
structure Calibration where
  accelX : AccelerationCalibration
  accelY : AccelerationCalibration
  accelZ : AccelerationCalibration
  joyX : JoystickCalibration
  joyY : JoystickCalibration
  deriving DecidableEq, Repr

namespace Calibration

/-- The calibration that a block of bytes tells. -/
def decode (bytes : Vector UInt8 16) : Calibration where
  accelX := {
    rest := .join bytes[0] (bitPair bytes[3] 2)
    oneG := .join bytes[4] (bitPair bytes[7] 2) }
  accelY := {
    rest := .join bytes[1] (bitPair bytes[3] 1)
    oneG := .join bytes[5] (bitPair bytes[7] 1) }
  accelZ := {
    rest := .join bytes[2] (bitPair bytes[3] 0)
    oneG := .join bytes[6] (bitPair bytes[7] 0) }
  joyX := { max := bytes[8], min := bytes[9], center := bytes[10] }
  joyY := { max := bytes[11], min := bytes[12], center := bytes[13] }

/-- The reading that a report gives. -/
def reading (calibration : Calibration) (report : Report) : Reading where
  joyX := calibration.joyX.normalize report.joyX
  joyY := calibration.joyY.normalize report.joyY
  accelX := calibration.accelX.normalize report.accelX
  accelY := calibration.accelY.normalize report.accelY
  accelZ := calibration.accelZ.normalize report.accelZ
  buttonC := report.buttonC
  buttonZ := report.buttonZ

end Calibration

end MotionMidi
