import MotionMidi.Handset.Calibration

/-!
# The bus of the handset

## Main definitions

- `Bus` — a two-wire bus: writes and reads that may fail, and pauses
- `Handset.wake` — wakes the handset without encryption and fetches its calibration
- `Handset.sample` — fetches a report and gives the reading
-/

namespace MotionMidi

/-- A transaction on the bus failed. -/
inductive BusFailure where
  | notAcknowledged
  deriving DecidableEq, Repr

/-- The wording of a bus failure. -/
def BusFailure.message : BusFailure → String
  | .notAcknowledged => "Bus error occurred"

/-- Actions on a bus with states in `σ`. -/
abbrev BusAction (σ α : Type) := EStateM BusFailure σ α

/-- A bus. Transactions name the address of a device. -/
class Bus (σ : Type) where
  /-- Sends bytes. -/
  write (address : Nat) (bytes : List UInt8) : BusAction σ Unit
  /-- Fetches so many bytes. -/
  read (address : Nat) (length : Nat) : BusAction σ (Vector UInt8 length)
  /-- Waits for so many microseconds. -/
  delay (duration : Nat) : BusAction σ Unit

namespace Handset

/-- The address of the handset. -/
def address : Nat := 0x52

/-- The register of the report. -/
def reportRegister : UInt8 := 0x00

/-- The register of the calibration block. -/
def calibrationRegister : UInt8 := 0x20

variable {σ : Type} [Bus σ]

/-- Fetches bytes from a register. The handset takes a moment to switch to it. -/
def fetch (register : UInt8) (length : Nat) : BusAction σ (Vector UInt8 length) := do
  Bus.write address [register]
  Bus.delay 3000
  Bus.read address length

/-- Wakes the handset, turns encryption off, and fetches the calibration. -/
def wake : BusAction σ Calibration := do
  Bus.delay 100000
  Bus.write address [0xf0, 0x55]
  Bus.delay 100000
  Bus.write address [0xfb, 0x00]
  Bus.delay 100000
  return Calibration.decode (← fetch calibrationRegister 16)

/-- Fetches a report and gives the reading. -/
def sample (calibration : Calibration) : BusAction σ Reading := do
  return calibration.reading (Report.decode (← fetch reportRegister 6))

end Handset

end MotionMidi
