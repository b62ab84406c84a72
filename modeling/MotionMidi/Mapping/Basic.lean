import MotionMidi.Binary32.Decimal
import MotionMidi.Mapping.Input
import MotionMidi.Mapping.Remap
import MotionMidi.Midi.Message

/-!
# Mappings

A mapping says how one input drives one kind of MIDI output.

## Main definitions

- `Destination` — a controller, the pitch bend, or the note that is played
- `Mapping` — an input, its domain, an output range that is not reversed, and a destination
- `Mapping.value` — the output for a reading
- `Mapping.words` — the written form, with every range spelled out
-/

namespace MotionMidi

/-- What a mapping drives. -/
inductive Destination where
  | controlChange (controller : Nat)
  | pitchBend
  | note
  deriving DecidableEq, Repr

namespace Destination

instance : Inhabited Destination where
  default := .controlChange 1

/-- The written form. -/
def words : Destination → List String
  | .controlChange controller => ["cc", Numeral.text controller]
  | .pitchBend => ["pb"]
  | .note => ["note"]

/-- The output range of a mapping that declares none. -/
def defaultRange : Destination → Nat × Nat
  | .pitchBend => (0, Midi.highestBend)
  | _ => (0, 127)

theorem defaultRange_ordered (destination : Destination) :
    destination.defaultRange.1 ≤ destination.defaultRange.2 := by
  cases destination <;> simp [defaultRange]

end Destination

/-- A rule that remaps one input onto an output range. -/
structure Mapping where
  input : Input
  fromLo : Binary32
  fromHi : Binary32
  toLo : Nat
  toHi : Nat
  destination : Destination
  ordered : toLo ≤ toHi
  deriving DecidableEq, Repr

namespace Mapping

/-- The mapping with the given parts, unless its output range is reversed. -/
def make? (input : Input) (domain : Binary32 × Binary32) (range : Nat × Nat)
    (destination : Destination) : Option Mapping :=
  if ordered : range.1 ≤ range.2 then
    some {
      input, destination, ordered
      fromLo := domain.1, fromHi := domain.2
      toLo := range.1, toHi := range.2 }
  else none

instance : Inhabited Mapping where
  default := {
    input := .joystick .y none
    fromLo := 0, fromHi := 0
    toLo := 0, toHi := 0
    destination := default
    ordered := Nat.le_refl 0 }

/-- The output for a reading. -/
def value (mapping : Mapping) (reading : Reading) : Nat :=
  remap (mapping.input.raw reading) mapping.fromLo mapping.fromHi mapping.toLo mapping.toHi

/-- The written form: the input, the domain, the output range, and the destination. -/
def words (mapping : Mapping) : List String :=
  [mapping.input.mnemonic, mapping.fromLo.text, mapping.fromHi.text,
    Numeral.text mapping.toLo, Numeral.text mapping.toHi] ++ mapping.destination.words

/-- The written form as text. -/
def text (mapping : Mapping) : String :=
  " ".intercalate mapping.words

end Mapping

end MotionMidi
