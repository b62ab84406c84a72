import MotionMidi.Config.Text

/-!
# The performer

The state that is carried from one reading, and from one console line, to the next.

## Main definitions

- `Sounding` — a note that sounds, and the channel it was started on
- `Performer` — the active configuration, the fault flag, the text that is being collected, and
  what was sent so far
- `Performer.adopt` — makes a configuration the active one
- `Performer.raiseFault` — raises the fault flag
-/

namespace MotionMidi

/-- A note that sounds. It has to be released on the channel it was started on, whatever the
active configuration says by then. -/
structure Sounding where
  channel : Nat
  note : Nat
  deriving DecidableEq, Repr

/-- The state of the instrument. -/
structure Performer where
  /-- The active configuration. -/
  config : Config := Config.factory
  /-- Something went wrong since the last flawless reconfiguration. -/
  fault : Bool := false
  /-- The lines of a configuration that has not ended yet, each with its line end. -/
  pending : String := ""
  /-- The note that sounds. -/
  sounding : Option Sounding := none
  /-- When the last note was started, in microseconds. -/
  lastNoteAt : Option Nat := none
  /-- For each mapping, the value that was sent last since the configuration is active. -/
  lastValues : List (Option Nat) := config.mappings.map fun _ => none
  deriving DecidableEq, Repr, Inhabited

namespace Performer

/-- Makes a configuration the active one, of which nothing was sent yet. -/
def adopt (performer : Performer) (config : Config) : Performer :=
  { performer with config, lastValues := config.mappings.map fun _ => none }

/-- Raises the fault flag. -/
def raiseFault (performer : Performer) : Performer :=
  { performer with fault := true }

end Performer

end MotionMidi
