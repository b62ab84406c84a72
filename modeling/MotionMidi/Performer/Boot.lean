import MotionMidi.Flash.SaveSlot
import MotionMidi.Performer.Basic

/-!
# Starting from the save slot

## Main definitions

- `Saved`, `Saved.lookup` — what the save slot has to offer
- `Performer.boot` — the performer after power is switched on
-/

namespace MotionMidi

open Flash

/-- What the save slot has to offer. -/
inductive Saved where
  /-- No complete record, or none that can be seen. -/
  | nothing
  /-- A complete record that cannot be read or understood. -/
  | unusable
  /-- A configuration. -/
  | usable (parsed : Config.Parsed)
  deriving DecidableEq, Repr

variable {σ : Type} [Medium σ]

/-- Looks into the save slot. -/
def Saved.lookup : StateM σ Saved := do
  if ← SaveSlot.isValid then
    match ← SaveSlot.attempt SaveSlot.read with
    | .error _ => return .unusable
    | .ok text =>
      match Config.parse text with
      | .ok parsed => return .usable parsed
      | .error _ => return .unusable
  else return .nothing

/-- Starts with the saved configuration, or with the factory configuration if there is none. A
record that is unusable, or read with a warning, raises the fault flag. -/
def Performer.boot : StateM σ Performer := do
  match ← Saved.lookup with
  | .nothing => return {}
  | .unusable => return { fault := true }
  | .usable { config, warning } =>
    return { ({} : Performer).adopt config with fault := warning.isSome }

end MotionMidi
