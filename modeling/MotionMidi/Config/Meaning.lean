import MotionMidi.Config.Basic
import MotionMidi.Config.Reader

/-!
# The meaning of commands

A list of commands describes a configuration: of each setting the last command counts, and the
mappings stand in the order of their declaration.

## Main definitions

- `Config.set` — what a command sets
- `Declaration.mapping` — the mapping that is declared, given the playable notes
- `Config.ofCommands` — the configuration that commands describe
- `Config.parse` — reads a text, with a warning if an integer was brought into range

## Design notes

A note mapping without a window of its own spans the playable notes, and the scale may be set after
the mapping is declared. So the settings are found first, and mappings are built from the scale that
results.
-/

namespace MotionMidi

/-- The range of a mapping without a window of its own. Notes span the playable notes where these
ascend. -/
def NoteTable.defaultRange (notes : NoteTable) (destination : Destination) : Nat × Nat :=
  match destination, notes.bounds? with
  | .note, some (lowest, highest) =>
    if lowest ≤ highest then (lowest, highest) else destination.defaultRange
  | _, _ => destination.defaultRange

theorem NoteTable.defaultRange_ordered (notes : NoteTable) (destination : Destination) :
    (notes.defaultRange destination).1 ≤ (notes.defaultRange destination).2 := by
  unfold NoteTable.defaultRange
  split
  · split
    · assumption
    · exact Destination.defaultRange_ordered _
  · exact Destination.defaultRange_ordered _

/-- The mapping that is declared, given the playable notes. -/
def Declaration.mapping (notes : NoteTable) (declaration : Declaration) : Mapping :=
  match declaration with
  | { input, window := some window, target, ordered } =>
    { input
      fromLo := window.fromLo, fromHi := window.fromHi
      toLo := window.toLo.clamped, toHi := window.toHi.clamped
      destination := target.destination
      ordered := ordered window rfl }
  | { input, window := none, target, .. } =>
    { input
      fromLo := input.defaultDomain.1, fromHi := input.defaultDomain.2
      toLo := (notes.defaultRange target.destination).1
      toHi := (notes.defaultRange target.destination).2
      destination := target.destination
      ordered := notes.defaultRange_ordered target.destination }

@[simp] theorem Declaration.destination_mapping (notes : NoteTable) (declaration : Declaration) :
    (declaration.mapping notes).destination = declaration.target.destination := by
  obtain ⟨input, _ | window, target, ordered⟩ := declaration <;> rfl

namespace Config

/-- What a command sets. Mappings are left aside. -/
def set (config : Config) : Command → Config
  | .channel index => { config with channel := index.clamped }
  | .root key => { config with root := key }
  | .scale intervals => { config with intervals := intervals.map Literal.clamped }
  | .octaves first last =>
    { config with firstOctave := first.clamped, lastOctave := last.clamped }
  | .tempo bpm => { config with tempo := bpm.clamped }
  | .division beats => { config with division := beats }
  | .map _ => config
  | .finish => config

/-- The settings that commands make. -/
def settings (commands : List Command) : Config :=
  commands.foldl set {}

/-- The configuration that commands describe. -/
def ofCommands (commands : List Command) : Config :=
  let settings := settings commands
  { settings with
    mappings := (commands.filterMap Command.declaration?).map
      (Declaration.mapping settings.validNotes) }

/-- The warning about the first integer that had to be brought into the range of its field. -/
def warning? (commands : List Command) : Option Error :=
  ((commands.flatMap Command.literals).find? (¬ ·.InRange)).map fun literal =>
    .outOfRange literal.position

/-- A configuration that was read, and a warning if an integer was brought into range. -/
structure Parsed where
  config : Config
  warning : Option Error
  deriving DecidableEq, Repr

/-- Reads a text. -/
def parse (text : String) : Except Error Parsed :=
  (Command.parse text.toList).map fun commands =>
    { config := ofCommands commands, warning := warning? commands }

end Config

end MotionMidi
