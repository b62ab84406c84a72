import MotionMidi.Mapping.Basic
import MotionMidi.Pitch.NoteTable

/-!
# Configurations

A configuration turns readings of the handset into MIDI.

## Main definitions

- `Config` — the channel, the scale, the tempo, and the mappings
- `Config.validNotes` — the playable notes of the scale
- `Config.autoRepeat` — the time between repeated notes
- `Config.noteMapping?` — the mapping that chooses notes: the last one that plays them
- `Config.mappedNote` — the note of the scale that a reading chooses
-/

namespace MotionMidi

/-- Everything that is needed to turn readings into MIDI. The defaults hold for commands that are
left out of a text. -/
structure Config where
  /-- The index of the MIDI channel. -/
  channel : Nat := 1
  /-- The root of the scale. -/
  root : Key := .c
  /-- The notes of the scale, in semitones above the root. -/
  intervals : List Nat := [0, 4, 7]
  /-- The first octave of the scale. -/
  firstOctave : Nat := 2
  /-- The last octave of the scale. -/
  lastOctave : Nat := 7
  /-- Beats per minute. -/
  tempo : Nat := 100
  /-- The part of a beat between repeated notes. -/
  division : Binary32 := 0.5
  /-- The mappings, in the order of their declaration. -/
  mappings : List Mapping := []
  deriving DecidableEq, Repr, Inhabited

namespace Config

/-- The playable notes of the scale. -/
def validNotes (config : Config) : NoteTable :=
  .build config.root config.intervals config.firstOctave config.lastOctave

/-- The longest time between repeated notes, in milliseconds. -/
def longestAutoRepeat : Nat := 2 ^ 32 - 1

/-- The least time between repeated notes, in microseconds: whole milliseconds, none for negative
divisions, and never more than the longest one. -/
def autoRepeat (config : Config) : Nat :=
  (60000 / Binary32.ofNat config.tempo * config.division).truncate longestAutoRepeat * 1000

/-- The last mapping that plays notes, with its index. -/
def lastNoteMapping? (config : Config) : Option (Mapping × Nat) :=
  (config.mappings.zipIdx.filter fun (mapping, _) => mapping.destination = .note).getLast?

/-- The mapping that chooses notes. -/
def noteMapping? (config : Config) : Option Mapping :=
  config.lastNoteMapping?.map (·.1)

/-- The index of the mapping that chooses notes. -/
def noteMappingIndex? (config : Config) : Option Nat :=
  config.lastNoteMapping?.map (·.2)

/-- There is a mapping that chooses notes, and there are notes to choose from. -/
def notesEnabled (config : Config) : Bool :=
  config.noteMapping?.isSome && !config.validNotes.isEmpty

/-- The note of the scale that a reading chooses. -/
def mappedNote (config : Config) (reading : Reading) : Except Error Nat :=
  match config.noteMapping? with
  | none => .error .noteModeUnavailable
  | some mapping => config.validNotes.quantize (mapping.value reading)

end Config

end MotionMidi
