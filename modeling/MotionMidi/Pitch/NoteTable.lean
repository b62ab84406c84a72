import MotionMidi.Error
import MotionMidi.Pitch.Key

/-!
# Note tables

The notes of a scale across a range of octaves, and the note of the table nearest to a candidate.

## Main definitions

- `NoteTable.build` — the playable notes of a scale, octave by octave
- `NoteTable.bounds?` — the first and the last note
- `NoteTable.quantize` — the nearest note, the lower one of two equally near

## Design notes

Octaves are numbered so that the C of octave 3 is note 60. A table is ascending when the intervals
are ascending and span at most an octave; `quantize` finds the nearest note of such a table by
looking only at the two neighbours of the candidate.
-/

namespace MotionMidi

/-- The notes of a scale, in the order they are played through. -/
structure NoteTable where
  notes : List Nat := []
  deriving DecidableEq, Repr, Inhabited

namespace NoteTable

/-- The highest playable note. -/
def highestNote : Nat := 127

/-- How many notes a table holds: sixteen in each of the nine octaves with playable notes. -/
def capacity : Nat := 16 * 9

/-- Octaves of the note numbering below octave 0. -/
def octaveOffset : Nat := 2

/-- Adds a note at the end, unless it is not playable or the table is full. -/
def add (table : NoteTable) (note : Nat) : NoteTable :=
  if note ≤ highestNote ∧ table.notes.length < capacity then ⟨table.notes ++ [note]⟩ else table

/-- The note of the root in an octave. -/
def rootNote (root : Key) (octave : Nat) : Nat :=
  root.pitchClass + 12 * (octave + octaveOffset)

/-- Adds the notes of one octave, in the order of the intervals. -/
def addOctave (root : Key) (intervals : List Nat) (table : NoteTable) (octave : Nat) : NoteTable :=
  intervals.foldl (fun table interval => table.add (rootNote root octave + interval)) table

/-- The octaves from the first to the last, both included. -/
def octaves (first last : Nat) : List Nat :=
  List.range' first (last + 1 - first)

/-- The table of a scale, octave by octave. -/
def build (root : Key) (intervals : List Nat) (first last : Nat) : NoteTable :=
  (octaves first last).foldl (addOctave root intervals) {}

/-- Whether the table holds no note. -/
def isEmpty (table : NoteTable) : Bool :=
  table.notes.isEmpty

/-- The first and the last note. -/
def bounds? (table : NoteTable) : Option (Nat × Nat) :=
  match table.notes.head?, table.notes.getLast? with
  | some lowest, some highest => some (lowest, highest)
  | _, _ => none

/-- The nearer of two neighbours, the lower one if both are equally near. -/
def nearer (below above candidate : Nat) : Nat :=
  if above - candidate < candidate - below then above else below

/-- The note nearest to a candidate. Candidates beyond an end of the table give that end. -/
def quantize (table : NoteTable) (candidate : Nat) : Except Error Nat :=
  match table.bounds? with
  | none => .error .noteModeUnavailable
  | some (lowest, highest) =>
    if candidate ≤ lowest then .ok lowest
    else
      match (table.notes.takeWhile (· < candidate)).getLast?,
        (table.notes.dropWhile (· < candidate)).head? with
      | some below, some above => .ok (nearer below above candidate)
      | none, some above => .ok above
      | _, none => .ok highest

end NoteTable

end MotionMidi
