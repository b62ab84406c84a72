/-!
# Keys

The twelve pitch classes, used as the root of a scale.

## Main definitions

- `Key` — the pitch classes, ascending from C
- `Key.pitchClass`, `Key.ofPitchClass` — semitones above C
- `Key.name`, `Key.parse?` — the written names
-/

namespace MotionMidi

/-- A pitch class. -/
inductive Key where
  | c
  | dFlat
  | d
  | eFlat
  | e
  | f
  | gFlat
  | g
  | aFlat
  | a
  | bFlat
  | b
  deriving DecidableEq, Repr, Inhabited

namespace Key

/-- Semitones above C. -/
def pitchClass : Key → Nat
  | .c => 0
  | .dFlat => 1
  | .d => 2
  | .eFlat => 3
  | .e => 4
  | .f => 5
  | .gFlat => 6
  | .g => 7
  | .aFlat => 8
  | .a => 9
  | .bFlat => 10
  | .b => 11

/-- The pitch class so many semitones above C, octaves left aside. -/
def ofPitchClass (semitones : Nat) : Key :=
  match semitones % 12 with
  | 0 => .c
  | 1 => .dFlat
  | 2 => .d
  | 3 => .eFlat
  | 4 => .e
  | 5 => .f
  | 6 => .gFlat
  | 7 => .g
  | 8 => .aFlat
  | 9 => .a
  | 10 => .bFlat
  | _ => .b

/-- The pitch class so many semitones higher. -/
def transpose (key : Key) (semitones : Nat) : Key :=
  ofPitchClass (key.pitchClass + semitones)

/-- The written name; black keys are flats. -/
def name : Key → String
  | .c => "C"
  | .dFlat => "Db"
  | .d => "D"
  | .eFlat => "Eb"
  | .e => "E"
  | .f => "F"
  | .gFlat => "Gb"
  | .g => "G"
  | .aFlat => "Ab"
  | .a => "A"
  | .bFlat => "Bb"
  | .b => "B"

/-- The white key of a letter in either case. -/
def natural? (letter : Char) : Option Key :=
  match letter.toUpper with
  | 'A' => some .a
  | 'B' => some .b
  | 'C' => some .c
  | 'D' => some .d
  | 'E' => some .e
  | 'F' => some .f
  | 'G' => some .g
  | _ => none

/-- Reads a name: a letter in either case, and at most one flat `b` or sharp `#`. -/
def parse? : List Char → Option Key
  | [letter] => natural? letter
  | [letter, 'b'] => (natural? letter).map (·.transpose 11)
  | [letter, '#'] => (natural? letter).map (·.transpose 1)
  | _ => none

@[simp] theorem parse?_name (key : Key) : parse? key.name.toList = some key := by
  cases key <;> decide

end Key

end MotionMidi
