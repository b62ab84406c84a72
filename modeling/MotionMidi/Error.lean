/-!
# Errors

What can go wrong while reading, evaluating or storing a configuration.

## Main definitions

- `Error` — the causes
- `Error.message` — the wording shown to the performer
- `Error.position?` — where in the text the cause lies
-/

namespace MotionMidi

/-- The causes of failure. Positions are byte offsets into the configuration text. -/
inductive Error where
  /-- A word could not be understood, or the text ended where one was expected. -/
  | malformedToken (position : Nat)
  /-- An integer lies outside the range of its field. Reading goes on with the nearest bound. -/
  | outOfRange (position : Nat)
  /-- There are more mappings than a configuration holds. -/
  | tooManyMappings
  /-- A scale has more intervals than a configuration holds. -/
  | tooManyScaleNotes
  /-- A note is asked for, but no mapping plays notes or the scale has none. -/
  | noteModeUnavailable
  /-- The text does not fit the save slot. -/
  | slotTooSmall
  /-- The save slot holds no complete record that makes sense. -/
  | noValidRecord
  /-- The pages and sectors of the medium cannot hold a record. -/
  | unsupportedGeometry
  /-- The medium reported a failure. -/
  | mediumFailure
  deriving DecidableEq, Repr

namespace Error

/-- The wording of an error. -/
def message : Error → String
  | .malformedToken position => s!"malformed token at char {position}"
  | .outOfRange position => s!"integer out of range at char {position}"
  | .tooManyMappings => "too many mappings"
  | .tooManyScaleNotes => "too many scale notes"
  | .noteModeUnavailable => "note mode unavailable"
  | .slotTooSmall => "configuration too large for the save slot"
  | .noValidRecord => "no valid configuration saved"
  | .unsupportedGeometry => "unsupported storage geometry"
  | .mediumFailure => "storage medium failure"

/-- The byte offset of the word at fault, for errors that have one. -/
def position? : Error → Option Nat
  | .malformedToken position => some position
  | .outOfRange position => some position
  | _ => none

end Error

end MotionMidi
