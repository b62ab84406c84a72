import MotionMidi.Config.Token
import MotionMidi.Mapping.Basic
import MotionMidi.Pitch.Key

/-!
# Commands

A configuration text is a list of commands. Only the first letter of a command word matters.

| Command | Arguments | Meaning |
|---|---|---|
| `CHAN` | integer | the MIDI channel |
| `ROOT` | key | the root of the scale |
| `SCALE` | integers | the intervals of the scale, as far as words start with a digit |
| `OCTAVES` | integer, integer | the first and the last octave |
| `BPM` | integer | the tempo |
| `DIV` | number | the part of a beat between repeated notes |
| `MAP` | input, window, destination | one mapping; the window may be left out |
| `END` | | nothing |

## Main definitions

- `Literal` — an integer argument as it was written, with its place and the field it is meant for
- `Literal.clamped` — the nearest value that the field admits
- `Declaration` — the arguments of `MAP`
- `Command` — a command with its arguments
- `Command.literals` — the integer arguments of a command, in the order they were written
-/

namespace MotionMidi

/-- The kinds of integer arguments, by the range they admit. -/
inductive Field where
  | channel
  | interval
  | octave
  | tempo
  | output
  | controller
  deriving DecidableEq, Repr

namespace Field

/-- The smallest value of a field. -/
def lowest : Field → Nat
  | .tempo => 1
  | _ => 0

/-- The largest value of a field. -/
def highest : Field → Nat
  | .channel => 15
  | .interval => 255
  | .octave => 255
  | .tempo => 65535
  | .output => 65535
  | .controller => 127

end Field

/-- An integer argument as it was written. -/
structure Literal where
  field : Field
  /-- The byte offset of the word. -/
  position : Nat
  value : Int
  deriving DecidableEq, Repr

namespace Literal

/-- The value lies in the range of its field. -/
def InRange (literal : Literal) : Prop :=
  (literal.field.lowest : Int) ≤ literal.value ∧ literal.value ≤ literal.field.highest

instance (literal : Literal) : Decidable literal.InRange :=
  inferInstanceAs (Decidable (_ ∧ _))

/-- The value of the field nearest to the one that was written. -/
def clamped (literal : Literal) : Nat :=
  max literal.field.lowest (min literal.value.toNat literal.field.highest)

end Literal

/-- The domain and the output range of a mapping. -/
structure Window where
  fromLo : Binary32
  fromHi : Binary32
  toLo : Literal
  toHi : Literal
  deriving DecidableEq, Repr

/-- The output range of a window is not reversed, once its bounds are brought into range. -/
def Window.Ordered (window : Window) : Prop :=
  window.toLo.clamped ≤ window.toHi.clamped

instance (window : Window) : Decidable window.Ordered :=
  inferInstanceAs (Decidable (_ ≤ _))

/-- A destination as it was written. -/
inductive Target where
  | controlChange (controller : Literal)
  | pitchBend
  | note
  deriving DecidableEq, Repr

/-- The destination that is meant. -/
def Target.destination : Target → Destination
  | .controlChange controller => .controlChange controller.clamped
  | .pitchBend => .pitchBend
  | .note => .note

/-- The arguments of `MAP`. -/
structure Declaration where
  input : Input
  window : Option Window
  target : Target
  ordered : ∀ w ∈ window, w.Ordered
  deriving DecidableEq, Repr

/-- A command with its arguments. -/
inductive Command where
  | channel (index : Literal)
  | root (key : Key)
  | scale (intervals : List Literal)
  | octaves (first last : Literal)
  | tempo (bpm : Literal)
  | division (beats : Binary32)
  | map (declaration : Declaration)
  | finish
  deriving DecidableEq, Repr

namespace Command

/-- The mapping that a command declares. -/
def declaration? : Command → Option Declaration
  | .map declaration => some declaration
  | _ => none

/-- The integer arguments, in the order they were written. -/
def literals : Command → List Literal
  | .channel index => [index]
  | .scale intervals => intervals
  | .octaves first last => [first, last]
  | .tempo bpm => [bpm]
  | .map { window, target, .. } =>
    (match window with
      | some window => [window.toLo, window.toHi]
      | none => []) ++
    match target with
      | .controlChange controller => [controller]
      | _ => []
  | _ => []

end Command

end MotionMidi
