import MotionMidi.Midi.Message

/-!
# MIDI links

## Main definitions

- `Midi.Link` — something that transmits messages, and may fail to
- `Midi.Recorder` — a link that keeps what was sent, and can be made to fail
-/

namespace MotionMidi.Midi

/-- A message could not be transmitted. -/
inductive LinkFailure where
  | notTransmitted
  deriving DecidableEq, Repr

/-- A link with states in `σ`. -/
class Link (σ : Type) where
  /-- Transmits a message. -/
  send (message : Message) : EStateM LinkFailure σ Unit

/-- A link that keeps what was sent. -/
structure Recorder where
  /-- The messages that were sent, the latest one first. -/
  sent : List Message := []
  /-- How many messages are let through before all fail, if some will. -/
  left : Option Nat := none
  deriving DecidableEq, Repr, Inhabited

namespace Recorder

/-- Sends a message, unless messages are made to fail. -/
def send (message : Message) : EStateM LinkFailure Recorder Unit := do
  let recorder ← get
  match recorder.left with
  | none => set { recorder with sent := message :: recorder.sent }
  | some 0 => throw .notTransmitted
  | some (left + 1) => set { sent := message :: recorder.sent, left := some left : Recorder }

instance : Link Recorder where
  send := send

end Recorder

end MotionMidi.Midi
