import MotionMidi.Midi.Link
import MotionMidi.Performer.Basic

/-!
# Turning readings into messages

Pressing Z plays the note that the reading chooses, and releasing it stops the note. While C and Z
are both held the chosen note is played again whenever it has changed and enough time has passed.
All other mappings send their values whenever these change.

## Main definitions

- `Stage` — the performer and the link it plays on
- `Performer.tick` — sends what the latest reading calls for
- `Performer.silence` — releases every note

## Design notes

A message that cannot be sent ends the tick. What was sent until then is kept, so the rest is made
up for in the next tick; in particular a note counts as sounding until its release is sent.
-/

namespace MotionMidi

open Midi

/-- The performer and the link it plays on. -/
structure Stage (σ : Type) where
  performer : Performer
  link : σ
  deriving DecidableEq, Repr

/-- Actions on a stage, which end at the first message that cannot be sent. -/
abbrev Playing (σ α : Type) := EStateM LinkFailure (Stage σ) α

namespace Performer

/-- Releases a note on the channel it was started on. -/
def release (sounding : Sounding) : Message :=
  Midi.noteOff sounding.channel sounding.note

/-- The message for the value of a mapping. The note is not sent like this. -/
def message? (channel : Nat) (destination : Destination) (value : Nat) : Option Message :=
  match destination with
  | .controlChange controller => some (Midi.controlChange channel controller (min value 127))
  | .pitchBend => some (Midi.pitchBend channel (min value highestBend))
  | .note => none

/-- The chosen note is due to be played again. -/
def repeats (performer : Performer) (now : Nat) (sensor : Sensor) (note : Nat) : Bool :=
  sensor.held .c && sensor.held .z &&
    performer.lastNoteAt.all (fun start => performer.config.autoRepeat ≤ now - start) &&
    performer.sounding.map (·.note) != some note

/-- The note that has to be started, if any. -/
def noteToStart? (performer : Performer) (now : Nat) (sensor : Sensor) : Option Nat :=
  if performer.config.notesEnabled then
    match performer.config.mappedNote sensor.current with
    | .ok note =>
      if sensor.pressed .z || performer.repeats now sensor note then some note else none
    | .error _ => none
  else none

variable {σ : Type} [Link σ]

/-- Changes the performer. -/
def update (change : Performer → Performer) : Playing σ Unit :=
  modify fun stage => { stage with performer := change stage.performer }

/-- Sends a message. -/
def send (message : Message) : Playing σ Unit := fun stage =>
  match Link.send message stage.link with
  | .ok _ link => .ok () { stage with link }
  | .error failure link => .error failure { stage with link }

/-- Releases the note that sounds. -/
def releaseSounding : Playing σ Unit := do
  if let some sounding := (← get).performer.sounding then
    send (release sounding)
    update ({ · with sounding := none })

/-- Starts a note in place of the one that sounds. -/
def startNote (now note : Nat) : Playing σ Unit := do
  releaseSounding
  let channel := (← get).performer.config.channel
  send (Midi.noteOn channel note noteVelocity)
  update ({ · with sounding := some { channel, note }, lastNoteAt := some now })

/-- Sends the value of a mapping if it differs from the one that was sent last. -/
def sendValue (reading : Reading) (mapping : Mapping) (index : Nat) : Playing σ Unit := do
  let performer := (← get).performer
  let value := mapping.value reading
  if performer.lastValues[index]? ≠ some (some value) then
    if let some message := message? performer.config.channel mapping.destination value then
      send message
    update fun performer =>
      { performer with lastValues := performer.lastValues.set index (some value) }

/-- Sends what the latest reading calls for at a time in microseconds, and tells whether a note was
started. -/
def tick (now : Nat) (sensor : Sensor) : Playing σ Bool := do
  let note? := (← get).performer.noteToStart? now sensor
  if let some note := note? then startNote now note
  if !sensor.held .z then releaseSounding
  (← get).performer.config.mappings.zipIdx.forM fun (mapping, index) =>
    sendValue sensor.current mapping index
  return note?.isSome

/-- The notes that may have been left sounding. -/
def silencedNotes : List Nat :=
  List.range' 1 119

/-- Releases every note on the active channel. -/
def silence : Playing σ Unit := do
  let channel := (← get).performer.config.channel
  silencedNotes.forM fun note => send (Midi.noteOff channel note)
  update ({ · with sounding := none })

end Performer

end MotionMidi
