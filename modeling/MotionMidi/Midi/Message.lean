/-!
# MIDI messages

The messages of the wire protocol that the instrument and its tests speak of, and their bytes.

## Main definitions

- `Midi.Message` — the messages, with data of the widths that the protocol gives them
- `Midi.noteOn`, `noteOff`, `controlChange`, `pitchBend` — messages from plain numbers, each
  brought into its range
- `Midi.Message.bytes` — the bytes on the wire: a status byte of at least `0x80`, then data bytes
  below it
- `Midi.Message.encode?` — the bytes of a message of three bytes
-/

namespace MotionMidi.Midi

/-- The index of a channel. -/
abbrev Channel := Fin 16

/-- Data of seven bits. -/
abbrev Data := Fin 128

/-- Data of fourteen bits. -/
abbrev WideData := Fin 16384

/-- The velocity of every note that is played. -/
def noteVelocity : Nat := 127

/-- The largest bend; `0x2000` is the middle. -/
def highestBend : Nat := 0x3fff

/-- A number, or the bound where it is larger. -/
def atMost (bound n : Nat) : Fin (bound + 1) :=
  ⟨min n bound, by omega⟩

/-- A message. -/
inductive Message where
  | noteOff (channel : Channel) (note velocity : Data)
  | noteOn (channel : Channel) (note velocity : Data)
  | notePressure (channel : Channel) (note pressure : Data)
  | controlChange (channel : Channel) (controller value : Data)
  | programChange (channel : Channel) (program : Data)
  | channelPressure (channel : Channel) (pressure : Data)
  | pitchBend (channel : Channel) (bend : WideData)
  | exclusive (data : List Data)
  | songPosition (beats : WideData)
  | timingClock
  deriving DecidableEq, Repr

/-- Starts a note. -/
def noteOn (channel note velocity : Nat) : Message :=
  .noteOn (atMost 15 channel) (atMost 127 note) (atMost 127 velocity)

/-- Releases a note, with no release velocity. -/
def noteOff (channel note : Nat) : Message :=
  .noteOff (atMost 15 channel) (atMost 127 note) 0

/-- Sets a controller. -/
def controlChange (channel controller value : Nat) : Message :=
  .controlChange (atMost 15 channel) (atMost 127 controller) (atMost 127 value)

/-- Bends the pitch. -/
def pitchBend (channel value : Nat) : Message :=
  .pitchBend (atMost 15 channel) (atMost highestBend value)

namespace Message

/-- The status byte of a channel message: its kind in the upper half, the channel in the lower. -/
def status (kind : Nat) (channel : Channel) : UInt8 :=
  UInt8.ofNat (16 * kind + channel.val)

/-- A data byte. -/
def dataByte (data : Data) : UInt8 :=
  UInt8.ofNat data.val

/-- Fourteen bits as two data bytes, the low seven bits first. -/
def wideBytes (data : WideData) : List UInt8 :=
  [UInt8.ofNat (data.val % 128), UInt8.ofNat (data.val / 128)]

/-- The bytes on the wire. -/
def bytes : Message → List UInt8
  | noteOff channel note velocity => [status 0x8 channel, dataByte note, dataByte velocity]
  | noteOn channel note velocity => [status 0x9 channel, dataByte note, dataByte velocity]
  | notePressure channel note pressure => [status 0xa channel, dataByte note, dataByte pressure]
  | controlChange channel controller value =>
    [status 0xb channel, dataByte controller, dataByte value]
  | programChange channel program => [status 0xc channel, dataByte program]
  | channelPressure channel pressure => [status 0xd channel, dataByte pressure]
  | pitchBend channel bend => status 0xe channel :: wideBytes bend
  | exclusive data => 0xf0 :: data.map dataByte ++ [0xf7]
  | songPosition beats => 0xf2 :: wideBytes beats
  | timingClock => [0xf8]

/-- The bytes of a message that has exactly three. -/
def encode? (message : Message) : Option (List UInt8) :=
  if message.bytes.length = 3 then some message.bytes else none

end Message

end MotionMidi.Midi
