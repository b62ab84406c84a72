import MotionMidi.Binary32.Basic
import MotionMidi.Binary32.Decimal
import MotionMidi.Config.Basic
import MotionMidi.Config.Command
import MotionMidi.Config.Meaning
import MotionMidi.Config.Reader
import MotionMidi.Config.Text
import MotionMidi.Config.Token
import MotionMidi.Decimal.Fraction
import MotionMidi.Decimal.Numeral
import MotionMidi.Error
import MotionMidi.Flash.Header
import MotionMidi.Flash.Medium
import MotionMidi.Flash.Monitor
import MotionMidi.Flash.Region
import MotionMidi.Flash.SaveSlot
import MotionMidi.Handset.Bus
import MotionMidi.Handset.Calibration
import MotionMidi.Handset.Report
import MotionMidi.Handset.Scripted
import MotionMidi.Mapping.Basic
import MotionMidi.Mapping.Input
import MotionMidi.Mapping.Remap
import MotionMidi.Midi.Link
import MotionMidi.Midi.Message
import MotionMidi.Performer.Basic
import MotionMidi.Performer.Boot
import MotionMidi.Performer.Console
import MotionMidi.Performer.Hexdump
import MotionMidi.Performer.Tick
import MotionMidi.Pitch.Key
import MotionMidi.Pitch.NoteTable
import MotionMidi.Power
import MotionMidi.Sensor
import MotionMidi.Serial.LineReader
import MotionMidi.Utf8
import MotionMidi.Proofs.Effect
import MotionMidi.Proofs.Flash.Reading
import MotionMidi.Proofs.Flash.Monitoring
import MotionMidi.Proofs.Flash.Writing
import MotionMidi.Proofs.Flash.CrashSafety
import MotionMidi.Proofs.Binary32.Text
import MotionMidi.Proofs.Config.Spellings
import MotionMidi.Proofs.Config.Sentences
import MotionMidi.Proofs.Config.Words
import MotionMidi.Proofs.Config.Accepted
import MotionMidi.Proofs.Config.Progress
import MotionMidi.Proofs.Config.WellFormed
import MotionMidi.Proofs.Config.RoundTrip
import MotionMidi.Proofs.Performer.Cues
import MotionMidi.Proofs.Performer.Settings
import MotionMidi.Proofs.Session
import MotionMidi.Proofs.Performer.Attempts
import MotionMidi.Proofs.Performer.Deliveries
import MotionMidi.Proofs.Performer.Replies
import MotionMidi.Proofs.Midi.Stream
import MotionMidi.Proofs.Performer.Notes
import MotionMidi.Proofs.Performer.Storage
import MotionMidi.Proofs.Performer.PowerCycle
import MotionMidi.Proofs.Flash.Recognition
import MotionMidi.Proofs.Flash.Healthy
import MotionMidi.Proofs.Config.Acceptance
import MotionMidi.Proofs.Config.Layout
import MotionMidi.Proofs.Config.Lines
import MotionMidi.Proofs.Performer.Transmission
import MotionMidi.Proofs.Performer.FaultFlag
import MotionMidi.Proofs.Performer.ActiveConfig
import MotionMidi.Proofs.Performer.Values
import MotionMidi.Proofs.Performer.Intent
import MotionMidi.Proofs.Performer.Presses
import MotionMidi.Proofs.Performer.Silence
import MotionMidi.Proofs.Flash.Failures
import MotionMidi.Proofs.Performer.StorageFaults
import MotionMidi.Proofs.Serial.Delivery
import MotionMidi.Proofs.Serial.LineBuffer
import MotionMidi.Proofs.Config.Order
import MotionMidi.Proofs.Config.Places
import MotionMidi.Proofs.Config.Mending
import MotionMidi.Proofs.Config.Clamping
import MotionMidi.Proofs.Config.Building
import MotionMidi.Proofs.Config.Slices
import MotionMidi.Proofs.Config.Cursor
import MotionMidi.Proofs.Config.Scanning
import MotionMidi.Proofs.Config.Diagnostics
import MotionMidi.Proofs.Config.Spacing
import MotionMidi.Proofs.Config.Comments
import MotionMidi.Proofs.Performer.NoteStarts
import MotionMidi.Proofs.Performer.LineGroups
import MotionMidi.Proofs.Pitch.Quantizing
import MotionMidi.Proofs.Pitch.Scale
import MotionMidi.Proofs.Binary32.Rounding
import MotionMidi.Proofs.Binary32.Arithmetic
import MotionMidi.Proofs.Mapping.Remap
import MotionMidi.Proofs.Handset.Readings
import MotionMidi.Proofs.Handset.Sampling
import MotionMidi.Proofs.Mapping.Coverage
import MotionMidi.Proofs.Config.PlayableNotes
import MotionMidi.Proofs.Performer.DumpedRows
import MotionMidi.Proofs.Performer.Hexdump
import MotionMidi.Proofs.Pitch.Searching
import MotionMidi.Proofs.Performer.NoteMode
import MotionMidi.Proofs.Handset.Bits
