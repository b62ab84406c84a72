import MotionMidi.Performer.Boot
import MotionMidi.Performer.Hexdump

/-!
# The console

Lines are collected until one contains `END.`; the text they make is then the new configuration.
Where nothing is collected yet, a line that starts with `dump` shows the saved text, and one that
starts with `hdmp` shows the start of the medium.

## Main definitions

- `Outcome` — how a reconfiguration ends
- `Reply` — the performer after a line, and what is shown on the console
- `Performer.reconfigure` — adopts and saves a text, or falls back to what is saved
- `Performer.receiveLine`, `Performer.receiveLines` — takes a line, or several
-/

namespace MotionMidi

open Flash

/-- How a reconfiguration ends. -/
inductive Outcome where
  /-- The new configuration is active. -/
  | updated
  /-- The new text was rejected, and the saved configuration is active. -/
  | revertedToSaved
  /-- The new text was rejected, nothing usable is saved, and the factory configuration is
  active. -/
  | revertedToFactory
  deriving DecidableEq, Repr

/-- What comes of a line. -/
structure Reply where
  performer : Performer
  /-- How the reconfiguration ended, if the line led to one. -/
  outcome : Option Outcome := none
  /-- What is shown on the console, piece by piece. -/
  shown : List String := []
  deriving DecidableEq, Repr

/-- The text on the console: every piece ends with a line end. -/
def Reply.text (reply : Reply) : String :=
  String.join (reply.shown.map (· ++ "\n"))

/-- The wording of an error in a text, with the word at fault. -/
def Error.diagnosis (error : Error) (text : String) : String :=
  match error.position? with
  | none => error.message
  | some position =>
    match Token.starting? text.toList position with
    | some token => error.message ++ " ('" ++ token.text ++ "')"
    | none => error.message ++ " (end of text)"

/-- The line that shows the saved text. -/
def dumpCommand : String := "dump"

/-- The line that shows the start of the medium. -/
def hexdumpCommand : String := "hdmp"

/-- What the last line of a configuration contains. -/
def terminator : String := "END."

/-- The longest text that is collected, in bytes. -/
def longestPending : Nat := SaveSlot.longestText

/-- A line starts with the characters of a word. -/
def startsWith (word line : String) : Bool :=
  word.toList.isPrefixOf line.toList

/-- Some characters occur next to each other in others. -/
def occursIn (word : List Char) : List Char → Bool
  | [] => word.isEmpty
  | c :: text => word.isPrefixOf (c :: text) || occursIn word text

/-- A line ends a configuration. -/
def endsConfig (line : String) : Bool :=
  occursIn terminator.toList line.toList

namespace Performer

variable {σ : Type} [Medium σ]

/-- Adopts the configuration that a text describes, and saves the text. A rejected text makes the
saved configuration active again, or the factory configuration if there is none. The fault flag is
lowered only by a text that needs no warning and could be saved. -/
def reconfigure (performer : Performer) (text : String) : StateM σ Reply := do
  match Config.parse text with
  | .ok { config, warning } =>
    let adopted := performer.adopt config
    let warned := warning.toList.map fun warning => "Warning: " ++ warning.diagnosis text
    match ← SaveSlot.attempt (SaveSlot.write text) with
    | .ok () =>
      return {
        performer := { adopted with fault := warning.isSome }
        outcome := some .updated
        shown := warned ++ ["Updated config"] }
    | .error error =>
      return {
        performer := { adopted with fault := true }
        outcome := some .updated
        shown := warned ++ ["Unable to save config: " ++ error.message, "Updated config"] }
  | .error error =>
    let rejected := "Error: " ++ error.diagnosis text
    match ← Saved.lookup with
    | .usable { config, .. } =>
      return {
        performer := (performer.adopt config).raiseFault
        outcome := some .revertedToSaved
        shown := [rejected, "Reverting to saved config"] }
    | _ =>
      return {
        performer := (performer.adopt Config.factory).raiseFault
        outcome := some .revertedToFactory
        shown := [rejected, "Reverting to default config"] }

/-- Shows the saved text. -/
def dumpSaved : StateM σ (List String) := do
  match ← SaveSlot.attempt SaveSlot.read with
  | .ok text => return ["Saved config:\n" ++ text ++ "\n---"]
  | .error _ => return ["No config saved"]

/-- Drops the text that was collected. -/
def discardPending (performer : Performer) : Performer :=
  { performer with pending := "", fault := true }

/-- Adds a line to the text that is collected. A line that ends a configuration has it adopted.
Text that grows too long is dropped, this line included. -/
def collect (performer : Performer) (line : String) : StateM σ Reply := do
  let text := performer.pending ++ line
  if longestPending < text.utf8ByteSize then return { performer := performer.discardPending }
  else if endsConfig line then ({ performer with pending := "" } : Performer).reconfigure text
  else if longestPending < (text ++ "\n").utf8ByteSize then
    return { performer := performer.discardPending }
  else return { performer := { performer with pending := text ++ "\n" } }

/-- Takes a line from the console. -/
def receiveLine (performer : Performer) (line : String) : StateM σ Reply := do
  if performer.pending.isEmpty && startsWith dumpCommand line then
    return { performer, shown := ← dumpSaved }
  else if performer.pending.isEmpty && startsWith hexdumpCommand line then
    return { performer, shown := ← Hexdump.dump }
  else performer.collect line

/-- Takes lines from the console, and tells the reply to each. -/
def receiveLines (performer : Performer) : List String → StateM σ (Performer × List Reply)
  | [] => return (performer, [])
  | line :: lines => do
    let reply ← performer.receiveLine line
    let (performer, replies) ← reply.performer.receiveLines lines
    return (performer, reply :: replies)

end Performer

end MotionMidi
