import MotionMidi.Performer.Console
import MotionMidi.Proofs.Config.WellFormed
import MotionMidi.Proofs.Performer.Cues

/-!
# The active configuration

Whatever is saved and whatever is typed, the active configuration is one that was read from a text,
and the note that sounds is left alone.

## Main definitions

- `Saved.Writable` — a saved configuration can be written
- `Performer.Settled` — the active configuration can be written, and a given note sounds
- `Stage.Runs` — a given configuration is active

Main statements: `Performer.settled_boot`, `Performer.settled_reconfigure`,
`Performer.settled_receiveLine`, `Performer.runs_tick`.
-/

namespace MotionMidi

open Flash

theorem Config.isOk_parse_factoryText : (parse factoryText).isOk := by
  decide +kernel

theorem Config.accepted_factory : Config.factory.Accepted := by
  have hread := isOk_parse_factoryText
  have haccepted : ∀ parsed, parse factoryText = .ok parsed → parsed.config.Accepted :=
    fun parsed h => ⟨factoryText, parsed, h, rfl⟩
  rw [Config.factory]
  -- The text is long: it must not be read here.
  generalize parse factoryText = result at hread haccepted ⊢
  cases result with
  | ok parsed => exact haccepted parsed rfl
  | error error => cases hread

theorem Config.writable_factory : Config.factory.Writable :=
  accepted_factory.writable

/-- If there is a configuration, it was read from a text. -/
def Saved.Accepted : Saved → Prop
  | .usable parsed => parsed.config.Accepted
  | _ => True

/-- If there is a configuration, it can be written. -/
def Saved.Writable : Saved → Prop
  | .usable parsed => parsed.config.Writable
  | _ => True

/-- The active configuration can be written, and a given note sounds. -/
structure Performer.Settled (sounding : Option Sounding) (performer : Performer) : Prop where
  writable : performer.config.Writable
  sounding : performer.sounding = sounding

variable {σ : Type} [Medium σ]

theorem Saved.accepted_lookup : Returns Accepted (lookup : StateM σ Saved) := by
  refine (Returns.trivial _).bind fun valid _ => ?_
  split
  case isTrue =>
    refine (Returns.trivial _).bind fun result _ => ?_
    split
    case h_1 => exact .pure trivial
    case h_2 text =>
      split
      case h_1 parsed hparse => exact .pure ⟨text, parsed, hparse, rfl⟩
      case h_2 => exact .pure trivial
  case isFalse => exact .pure trivial

theorem Saved.Accepted.writable {saved : Saved} (h : saved.Accepted) : saved.Writable := by
  cases saved with
  | usable parsed => exact Config.Accepted.writable h
  | nothing => trivial
  | unusable => trivial

theorem Saved.writable_lookup : Returns Writable (lookup : StateM σ Saved) :=
  fun m => (accepted_lookup m).writable

namespace Performer

theorem Settled.adopt (performer : Performer) {config : Config} (h : config.Writable) :
    Settled performer.sounding (performer.adopt config) :=
  ⟨h, rfl⟩

theorem Settled.raiseFault {sounding : Option Sounding} {performer : Performer}
    (h : performer.Settled sounding) : performer.raiseFault.Settled sounding :=
  ⟨h.writable, h.sounding⟩

theorem settled_boot : Returns (Settled none) (boot : StateM σ Performer) := by
  refine Saved.writable_lookup.bind fun saved hsaved => ?_
  split
  case h_1 => exact .pure ⟨Config.writable_factory, rfl⟩
  case h_2 => exact .pure ⟨Config.writable_factory, rfl⟩
  case h_3 config warning => exact .pure ⟨hsaved, rfl⟩

theorem settled_reconfigure (performer : Performer) (text : String) :
    Returns (Settled performer.sounding ·.performer)
      (performer.reconfigure text : StateM σ Reply) := by
  unfold reconfigure
  split
  case h_1 config warning hparse =>
    have hwritable : config.Writable := Config.writable_of_parse hparse
    refine (Returns.trivial _).bind fun result _ => ?_
    split
    · exact .pure ⟨hwritable, rfl⟩
    · exact .pure ⟨hwritable, rfl⟩
  case h_2 error hparse =>
    refine Saved.writable_lookup.bind fun saved hsaved => ?_
    split
    case h_1 config warning => exact .pure (Settled.adopt performer hsaved).raiseFault
    case h_2 => exact .pure (Settled.adopt performer Config.writable_factory).raiseFault

theorem settled_receiveLine {performer : Performer} (h : performer.config.Writable)
    (line : String) :
    Returns (Settled performer.sounding ·.performer)
      (performer.receiveLine line : StateM σ Reply) := by
  unfold receiveLine
  split
  · exact (Returns.trivial _).bind fun _ _ => .pure ⟨h, rfl⟩
  split
  · exact (Returns.trivial _).bind fun _ _ => .pure ⟨h, rfl⟩
  unfold collect
  dsimp only
  split
  · exact .pure ⟨h, rfl⟩
  split
  · exact settled_reconfigure { performer with pending := "" } _
  split
  · exact .pure ⟨h, rfl⟩
  · exact .pure ⟨h, rfl⟩

end Performer

/-! ## Playing -/

variable {κ : Type} {config : Config}

/-- A given configuration is active. -/
def Stage.Runs (config : Config) (stage : Stage κ) : Prop :=
  stage.performer.config = config

namespace Performer

variable [Midi.Link κ]

theorem runs_effect (cue : Cue) (performer : Performer) (h : performer.config = config) :
    (cue.effect performer).config = config := by
  rw [← h]
  cases cue <;> rfl

theorem runs_tick (now : Nat) (sensor : Sensor) :
    Keeps (Stage.Runs config) (tick now sensor : Playing κ Bool) :=
  keeps_tick runs_effect now sensor

theorem runs_silence :
    Keeps (Stage.Runs config) (silence : Playing κ Unit) :=
  keeps_silence runs_effect

end Performer

end MotionMidi
