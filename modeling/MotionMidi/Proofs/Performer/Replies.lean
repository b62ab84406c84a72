import Mathlib.Tactic.Tauto
import MotionMidi.Proofs.Performer.Settings
import MotionMidi.Proofs.Session

/-!
# What becomes of the performer

What each event leaves of the performer: a text that is handed over, a line that is not the last one
of a text, and a tick.

## Main definitions

- `Saved.config` — the configuration that is active after power is switched on
- `Performer.Overflows` — a line makes the text that is collected too long
- `Performer.answerTo` — what a command has shown

Main statements: `Performer.performer_of_parsed`, `Performer.performer_of_rejected`,
`Performer.receiveLine_of_completed`, `Performer.receiveLine_of_not_completed`.
-/

namespace MotionMidi

open Flash SaveSlot

variable {σ : Type} [Medium σ]

/-- The configuration that is active after power is switched on. -/
def Saved.config : Saved → Config
  | .usable parsed => parsed.config
  | _ => Config.factory

namespace Performer

theorem boot_config (m : σ) : (boot m).1.config = (Saved.lookup m).1.config := by
  rw [boot, bind_run]
  generalize Saved.lookup m = found
  obtain ⟨saved, m'⟩ := found
  cases saved <;> rfl

/-! ## Texts -/

/-- A text that can be understood is adopted. The fault flag then tells whether it needed a warning
or could not be saved. -/
theorem performer_of_parsed {text : String} {parsed : Config.Parsed}
    (h : Config.parse text = .ok parsed) (performer : Performer) (m : σ) :
    (performer.reconfigure text m).1.performer =
      { performer.adopt parsed.config with
        fault := parsed.warning.isSome || !(attempt (write text) m).1.isOk } := by
  unfold reconfigure
  rw [h]
  dsimp only
  rw [bind_run]
  generalize attempt (write text) m = written
  obtain ⟨result, m'⟩ := written
  cases result with
  | ok a =>
    simp only [Except.isOk, Except.toBool, Bool.not_true, Bool.or_false]
    rfl
  | error error =>
    simp only [Except.isOk, Except.toBool, Bool.not_false, Bool.or_true]
    rfl

/-- After a text that cannot be understood, the configuration is the one of a fresh start. -/
theorem performer_of_rejected {text : String} {error : Error}
    (h : Config.parse text = .error error) (performer : Performer) (m : σ) :
    (performer.reconfigure text m).1.performer =
      (performer.adopt (Saved.lookup m).1.config).raiseFault := by
  unfold reconfigure
  rw [h]
  dsimp only
  rw [bind_run]
  generalize Saved.lookup m = found
  obtain ⟨saved, m'⟩ := found
  cases saved <;> rfl

@[simp] theorem pending_reconfigure (performer : Performer) (text : String) (m : σ) :
    (performer.reconfigure text m).1.performer.pending = performer.pending := by
  cases hparse : Config.parse text with
  | ok parsed =>
    rw [performer_of_parsed hparse]
    rfl
  | error error =>
    rw [performer_of_rejected hparse]
    rfl

/-! ## Lines -/

/-- A line makes the text that is collected too long, be it by its own bytes or by the line end that
is added to all but the last line. A line that is taken for a command is not collected. -/
def Overflows (performer : Performer) (line : String) : Prop :=
  ¬(performer.pending = "" ∧ (startsWith dumpCommand line ∨ startsWith hexdumpCommand line)) ∧
    (longestPending < (performer.pending ++ line).utf8ByteSize ∨
      endsConfig line = false ∧
        longestPending < (performer.pending ++ line ++ "\n").utf8ByteSize)

variable {performer : Performer} {line text : String}

/-- What a command has shown. -/
def answerTo (line : String) : StateM σ (List String) :=
  if startsWith dumpCommand line then dumpSaved else Hexdump.dump

/-- A command is answered, and the line is not collected. -/
theorem receiveLine_of_command (hempty : performer.pending = "")
    (h : startsWith dumpCommand line ∨ startsWith hexdumpCommand line) :
    (performer.receiveLine line : StateM σ Reply) =
      (answerTo line >>= fun shown => pure { performer, shown }) := by
  have hisEmpty : performer.pending.isEmpty = true := String.isEmpty_iff.mpr hempty
  rw [receiveLine, hisEmpty, Bool.true_and, Bool.true_and, answerTo]
  by_cases hdump : startsWith dumpCommand line = true
  · rw [if_pos hdump, if_pos hdump]
  · rw [if_neg hdump, if_neg hdump, if_pos (h.resolve_left hdump)]

/-- A line that is neither of the commands is collected. -/
theorem receiveLine_eq_collect
    (h : ¬(performer.pending.isEmpty &&
      (startsWith dumpCommand line || startsWith hexdumpCommand line)) = true) :
    (performer.receiveLine line : StateM σ Reply) = performer.collect line := by
  rw [Bool.and_eq_true, Bool.or_eq_true, not_and_or, not_or] at h
  have hdump : ¬(performer.pending.isEmpty && startsWith dumpCommand line) = true := by
    rw [Bool.and_eq_true]
    tauto
  have hhexdump : ¬(performer.pending.isEmpty && startsWith hexdumpCommand line) = true := by
    rw [Bool.and_eq_true]
    tauto
  rw [receiveLine, if_neg hdump, if_neg hhexdump]

/-- A line that completes a text is collected, ends a configuration and fits. -/
theorem of_completed (h : performer.completed? line = some text) :
    ¬(performer.pending.isEmpty &&
        (startsWith dumpCommand line || startsWith hexdumpCommand line)) = true ∧
      ¬longestPending < (performer.pending ++ line).utf8ByteSize ∧ endsConfig line = true ∧
      performer.pending ++ line = text := by
  unfold completed? at h
  dsimp only at h
  split at h
  case isTrue => cases h
  case isFalse hcommand =>
    split at h
    case isTrue => cases h
    case isFalse hlength =>
      split at h
      case isFalse => cases h
      case isTrue hends => exact ⟨hcommand, hlength, hends, Option.some.inj h⟩

/-- A line that completes a text hands it over. -/
theorem receiveLine_of_completed (h : performer.completed? line = some text) :
    (performer.receiveLine line : StateM σ Reply) =
      ({ performer with pending := "" } : Performer).reconfigure text := by
  obtain ⟨hcommand, hlength, hends, rfl⟩ := of_completed h
  rw [receiveLine_eq_collect hcommand, collect, if_neg hlength, if_pos hends]

/-- A line that completes no text is a command, or it is dropped with the text that it made too
long, or it is kept for later. -/
theorem receiveLine_of_not_completed (h : performer.completed? line = none) :
    (¬performer.Overflows line ∧ (performer.receiveLine line : StateM σ Reply) =
        (answerTo line >>= fun shown => pure { performer, shown })) ∨
      (performer.Overflows line ∧ (performer.receiveLine line : StateM σ Reply) =
        pure { performer := performer.discardPending }) ∨
      (¬performer.Overflows line ∧ (performer.receiveLine line : StateM σ Reply) =
        pure { performer := { performer with pending := performer.pending ++ line ++ "\n" } }) := by
  by_cases hcommand : (performer.pending.isEmpty &&
      (startsWith dumpCommand line || startsWith hexdumpCommand line)) = true
  case pos =>
    left
    rw [Bool.and_eq_true, Bool.or_eq_true, String.isEmpty_iff] at hcommand
    exact ⟨fun hover => hover.1 hcommand, receiveLine_of_command hcommand.1 hcommand.2⟩
  case neg =>
    right
    unfold completed? at h
    dsimp only at h
    have hplain : ¬(performer.pending = "" ∧
        (startsWith dumpCommand line ∨ startsWith hexdumpCommand line)) := by
      rwa [Bool.and_eq_true, Bool.or_eq_true, String.isEmpty_iff] at hcommand
    rw [if_neg hcommand] at h
    rw [receiveLine_eq_collect hcommand, collect]
    split at h
    case isTrue hlength => exact .inl ⟨⟨hplain, .inl hlength⟩, if_pos hlength⟩
    case isFalse hlength =>
      split at h
      case isTrue hends => cases h
      case isFalse hends =>
        rw [if_neg hlength, if_neg hends]
        by_cases hlonger : longestPending < (performer.pending ++ line ++ "\n").utf8ByteSize
        case pos =>
          exact .inl ⟨⟨hplain, .inr ⟨Bool.eq_false_iff.mpr hends, hlonger⟩⟩, if_pos hlonger⟩
        case neg =>
          refine .inr ⟨?_, if_neg hlonger⟩
          rintro ⟨-, hfirst | ⟨-, hsecond⟩⟩
          · exact hlength hfirst
          · exact hlonger hsecond

theorem performer_of_not_completed (h : performer.completed? line = none) (m : σ) :
    (performer.Overflows line ∧
        (performer.receiveLine line m).1.performer = performer.discardPending) ∨
      ¬performer.Overflows line ∧
        ∃ pending, (performer.receiveLine line m).1.performer = { performer with pending } := by
  rcases receiveLine_of_not_completed (σ := σ) h with
    ⟨hroom, hreceive⟩ | ⟨hover, hreceive⟩ | ⟨hroom, hreceive⟩
  · rw [hreceive]
    exact .inr ⟨hroom, performer.pending, rfl⟩
  · rw [hreceive]
    exact .inl ⟨hover, rfl⟩
  · rw [hreceive]
    exact .inr ⟨hroom, _, rfl⟩

end Performer

/-! ## Sessions -/

namespace Session

open Performer Midi

variable {μ κ α : Type} {session : Session μ κ}

theorem stage_play {P : Stage (Tapped κ) → Prop} {action : Playing (Tapped κ) α}
    (h : Keeps P action) (hstart : P session.stage) : P (session.play action).2.stage := by
  rw [play]
  cases hrun : action session.stage with
  | ok a stage => exact h.of_ok hstart hrun
  | error failure stage => exact h.of_error hstart hrun

theorem performer_play {P : Performer → Prop} {action : Playing (Tapped κ) α}
    (h : Keeps (P ·.performer) action) (hstart : P session.performer) :
    P (session.play action).2.performer :=
  stage_play h hstart

variable [Medium μ] [Link κ] {event : Event} {text : String}

/-- An event that hands a text over has the performer reconfigured. -/
theorem handle_of_handed (h : session.handed? event = some text) :
    ∃ performer : Performer,
      (session.handle event).2.medium = (performer.reconfigure text session.medium).2 ∧
        (session.handle event).2.performer =
          (performer.reconfigure text session.medium).1.performer := by
  cases event with
  | line line =>
    refine ⟨{ session.performer with pending := "" }, ?_⟩
    rw [← receiveLine_of_completed h]
    exact ⟨rfl, rfl⟩
  | reconfigure text' =>
    cases h
    exact ⟨session.performer, rfl, rfl⟩
  | sense reading => cases h
  | tick now => cases h
  | raiseFault => cases h
  | silence => cases h

/-- An event that hands no text over leaves the configuration alone. -/
theorem config_of_not_handed (h : session.handed? event = none) :
    (session.handle event).2.performer.config = session.performer.config := by
  let P (performer : Performer) : Prop := performer.config = session.performer.config
  cases event with
  | sense reading => rfl
  | tick now => exact performer_play (P := P) (runs_tick now session.sensor) rfl
  | line line =>
    change (session.performer.receiveLine line session.medium).1.performer.config = _
    rcases performer_of_not_completed h session.medium with ⟨-, hline⟩ | ⟨-, pending, hline⟩
    · rw [hline]
      rfl
    · rw [hline]
  | reconfigure text => cases h
  | raiseFault => rfl
  | silence => exact performer_play (P := P) runs_silence rfl

end Session

end MotionMidi
