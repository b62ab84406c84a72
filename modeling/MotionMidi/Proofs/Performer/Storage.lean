import MotionMidi.Proofs.Flash.Browsing
import MotionMidi.Proofs.Performer.Replies

/-!
# The performer and its save slot

A text that can be understood is written, and everything else merely reads.

Main statements: `Performer.reconfigure_of_parsed`, `Performer.reconfigure_of_rejected`,
`Performer.browses_of_not_completed`.
-/

namespace MotionMidi

open Flash SaveSlot

variable {σ : Type} [Medium σ]

namespace Saved

theorem follows_lookup : Follows (lookup : StateM (Monitored σ) Saved) lookup := by
  refine .bind follows_isValid fun valid => ?_
  split
  case isFalse => exact .pure _
  refine .bind mirrors_read.attempt fun result => ?_
  split
  case h_1 => exact .pure _
  case h_2 text =>
    split
    case h_1 => exact .pure _
    case h_2 => exact .pure _

theorem steps_lookup : Steps Browses (lookup : StateM (Monitored Region) Saved) := by
  refine .bind .trans steps_isValid fun valid => ?_
  split
  case isFalse => exact .pure .refl _
  refine .bind .trans (steps_attempt fun _ => keeps_read) fun result => ?_
  split
  case h_1 => exact .pure .refl _
  case h_2 text =>
    split
    case h_1 => exact .pure .refl _
    case h_2 => exact .pure .refl _

/-- A text that was saved is found again. -/
theorem lookup_of_holds {text : String} {region : Region} (h : Holds text region.bytes)
    {parsed : Config.Parsed} (hparse : Config.parse text = .ok parsed) :
    lookup region = (.usable parsed, region) := by
  rw [lookup, bind_run, isValid_of_holds h]
  simp only [if_true]
  rw [bind_run, attempt_of_ok (read_of_holds h)]
  simp only [hparse]
  rfl

end Saved

namespace Performer

theorem boot_medium (m : σ) : (boot m).2 = (Saved.lookup m).2 := by
  rw [boot, bind_run]
  generalize Saved.lookup m = found
  obtain ⟨saved, m'⟩ := found
  cases saved <;> rfl

theorem reconfigure_of_parsed {text : String} {parsed : Config.Parsed}
    (h : Config.parse text = .ok parsed) (performer : Performer) (m : σ) :
    (performer.reconfigure text m).1.performer.config = parsed.config ∧
      (performer.reconfigure text m).2 = (attempt (write text) m).2 := by
  constructor
  · rw [performer_of_parsed h]
    rfl
  · unfold reconfigure
    rw [h]
    dsimp only
    rw [bind_run]
    generalize attempt (write text) m = written
    obtain ⟨result, m'⟩ := written
    cases result <;> rfl

/-- A text that cannot be understood leaves the performer as it would start. -/
theorem reconfigure_of_rejected {text : String} {error : Error}
    (h : Config.parse text = .error error) (performer : Performer) (m : σ) :
    (performer.reconfigure text m).1.performer.config = (Saved.lookup m).1.config ∧
      (performer.reconfigure text m).2 = (Saved.lookup m).2 := by
  constructor
  · rw [performer_of_rejected h]
    rfl
  · unfold reconfigure
    rw [h]
    dsimp only
    rw [bind_run]
    generalize Saved.lookup m = found
    obtain ⟨saved, m'⟩ := found
    cases saved <;> rfl

theorem steps_dumpSaved : Steps Browses (dumpSaved : StateM (Monitored Region) (List String)) := by
  refine .bind .trans (steps_attempt fun _ => keeps_read) fun result => ?_
  split
  · exact .pure .refl _
  · exact .pure .refl _

theorem steps_rows (extents : List (Nat × Nat)) :
    Steps Browses (Hexdump.rows extents : StateM (Monitored Region) (List String)) := by
  induction extents with
  | nil => exact .pure .refl _
  | cons extent extents ih =>
    obtain ⟨address, length⟩ := extent
    refine .bind .trans (steps_attempt fun _ => keeps_readRaw address length) fun result => ?_
    split
    · exact .bind .trans ih fun _ => .pure .refl _
    · exact .pure .refl _

theorem steps_hexdump :
    Steps Browses (Hexdump.dump : StateM (Monitored Region) (List String)) :=
  fun m => steps_rows _ m

theorem steps_answerTo (line : String) :
    Steps Browses (answerTo line : StateM (Monitored Region) (List String)) := by
  unfold answerTo
  split
  · exact steps_dumpSaved
  · exact steps_hexdump

/-- A line that completes no text leaves the saved text alone. -/
theorem browses_of_not_completed {performer : Performer} {line : String}
    (h : performer.completed? line = none) (m : Monitored Region) :
    Browses m (performer.receiveLine line m).2 := by
  rcases receiveLine_of_not_completed (σ := Monitored Region) h with
    ⟨-, hreceive⟩ | ⟨-, hreceive⟩ | ⟨-, hreceive⟩
  · rw [hreceive]
    exact Steps.bind .trans (steps_answerTo line) (fun _ => .pure .refl _) m
  · rw [hreceive]
    exact .refl m
  · rw [hreceive]
    exact .refl m

end Performer

end MotionMidi
