import Mathlib.Control.Monad.Basic
import MotionMidi.Proofs.Flash.Writing

/-!
# Crash safety of the save slot

A slot is written over and over while erases are refused and the power is cut. Whatever happens, the
slot holds the text that was written last, or shows that there is none.

## Main definitions

- `SlotEvent` — what can happen to a slot in use
- `Saving` — a write as it went
- `SlotUse` — a medium, and the writes so far
- `SlotUse.Sound` — the bytes are what the last write that erased the medium left

Main statement: `read_after_writes`.
-/

namespace MotionMidi

open Flash SaveSlot

/-- What can happen to a slot in use. -/
inductive SlotEvent where
  /-- From now on the power lasts for so many programs, or for good. -/
  | supply (programs : Option Nat)
  /-- From now on so many erases reach the medium before all are refused, or all do. -/
  | permit (erases : Option Nat)
  /-- A text is written. -/
  | write (text : String)
  deriving DecidableEq, Repr

/-- A write as it went. -/
structure Saving where
  text : String
  /-- The medium was erased for it. -/
  erased : Bool
  result : Except Error Unit
  deriving DecidableEq

/-- A slot in use. -/
structure SlotUse where
  medium : Monitored Region
  /-- The writes so far, the latest one first. -/
  savings : List Saving := []

namespace SlotUse

/-- One event. -/
def step (slot : SlotUse) : SlotEvent → SlotUse
  | .supply programs =>
    let region := { slot.medium.medium with powerLeft := programs }
    { slot with medium := { slot.medium with medium := region } }
  | .permit erases => { slot with medium := { slot.medium with erasesLeft := erases } }
  | .write text =>
    let (result, medium) := attempt (write text) slot.medium
    let erased := decide (slot.medium.medium.erases < medium.medium.erases)
    { medium, savings := { text, erased, result } :: slot.savings }

/-- Some events, one after the other. -/
def run (slot : SlotUse) (events : List SlotEvent) : SlotUse :=
  events.foldl step slot

/-- The last write that erased the medium. -/
def lastErasing? (slot : SlotUse) : Option Saving :=
  slot.savings.find? (·.erased)

/-- The bytes are what the last write that erased the medium left: the record of its text if it
went through, and no complete record if not. -/
structure Sound (start : List UInt8) (slot : SlotUse) : Prop where
  supported : (Medium.geometry slot.medium).Supported
  untouched : slot.lastErasing? = none → slot.medium.medium.bytes = start
  saved : ∀ saving, slot.lastErasing? = some saving → saving.result = .ok () →
    Holds saving.text slot.medium.medium.bytes
  lost : ∀ saving error, slot.lastErasing? = some saving → saving.result = .error error →
    Incomplete slot.medium.medium.bytes

variable {start : List UInt8} {slot : SlotUse}

theorem step_write {text : String} {result : Except Error Unit} {m : Monitored Region}
    (h : attempt (write text) slot.medium = (result, m)) :
    slot.step (.write text) =
      { medium := m
        savings := { text, erased := decide (slot.medium.medium.erases < m.medium.erases), result }
          :: slot.savings } := by
  simp only [step, h]

theorem lastErasing?_cons (m : Monitored Region) (saving : Saving) (savings : List Saving) :
    (SlotUse.mk m (saving :: savings)).lastErasing? =
      if saving.erased then some saving else (SlotUse.mk m savings).lastErasing? := by
  rw [lastErasing?, lastErasing?, List.find?_cons]
  split <;> simp_all

/-- What does not reach the medium leaves things as they were. -/
theorem Sound.refused (h : slot.Sound start) {m : Monitored Region}
    (hm : m.medium = slot.medium.medium) {saving : Saving} (hs : saving.erased = false) :
    (SlotUse.mk m (saving :: slot.savings)).Sound start := by
  have hlast : (SlotUse.mk m (saving :: slot.savings)).lastErasing? = slot.lastErasing? := by
    rw [lastErasing?_cons, hs]
    rfl
  constructor
  · rw [show Medium.geometry m = Medium.geometry m.medium from rfl, hm]
    exact h.supported
  · rw [hlast, hm]
    exact h.untouched
  · rw [hlast, hm]
    exact h.saved
  · rw [hlast, hm]
    exact h.lost

/-- Once the medium is erased, nothing that was there before matters. -/
theorem Sound.erased {m : Monitored Region} (hm : (Medium.geometry m).Supported)
    {saving : Saving} (hs : saving.erased = true)
    (hsaved : saving.result = .ok () → Holds saving.text m.medium.bytes)
    (hlost : ∀ error, saving.result = .error error → Incomplete m.medium.bytes)
    (savings : List Saving) : (SlotUse.mk m (saving :: savings)).Sound start := by
  have hlast : (SlotUse.mk m (saving :: savings)).lastErasing? = some saving := by
    rw [lastErasing?_cons, hs]
    rfl
  refine ⟨hm, ?_, ?_, ?_⟩
  · intro h
    cases hlast.symm.trans h
  · intro saving' h
    cases hlast.symm.trans h
    exact hsaved
  · intro saving' error h
    cases hlast.symm.trans h
    exact hlost error

theorem Sound.write (h : slot.Sound start) (text : String) :
    (slot.step (.write text)).Sound start := by
  have hsupported {m : Monitored Region} (hsizes : slot.medium.medium.SameSizes m.medium) :
      (Medium.geometry m).Supported := by
    rw [show Medium.geometry m = Medium.geometry slot.medium from hsizes]
    exact h.supported
  -- The write changes nothing, erases the older record and is cut short, or goes through.
  rcases write_cases text h.supported with
    ⟨e, m, hw, hm, -⟩ | ⟨m, hw, hsizes, herases, hbytes⟩ | ⟨m, hw, hsizes, herases, hbytes⟩
  · rw [step_write (attempt_of_error hw)]
    exact h.refused hm (by simp [hm])
  · rw [step_write (attempt_of_error hw)]
    refine .erased (hsupported hsizes) (by simp [herases]) ?_ ?_ _
    · intro hresult
      cases hresult
    · exact fun _ _ => hbytes
  · rw [step_write (attempt_of_ok hw)]
    refine .erased (hsupported hsizes) (by simp [herases]) ?_ ?_ _
    · exact fun _ => hbytes
    · intro error hresult
      cases hresult

theorem Sound.step (h : slot.Sound start) (event : SlotEvent) : (slot.step event).Sound start := by
  cases event with
  | supply programs => exact ⟨h.supported, h.untouched, h.saved, h.lost⟩
  | permit erases => exact ⟨h.supported, h.untouched, h.saved, h.lost⟩
  | write text => exact h.write text

theorem Sound.run (h : slot.Sound start) (events : List SlotEvent) :
    (slot.run events).Sound start := by
  induction events generalizing slot with
  | nil => exact h
  | cons event events ih => exact ih (h.step event)

end SlotUse

/-- After any writes, cut short or not, a region holds what it held at first as long as no write
erased it. From then on it gives back the text of the last write that erased it if that write went
through, and is seen to hold none if it did not. -/
theorem read_after_writes (medium : Monitored Region) (accepted : check medium = .ok () medium)
    (events : List SlotEvent) :
    let slot := SlotUse.run { medium } events
    let region := slot.medium.medium
    match slot.lastErasing? with
    | none => region.bytes = medium.medium.bytes
    | some saving =>
      match saving.result with
      | .ok () => isValid region = (true, region) ∧ attempt read region = (.ok saving.text, region)
      | .error _ =>
        isValid region = (false, region) ∧
          attempt read region = (.error .noValidRecord, region) := by
  intro slot region
  have hstart : SlotUse.Sound medium.medium.bytes { medium } :=
    ⟨supported_of_check accepted, fun _ => rfl, nofun, nofun⟩
  have hslot : slot.Sound medium.medium.bytes := hstart.run events
  split
  case h_1 hlast => exact hslot.untouched hlast
  case h_2 saving hlast =>
    split
    case h_1 hresult =>
      have hholds := hslot.saved saving hlast hresult
      exact ⟨isValid_of_holds hholds, attempt_of_ok (read_of_holds hholds)⟩
    case h_2 error hresult =>
      have hincomplete := hslot.lost saving error hlast hresult
      exact ⟨isValid_of_incomplete hslot.supported hincomplete,
        attempt_of_error (read_of_incomplete hslot.supported hincomplete)⟩

/-- Power fails after the first page of a record that replaces an older one. -/
theorem read_after_cut_write :
    let medium : Monitored Region := { medium := Region.erased ⟨32, 16, 64⟩ }
    let events := [.write "CHAN 3 END.", .supply (some 1), .write "ROOT D END."]
    let slot := SlotUse.run { medium } events
    let region := slot.medium.medium
    check medium = .ok () medium ∧
      slot.lastErasing? = some ⟨"ROOT D END.", true, .error .mediumFailure⟩ ∧
      isValid region = (false, region) ∧ attempt read region = (.error .noValidRecord, region) := by
  intro medium events
  have haccepted : check medium = .ok () medium := check_of_supported (by decide)
  have hlast : (SlotUse.run { medium } events).lastErasing? =
      some ⟨"ROOT D END.", true, .error .mediumFailure⟩ := by
    decide +kernel
  have hread := read_after_writes medium haccepted events
  simp only [hlast] at hread
  exact ⟨haccepted, hlast, hread⟩

end MotionMidi
