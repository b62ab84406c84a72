import Mathlib.Algebra.Order.BigOperators.Group.List
import Mathlib.Algebra.Order.Ring.Nat
import MotionMidi.Flash.Region
import MotionMidi.Proofs.Performer.Intent

/-!
# Presses

While C is up, a note is only started by a tick that sees Z pressed, and every tick until the next
sample sees it. So a press plays as many notes as there are ticks before the next sample, which is
one note where samples and ticks alternate.

## Main definitions

- `Session.notesStarted` — how many notes were started
- `Sensor.after` — the sensor after an event
- `Sensor.presses` — the presses of Z among some events, each with the ticks that see it
- `Session.Plays` — a tick can play a note, and loses no message

Main statement: `notes_of_presses`.
-/

namespace MotionMidi

open Flash Midi Performer

/-! ## Notes that a tick starts -/

/-- The note that is started. -/
def Cue.starts? (cue : Cue) : Option Sounding :=
  cue.message?.bind Message.starts?

namespace Performer

variable {performer : Performer} {now : Nat} {sensor : Sensor}

@[simp] theorem starts?_tell (reading : Reading) (item : Mapping × Nat) :
    (performer.tell reading item).starts? = none := by
  change (message? _ item.1.destination _).bind Message.starts? = none
  cases item.1.destination <;> rfl

@[simp] theorem filterMap_starts?_releaseCues (performer : Performer) :
    performer.releaseCues.filterMap Cue.starts? = [] := by
  rw [releaseCues]
  cases performer.sounding <;> rfl

/-- A tick starts the note that is due, if any, and no other. -/
theorem filterMap_starts?_cues (performer : Performer) (now : Nat) (sensor : Sensor) :
    (performer.cues now sensor).filterMap Cue.starts? =
      (performer.noteToStart? now sensor).toList.map fun note =>
        ⟨(atMost 15 performer.config.channel).val, (atMost 127 note).val⟩ := by
  have hvalues : (performer.valueCues sensor.current).filterMap Cue.starts? = [] := by
    rw [List.filterMap_eq_nil_iff]
    intro cue hcue
    obtain ⟨mapping, index, -, rfl⟩ := exists_mapping_of_mem_valueCues hcue
    exact starts?_tell sensor.current (mapping, index)
  rw [cues, List.filterMap_append, hvalues, List.append_nil, noteCues]
  split
  case h_1 note hdue =>
    rw [List.filterMap_append, filterMap_starts?_releaseCues, hdue]
    rfl
  case h_2 hdue =>
    rw [hdue]
    split
    · rfl
    · rw [filterMap_starts?_releaseCues]
      rfl

theorem length_starts?_cues (performer : Performer) (now : Nat) (sensor : Sensor) :
    ((performer.cues now sensor).filterMap Cue.starts?).length =
      (performer.noteToStart? now sensor).toList.length := by
  rw [filterMap_starts?_cues, List.length_map]

@[simp] theorem filterMap_starts?_silenceCues (performer : Performer) :
    performer.silenceCues.filterMap Cue.starts? = [] := by
  rw [List.filterMap_eq_nil_iff]
  intro cue hcue
  rcases cases_of_mem_silenceCues hcue with ⟨note, -, -, rfl⟩ | rfl <;> rfl

/-- While C is up, a note is due at most where Z is pressed. -/
theorem pressed_of_noteToStart? (hc : sensor.held .c = false) {note : Nat}
    (h : performer.noteToStart? now sensor = some note) : sensor.pressed .z = true := by
  obtain ⟨-, -, hdue⟩ := noteToStart?_eq_some_iff.mp h
  simpa [repeats, hc] using hdue

/-- Where Z is pressed, the note that the reading chooses is due. -/
theorem noteToStart?_of_pressed (hpressed : sensor.pressed .z = true)
    (henabled : performer.config.notesEnabled = true) {note : Nat}
    (hchosen : performer.config.mappedNote sensor.current = .ok note) :
    performer.noteToStart? now sensor = some note := by
  rw [noteToStart?_eq_some_iff, hpressed, Bool.true_or]
  exact ⟨henabled, hchosen, rfl⟩

end Performer

/-! ## Presses among events -/

/-- How many ticks play the sample before the next one comes in. -/
def ticksUntilSample : List Event → Nat
  | [] => 0
  | .sense _ :: _ => 0
  | .tick _ :: events => ticksUntilSample events + 1
  | _ :: events => ticksUntilSample events

namespace Sensor

/-- The sensor after an event. -/
def after (sensor : Sensor) : Event → Sensor
  | .sense reading => sensor.update reading
  | _ => sensor

/-- The presses of Z among some events, each with the number of ticks that see it. -/
def presses : Sensor → List Event → List Nat
  | _, [] => []
  | sensor, .sense reading :: events =>
    let sensor := sensor.update reading
    if sensor.pressed .z then ticksUntilSample events :: sensor.presses events
    else sensor.presses events
  | sensor, _ :: events => sensor.presses events

/-- How many ticks see Z pressed, by the latest sample or by one of some events. -/
def ticksPressed (sensor : Sensor) (events : List Event) : Nat :=
  (if sensor.pressed .z then ticksUntilSample events else 0) + (sensor.presses events).sum

@[simp] theorem ticksPressed_nil (sensor : Sensor) : sensor.ticksPressed [] = 0 := by
  simp [ticksPressed, presses, ticksUntilSample]

@[simp] theorem ticksPressed_tick (sensor : Sensor) (now : Nat) (events : List Event) :
    sensor.ticksPressed (.tick now :: events) =
      (if sensor.pressed .z then 1 else 0) + sensor.ticksPressed events := by
  change (if sensor.pressed .z then ticksUntilSample events + 1 else 0) +
    (sensor.presses events).sum = _
  rw [ticksPressed]
  split <;> omega

@[simp] theorem ticksPressed_sense (sensor : Sensor) (reading : Reading) (events : List Event) :
    sensor.ticksPressed (.sense reading :: events) =
      (sensor.update reading).ticksPressed events := by
  simp only [ticksPressed, presses, ticksUntilSample, ite_self, Nat.zero_add]
  split <;> simp

@[simp] theorem ticksPressed_other (sensor : Sensor) {event : Event}
    (htick : ∀ now, event ≠ .tick now) (hsense : ∀ reading, event ≠ .sense reading)
    (events : List Event) :
    sensor.ticksPressed (event :: events) = sensor.ticksPressed events := by
  cases event with
  | tick now => exact absurd rfl (htick now)
  | sense reading => exact absurd rfl (hsense reading)
  | _ => rfl

theorem ticksPressed_of_not_tick {event : Event} (h : ∀ now, event ≠ .tick now) (sensor : Sensor) :
    sensor.ticksPressed [event] = 0 := by
  cases event with
  | tick now => exact absurd rfl (h now)
  | _ => simp

/-- Events are looked at one after the other. -/
theorem ticksPressed_cons (sensor : Sensor) (event : Event) (events : List Event) :
    sensor.ticksPressed (event :: events) =
      sensor.ticksPressed [event] + (sensor.after event).ticksPressed events := by
  cases event <;> simp [after]

end Sensor

/-! ## Sessions -/

namespace Session

variable {μ κ α : Type}

/-- How many notes were started. -/
def notesStarted (session : Session μ κ) : Nat :=
  (session.link.wire.filterMap Message.starts?).length

variable [Medium μ] [Link κ]

/-- A tick loses no message, and there is a note to be played with the latest sample. -/
structure Plays (session : Session μ κ) (now : Nat) : Prop where
  ok : ∃ started, (session.handle (.tick now)).1 = .played (.ok started)
  enabled : session.performer.config.notesEnabled = true
  chosen : ∃ note, session.performer.config.mappedNote session.sensor.current = .ok note

omit [Medium μ] [Link κ] in
@[simp] theorem sensor_play (session : Session μ κ) (action : Playing (Tapped κ) α) :
    (session.play action).2.sensor = session.sensor := by
  rw [play]
  split <;> rfl

@[simp] theorem sensor_handle (session : Session μ κ) (event : Event) :
    (session.handle event).2.sensor = session.sensor.after event := by
  cases event with
  | sense reading => rfl
  | tick now => exact sensor_play session _
  | line text => rfl
  | reconfigure text => rfl
  | raiseFault => rfl
  | silence => exact sensor_play session _

variable {session : Session μ (Logged κ)} {event : Event}

omit [Medium μ] [Link κ] in
/-- The messages of some cues start as many more notes as the cues do. -/
theorem notesStarted_of_wire {after : Session μ (Logged κ)} {cues : List Cue}
    (h : after.link.wire = session.link.wire ++ cues.filterMap Cue.message?) :
    after.notesStarted = session.notesStarted + (cues.filterMap Cue.starts?).length := by
  rw [notesStarted, h, List.filterMap_append, List.length_append, List.filterMap_filterMap]
  rfl

/-- Only ticks start notes. -/
theorem notesStarted_of_not_tick (h : ∀ now, event ≠ .tick now) :
    (session.handle event).2.notesStarted = session.notesStarted := by
  obtain ⟨done, hdone, hwire⟩ := session.wire_handle event
  have hnone : (session.cues event).filterMap Cue.starts? = [] := by
    cases event with
    | tick now => exact absurd rfl (h now)
    | silence => exact filterMap_starts?_silenceCues session.performer
    | sense reading => rfl
    | line text => rfl
    | reconfigure text => rfl
    | raiseFault => rfl
  have hstarts := hdone.filterMap Cue.starts?
  rw [hnone, List.prefix_nil] at hstarts
  rw [notesStarted_of_wire hwire, hstarts]
  rfl

/-- While C is up, a tick starts at most one note, and only if it sees Z pressed. -/
theorem notesStarted_tick_le (hc : session.sensor.held .c = false) (now : Nat) :
    (session.handle (.tick now)).2.notesStarted ≤
      session.notesStarted + if session.sensor.pressed .z then 1 else 0 := by
  obtain ⟨done, hdone, hwire⟩ := session.wire_handle (.tick now)
  rw [notesStarted_of_wire hwire]
  refine Nat.add_le_add_left (Nat.le_trans (hdone.filterMap Cue.starts?).length_le ?_) _
  rw [Session.cues, length_starts?_cues]
  cases hdue : session.performer.noteToStart? now session.sensor with
  | none => exact Nat.zero_le _
  | some note =>
    rw [if_pos (pressed_of_noteToStart? hc hdue)]
    exact Nat.le_refl 1

/-- A tick that can play a note starts one if it sees Z pressed. -/
theorem notesStarted_tick (hc : session.sensor.held .c = false) {now : Nat}
    (hplays : session.Plays now) : (session.handle (.tick now)).2.notesStarted =
      session.notesStarted + if session.sensor.pressed .z then 1 else 0 := by
  obtain ⟨⟨started, hok⟩, henabled, note, hchosen⟩ := hplays
  rcases session.played_tick now with ⟨-, hplayed⟩ | ⟨_, _, _, hlost, -⟩
  case inr => cases hok.symm.trans hlost
  rw [notesStarted_of_wire hplayed.wire, Session.cues, length_starts?_cues]
  split
  case isTrue hpressed => rw [noteToStart?_of_pressed hpressed henabled hchosen]; rfl
  case isFalse hpressed =>
    cases hdue : session.performer.noteToStart? now session.sensor with
    | none => rfl
    | some note => exact absurd (pressed_of_noteToStart? hc hdue) hpressed

/-- An event starts at most as many notes as ticks see Z pressed, and just as many where a tick can
play a note. -/
theorem notesStarted_handle (hc : session.sensor.held .c = false) (event : Event) :
    (session.handle event).2.notesStarted ≤
        session.notesStarted + session.sensor.ticksPressed [event] ∧
      ((∀ now, event = .tick now → session.Plays now) →
        (session.handle event).2.notesStarted =
          session.notesStarted + session.sensor.ticksPressed [event]) := by
  by_cases htick : ∃ now, event = .tick now
  case pos =>
    obtain ⟨now, rfl⟩ := htick
    simp only [Sensor.ticksPressed_tick, Sensor.ticksPressed_nil, Nat.add_zero]
    exact ⟨notesStarted_tick_le hc now, fun hplays => notesStarted_tick hc (hplays now rfl)⟩
  case neg =>
    have hother : ∀ now, event ≠ .tick now := fun now h => htick ⟨now, h⟩
    rw [Sensor.ticksPressed_of_not_tick hother, notesStarted_of_not_tick hother]
    exact ⟨Nat.le_refl _, fun _ => rfl⟩

/-- While C stays up, at most as many notes are started as ticks see Z pressed, and just as many
where every tick can play a note. -/
theorem notesStarted_run (hc : session.sensor.held .c = false) {events : List Event}
    (hevents : ∀ reading, .sense reading ∈ events → reading.buttonC = false) :
    (session.run events).notesStarted ≤
        session.notesStarted + session.sensor.ticksPressed events ∧
      ((∀ front now back, events = front ++ .tick now :: back → (session.run front).Plays now) →
        (session.run events).notesStarted =
          session.notesStarted + session.sensor.ticksPressed events) := by
  induction events generalizing session with
  | nil => simp
  | cons event events ih =>
    have hup : (session.handle event).2.sensor.held .c = false := by
      rw [sensor_handle]
      cases event with
      | sense reading => exact hevents reading (List.mem_cons_self ..)
      | tick now => exact hc
      | line text => exact hc
      | reconfigure text => exact hc
      | raiseFault => exact hc
      | silence => exact hc
    obtain ⟨hstep, hstepeq⟩ := notesStarted_handle hc event
    obtain ⟨hrest, hresteq⟩ := ih hup fun reading hreading =>
      hevents reading (List.mem_cons_of_mem _ hreading)
    rw [sensor_handle] at hrest hresteq
    rw [run_cons, Sensor.ticksPressed_cons, ← Nat.add_assoc]
    refine ⟨Nat.le_trans hrest (Nat.add_le_add_right hstep _), fun hplays => ?_⟩
    rw [hresteq, hstepeq]
    · rintro now rfl
      exact hplays [] now events rfl
    · rintro front now back rfl
      exact hplays (event :: front) now back rfl

end Session

/-- While C stays up, every note is started by a tick that sees Z pressed. So a press plays one note
if one tick sees it, and there are as many notes as presses at most where no press is seen by
several ticks. Where each tick can play a note and no message is lost, the notes are just as many as
the ticks that see a press. -/
theorem notes_of_presses {μ κ : Type} [Medium μ] [Link κ] (medium : μ) (link : κ)
    (events : List Event)
    (hevents : ∀ reading, .sense reading ∈ events → reading.buttonC = false) :
    let start := Session.start medium (Logged.mk link [])
    let notes := (start.run events).notesStarted
    let presses := Sensor.presses {} events
    notes ≤ presses.sum ∧
      ((∀ ticks ∈ presses, ticks ≤ 1) → notes ≤ presses.length) ∧
      ((∀ front now back, events = front ++ .tick now :: back → (start.run front).Plays now) →
        notes = presses.sum) := by
  intro start notes presses
  have hcount : start.notesStarted + start.sensor.ticksPressed events = presses.sum := by
    change 0 + (0 + presses.sum) = presses.sum
    rw [Nat.zero_add, Nat.zero_add]
  have hup : start.sensor.held .c = false := rfl
  obtain ⟨hle, heq⟩ := Session.notesStarted_run hup hevents
  rw [hcount] at hle heq
  refine ⟨hle, fun hone => Nat.le_trans hle ?_, heq⟩
  calc
    presses.sum ≤ presses.length * 1 := List.sum_le_card_nsmul presses 1 hone
    _ = presses.length := Nat.mul_one _

/-- Z is pressed twice, and each press is seen by one tick. -/
theorem notes_of_presses_alternating :
    let events := [.reconfigure "SCALE 0 OCTAVES 3 3 MAP ax note", .sense { buttonZ := true },
      .tick 0, .sense { buttonZ := true }, .tick 1, .tick 2, .sense {}, .tick 3,
      .sense { buttonZ := true }, .tick 4]
    let session := (Session.start (Region.erased ⟨32, 16, 96⟩)
      (Logged.mk ({} : Recorder) [])).run events
    Sensor.presses {} events = [1, 1] ∧ session.notesStarted ≤ 2 ∧ session.notesStarted = 2 := by
  intro events session
  have hpresses : Sensor.presses {} events = [1, 1] := by
    decide
  obtain ⟨-, hone, -⟩ := notes_of_presses (Region.erased ⟨32, 16, 96⟩) ({} : Recorder) events
    (by simp [events])
  rw [hpresses] at hone
  exact ⟨hpresses, hone (by decide), by decide +kernel⟩

/-- Z is pressed once, two ticks see it, and a note is started twice though nothing is lost. -/
theorem note_started_again_by_tick :
    let events := [.reconfigure "SCALE 0 OCTAVES 3 3 MAP ax note", .sense { buttonZ := true },
      .tick 0, .tick 1]
    let session := (Session.start (Region.erased ⟨32, 16, 96⟩)
      (Logged.mk ({} : Recorder) [])).run events
    (∀ attempt ∈ session.attempts, attempt.sent) ∧
      (∀ reading, .sense reading ∈ events → reading.buttonC = false) ∧
      (Sensor.presses {} events).length = 1 ∧ session.notesStarted = 2 := by
  intro events session
  refine ⟨?_, by simp [events], by decide, ?_⟩
  · decide +kernel
  · decide +kernel

end MotionMidi
