import MotionMidi.Proofs.Performer.NoteStarts
import MotionMidi.Proofs.Pitch.Searching

/-!
# Note mode

Notes can be chosen where some mapping plays notes and the scale has any. Both the place of that
mapping and the search for the nearest note could fail to give one, but they never do, so a tick
that finds Z pressed starts a note or reports that a message was lost.

## Main definitions

- `Config.mappedNoteWith` — the note that a reading chooses, with some search
- `Performer.tickWith` — a tick, with some search
- `Performer.Answered` — how a tick ends that answers a press

Main statements: `Config.mappedNoteWith_isOk_iff`, `Performer.answered_tickWith`,
`note_guards_agree`.
-/

namespace MotionMidi

open Midi

/-! ## The note that is chosen -/

namespace Config

variable {config : Config} {search : List Nat → Nat → Nat} {reading : Reading}

/-- The mapping in the place that was found for the one that chooses notes. -/
def mappingOfNotes? (config : Config) : Option Mapping :=
  config.noteMappingIndex?.bind (config.mappings[·]?)

/-- The note that a reading chooses. A search has told the place of the candidate. -/
def mappedNoteWith (search : List Nat → Nat → Nat) (config : Config) (reading : Reading) :
    Except Error Nat :=
  match config.mappingOfNotes? with
  | none => .error .noteModeUnavailable
  | some mapping => config.validNotes.quantizeWith search (mapping.value reading)

/-- There is a mapping in the place that was found. -/
theorem mappingOfNotes?_eq (config : Config) : config.mappingOfNotes? = config.noteMapping? := by
  rw [mappingOfNotes?, noteMappingIndex?, noteMapping?]
  cases hlast : config.lastNoteMapping? with
  | none => rfl
  | some item =>
    obtain ⟨mapping, index⟩ := item
    have hitem : (mapping, index) ∈ config.mappings.zipIdx :=
      List.mem_of_mem_filter (List.mem_of_getLast? hlast)
    exact List.mk_mem_zipIdx_iff_getElem?.mp hitem

theorem isSome_noteMappingIndex? (config : Config) :
    config.noteMappingIndex?.isSome = config.noteMapping?.isSome := by
  rw [noteMappingIndex?, noteMapping?, Option.isSome_map, Option.isSome_map]

theorem mappedNoteWith_splitPlace (config : Config) (reading : Reading) :
    config.mappedNoteWith NoteTable.splitPlace reading = config.mappedNote reading := by
  rw [mappedNoteWith, mappedNote, mappingOfNotes?_eq]
  cases config.noteMapping? with
  | none => rfl
  | some mapping => exact NoteTable.quantizeWith_splitPlace _ _

/-- A search that splits the notes of the scale makes no difference. -/
theorem mappedNoteWith_of_splitsAt
    (h : ∀ candidate, NoteTable.SplitsAt config.validNotes.notes candidate
      (search config.validNotes.notes candidate)) (reading : Reading) :
    config.mappedNoteWith search reading = config.mappedNote reading := by
  rw [mappedNoteWith, mappedNote, mappingOfNotes?_eq]
  cases config.noteMapping? with
  | none => rfl
  | some mapping => exact NoteTable.quantizeWith_of_splitsAt (h _)

/-- Where notes can be chosen, every reading chooses one of the scale. -/
theorem exists_mappedNoteWith (search : List Nat → Nat → Nat) (h : config.notesEnabled = true)
    (reading : Reading) :
    ∃ note ∈ config.validNotes.notes, config.mappedNoteWith search reading = .ok note := by
  obtain ⟨hmapping, htable⟩ := notesEnabled_iff.mp h
  obtain ⟨mapping, hsome⟩ := Option.isSome_iff_exists.mp hmapping
  rw [mappedNoteWith, mappingOfNotes?_eq, hsome]
  exact NoteTable.exists_quantizeWith search htable _

/-- Where notes cannot be chosen, no reading chooses one. -/
theorem mappedNoteWith_of_disabled (search : List Nat → Nat → Nat)
    (h : config.notesEnabled = false) (reading : Reading) :
    config.mappedNoteWith search reading = .error .noteModeUnavailable := by
  rw [mappedNoteWith, mappingOfNotes?_eq]
  cases hmapping : config.noteMapping? with
  | none => rfl
  | some mapping =>
    have htable : config.validNotes.notes = [] := by
      by_contra hne
      rw [notesEnabled_iff.mpr ⟨by rw [hmapping]; rfl, hne⟩] at h
      cases h
    exact NoteTable.quantizeWith_of_empty search htable _

/-- Both guards agree: notes can be chosen where every reading chooses one. -/
theorem mappedNoteWith_isOk_iff (search : List Nat → Nat → Nat) (config : Config)
    (reading : Reading) :
    (∃ note, config.mappedNoteWith search reading = .ok note) ↔ config.notesEnabled = true := by
  constructor
  · rintro ⟨note, hnote⟩
    by_contra hdisabled
    rw [mappedNoteWith_of_disabled search (Bool.eq_false_iff.mpr hdisabled)] at hnote
    cases hnote
  · intro h
    obtain ⟨note, -, hnote⟩ := exists_mappedNoteWith search h reading
    exact ⟨note, hnote⟩

theorem mem_of_mappedNoteWith {note : Nat} (h : config.mappedNoteWith search reading = .ok note) :
    note ∈ config.validNotes.notes := by
  obtain ⟨other, hother, hmapped⟩ := exists_mappedNoteWith search
    ((mappedNoteWith_isOk_iff search config reading).mp ⟨note, h⟩) reading
  rw [h] at hmapped
  exact Except.ok.inj hmapped ▸ hother

/-- The notes of a scale are notes that MIDI has, none of them too low for octave 0. -/
theorem bounds_of_mem_validNotes {note : Nat} (h : note ∈ config.validNotes.notes) :
    24 ≤ note ∧ note ≤ 127 :=
  ⟨NoteTable.lowestNote_le_of_mem_build h, NoteTable.playable_build _ _ _ _ note h⟩

end Config

/-! ## Ticks -/

namespace Performer

section Ticks

variable {σ : Type} [Link σ]

/-- What a tick does once it is settled which note it starts, if any. -/
def playChosen (note? : Option Nat) (now : Nat) (sensor : Sensor) : Playing σ Bool := do
  if let some note := note? then startNote now note
  if !sensor.held .z then releaseSounding
  (← get).performer.config.mappings.zipIdx.forM fun (mapping, index) =>
    sendValue sensor.current mapping index
  return note?.isSome

/-- The note that has to be started, if any. A search has told the place of the candidate. -/
def noteToStartWith? (search : List Nat → Nat → Nat) (performer : Performer) (now : Nat)
    (sensor : Sensor) : Option Nat :=
  if performer.config.notesEnabled then
    match performer.config.mappedNoteWith search sensor.current with
    | .ok note =>
      if sensor.pressed .z || performer.repeats now sensor note then some note else none
    | .error _ => none
  else none

/-- A tick with some search for the note that is chosen. -/
def tickWith (search : List Nat → Nat → Nat) (now : Nat) (sensor : Sensor) : Playing σ Bool := do
  playChosen ((← get).performer.noteToStartWith? search now sensor) now sensor

theorem noteToStartWith?_splitPlace (performer : Performer) (now : Nat) (sensor : Sensor) :
    performer.noteToStartWith? NoteTable.splitPlace now sensor =
      performer.noteToStart? now sensor := by
  rw [noteToStartWith?, Config.mappedNoteWith_splitPlace]
  rfl

theorem tickWith_splitPlace (now : Nat) (sensor : Sensor) :
    (tickWith NoteTable.splitPlace now sensor : Playing σ Bool) = tick now sensor := by
  funext stage
  rw [tickWith, tick, get_bind, get_bind, noteToStartWith?_splitPlace]
  rfl

/-- Where notes can be chosen, pressing Z always starts one of the scale. -/
theorem noteToStartWith?_of_pressed (search : List Nat → Nat → Nat) {performer : Performer}
    {sensor : Sensor} (henabled : performer.config.notesEnabled = true)
    (hpressed : sensor.pressed .z = true) (now : Nat) :
    ∃ note ∈ performer.config.validNotes.notes,
      performer.noteToStartWith? search now sensor = some note := by
  obtain ⟨note, hmem, hnote⟩ := Config.exists_mappedNoteWith search henabled sensor.current
  refine ⟨note, hmem, ?_⟩
  rw [noteToStartWith?, if_pos henabled, hnote]
  simp [hpressed]

/-- The note that is chosen is started before values are sent. -/
theorem tickWith_of_chosen {search : List Nat → Nat → Nat} {now note : Nat} {sensor : Sensor}
    {stage : Stage σ} (hheld : sensor.held .z = true)
    (hnote : stage.performer.noteToStartWith? search now sensor = some note) :
    tickWith search now sensor stage =
      (perform (stage.performer.releaseCues ++
        [.start ⟨stage.performer.config.channel, note⟩ now] ++
          stage.performer.valueCues sensor.current) >>= fun _ => pure true) stage := by
  rw [tickWith, get_bind, hnote, playChosen]
  dsimp only
  rw [if_neg (by simp [hheld])]
  refine sendValues_after_perform _ _ (startNote_eq_perform now note stage) ?_ _ true
  rw [Cue.effects_append, effects_releaseCues]
  rfl

end Ticks

/-! ## Presses -/

variable {κ : Type} [Link κ]

/-- How a tick ends that answers a press: it starts a note of the scale on the active channel, or it
fails as a message is lost. -/
inductive Answered (stage : Stage (Tapped (Logged κ))) :
    EStateM.Result LinkFailure (Stage (Tapped (Logged κ))) Bool → Prop where
  | started (note : Nat) (sent : List Message) (stage' : Stage (Tapped (Logged κ)))
      (mem : note ∈ stage.performer.config.validNotes.notes)
      (wire : stage'.link.wire = stage.link.wire ++ sent)
      (starts : Midi.noteOn stage.performer.config.channel note noteVelocity ∈ sent) :
      Answered stage (.ok true stage')
  | failed (failure : LinkFailure) (front : List Attempt) (message : Message)
      (stage' : Stage (Tapped (Logged κ)))
      (lost : stage'.link.link.attempts =
        stage.link.link.attempts ++ front ++ [⟨message, false⟩]) :
      Answered stage (.error failure stage')

/-- Where notes can be chosen, no press of Z is skipped. -/
theorem answered_tickWith (search : List Nat → Nat → Nat) (now : Nat) {sensor : Sensor}
    {stage : Stage (Tapped (Logged κ))}
    (henabled : stage.performer.config.notesEnabled = true)
    (hpressed : sensor.pressed .z = true) :
    Answered stage (tickWith search now sensor stage) := by
  obtain ⟨note, hmem, hnote⟩ := noteToStartWith?_of_pressed search henabled hpressed now
  have hheld : sensor.held .z = true := (Bool.and_eq_true_iff.mp hpressed).1
  rw [tickWith_of_chosen hheld hnote]
  rcases perform_logged (stage.performer.releaseCues ++
      [.start ⟨stage.performer.config.channel, note⟩ now] ++
        stage.performer.valueCues sensor.current) stage with
    ⟨stage', hrun, hplayed⟩ | ⟨failure, stage', done, message, hrun, hplayed⟩
  · rw [bind_of_ok hrun]
    refine .started note _ stage' hmem hplayed.wire ?_
    refine List.mem_filterMap.mpr ⟨.start ⟨stage.performer.config.channel, note⟩ now, ?_, rfl⟩
    exact List.mem_append_left _ (List.mem_append_right _ (List.mem_singleton_self _))
  · rw [bind_of_error hrun]
    refine .failed failure (outcomes (done.filterMap Cue.message?) none) message stage' ?_
    rw [hplayed.attempts, List.append_assoc]
    simp [outcomes]

end Performer

open Performer

/-- Whichever place a search finds in the table of notes, and whatever the reading is, a reading
chooses a note if and only if notes can be chosen at all, and it is a note of the scale. So as long
as they can, a tick that finds Z pressed starts a note of the scale unless a message is lost. A
search that splits the notes at the candidate gives the note that is played. -/
theorem note_guards_agree {κ : Type} [Link κ] (search : List Nat → Nat → Nat) (config : Config)
    (reading : Reading) :
    config.notesEnabled =
        (config.noteMappingIndex?.isSome && !config.validNotes.isEmpty) ∧
      ((∃ note, config.mappedNoteWith search reading = .ok note) ↔ config.notesEnabled = true) ∧
      (config.notesEnabled = false →
        config.mappedNoteWith search reading = .error .noteModeUnavailable) ∧
      (∀ note, config.mappedNoteWith search reading = .ok note →
        note ∈ config.validNotes.notes ∧ 24 ≤ note ∧ note ≤ 127) ∧
      (∀ (stage : Stage (Tapped (Logged κ))) (now : Nat) (sensor : Sensor),
        stage.performer.config = config → config.notesEnabled = true → sensor.pressed .z = true →
          Answered stage (tickWith search now sensor stage)) ∧
      ((∀ candidate, NoteTable.SplitsAt config.validNotes.notes candidate
          (search config.validNotes.notes candidate)) →
        config.mappedNoteWith search reading = config.mappedNote reading) ∧
      config.mappedNoteWith NoteTable.splitPlace reading = config.mappedNote reading ∧
      ∀ (now : Nat) (sensor : Sensor),
        (tickWith NoteTable.splitPlace now sensor : Playing (Tapped (Logged κ)) Bool) =
          tick now sensor := by
  refine ⟨?_, config.mappedNoteWith_isOk_iff search reading,
    fun h => Config.mappedNoteWith_of_disabled search h reading, fun note hnote => ?_, ?_,
    fun h => Config.mappedNoteWith_of_splitsAt h reading,
    config.mappedNoteWith_splitPlace reading, fun now sensor => tickWith_splitPlace now sensor⟩
  · rw [Config.notesEnabled, config.isSome_noteMappingIndex?]
  · have hmem := Config.mem_of_mappedNoteWith hnote
    exact ⟨hmem, Config.bounds_of_mem_validNotes hmem⟩
  · rintro stage now sensor rfl henabled hpressed
    exact answered_tickWith search now henabled hpressed

/-- A scale that is not ascending, in which a search by halving finds the last note, and a reading
that is no number. Without mappings no note is chosen. -/
theorem note_guards_agree_unordered :
    let text := "SCALE 0 12 2 7 OCTAVES 3 3 MAP ax 0 1 65 65 note"
    let config : Config := {
      intervals := [0, 12, 2, 7], firstOctave := 3, lastOctave := 3
      mappings := [⟨.acceleration .x, 0, 1, 65, 65, .note, Nat.le_refl _⟩] }
    let ordered : Config := { config with intervals := [0, 2, 7, 12] }
    let search : List Nat → Nat → Nat := fun _ _ => 3
    let sensor : Sensor := ⟨{ accelX := .nan, buttonZ := true }, {}⟩
    let stage : Stage (Tapped (Logged Recorder)) := ⟨{ config }, ⟨⟨{}, []⟩, []⟩⟩
    Config.parse text = .ok ⟨config, none⟩ ∧ ¬config.validNotes.Ascending ∧
      config.notesEnabled = true ∧ config.mappedNoteWith search sensor.current = .ok 67 ∧
      67 ∈ config.validNotes.notes ∧ Answered stage (tickWith search 0 sensor stage) ∧
      config.mappedNote sensor.current = .ok 60 ∧
      ordered.mappedNoteWith NoteTable.splitPlace sensor.current =
        ordered.mappedNote sensor.current ∧
      Config.mappedNoteWith search {} sensor.current = .error .noteModeUnavailable := by
  intro text config ordered search sensor stage
  have hparse : Config.parse text = .ok ⟨config, none⟩ := by
    decide +kernel
  have hascending : ¬config.validNotes.Ascending := by
    decide +kernel
  have hordered : ordered.validNotes.Ascending := by
    decide +kernel
  have henabled : config.notesEnabled = true := by
    decide +kernel
  have hmapped : config.mappedNoteWith search sensor.current = .ok 67 := by
    decide +kernel
  have hplayed : config.mappedNote sensor.current = .ok 60 := by
    decide +kernel
  obtain ⟨-, -, -, hmem, hanswered, -⟩ :=
    @note_guards_agree Recorder _ search config sensor.current
  obtain ⟨-, -, -, -, -, hsplit, -⟩ :=
    @note_guards_agree Recorder _ NoteTable.splitPlace ordered sensor.current
  obtain ⟨-, -, hdisabled, -⟩ := @note_guards_agree Recorder _ search {} sensor.current
  exact ⟨hparse, hascending, henabled, hmapped, (hmem 67 hmapped).1,
    hanswered stage 0 sensor rfl henabled rfl, hplayed,
    hsplit (NoteTable.splitsAt_splitPlace hordered), hdisabled rfl⟩

end MotionMidi
