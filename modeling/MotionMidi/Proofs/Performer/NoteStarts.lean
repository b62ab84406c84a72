import MotionMidi.Proofs.Performer.Presses
import MotionMidi.Proofs.Pitch.Quantizing

/-!
# When a note starts

A tick starts a note where Z was pressed. While C and Z are held, it also starts one if the last
note was started long enough ago and another one is chosen. Which note sounds, and when the last one
was started, is what the messages on the wire tell, whatever messages were lost and whatever
configurations came and went.

## Main definitions

- `Midi.Stamped`, `Session.trace` — the messages that ticks put on the wire, with their times
- `Midi.lastStartAt?` — when the last note was started
- `Config.NoteDue` — a note has to be started

Main statements: `Session.lastNoteAt_run`, `Config.noteDue_iff`, `note_starts_iff_due`.
-/

namespace MotionMidi

open Flash Midi Performer

/-! ## Messages and their times -/

namespace Midi

/-- A message that a tick put on the wire, and the time of the tick. -/
structure Stamped where
  now : Nat
  message : Message
  deriving DecidableEq, Repr

/-- Messages that are put on the wire at a time. -/
def stamp (now : Nat) (messages : List Message) : List Stamped :=
  messages.map (⟨now, ·⟩)

/-- When the last note was started. -/
def lastStartAt? (trace : List Stamped) : Option Nat :=
  (trace.filter (·.message.starts?.isSome)).getLast?.map (·.now)

theorem lastStartAt?_append (front back : List Stamped) :
    lastStartAt? (front ++ back) = (lastStartAt? back).or (lastStartAt? front) := by
  rw [lastStartAt?, List.filter_append, List.getLast?_append, Option.map_or]
  rfl

@[simp] theorem map_message_stamp (now : Nat) (messages : List Message) :
    (stamp now messages).map (·.message) = messages := by
  rw [stamp, List.map_map]
  exact List.map_id _

end Midi

/-- A note has to be started with the latest reading: notes can be chosen, and either Z was pressed,
or C and Z are held, the last note was started long enough ago, and the one that sounds is not the
one that is chosen. -/
structure Config.NoteDue (config : Config) (sensor : Sensor) (now : Nat) (trace : List Stamped) :
    Prop where
  mapping : config.noteMapping?.isSome
  table : config.validNotes.notes ≠ []
  wanted : sensor.pressed .z ∨
    sensor.held .c ∧ sensor.held .z ∧
      (∀ start ∈ lastStartAt? trace, config.autoRepeat ≤ now - start) ∧
      ∀ sounding ∈ soundingAfter (trace.map (·.message)),
        config.mappedNote sensor.current ≠ .ok sounding.note

instance (config : Config) (sensor : Sensor) (now : Nat) (trace : List Stamped) :
    Decidable (config.NoteDue sensor now trace) :=
  decidable_of_iff (_ ∧ _ ∧ _)
    ⟨fun h => ⟨h.1, h.2.1, h.2.2⟩, fun h => ⟨h.mapping, h.table, h.wanted⟩⟩

/-! ## What the performer knows -/

namespace Cue

variable {cue : Cue} {cues : List Cue} {now : Nat}

/-- A note that the cue starts is started at a time. -/
def StartsAt (now : Nat) (cue : Cue) : Prop :=
  ∀ note time, cue = .start note time → time = now

theorem lastNoteAt_effect (h : cue.StartsAt now) (performer : Performer) :
    (cue.effect performer).lastNoteAt =
      (lastStartAt? (stamp now cue.message?.toList)).or performer.lastNoteAt := by
  cases cue with
  | release note => rfl
  | start note time =>
    rw [h note time rfl]
    rfl
  | tell channel destination index value => cases destination <;> rfl
  | hush channel note => rfl
  | forget => rfl

/-- Once some cues went through, the performer knows when the last note of theirs was started. -/
theorem lastNoteAt_effects (h : ∀ cue ∈ cues, cue.StartsAt now) (performer : Performer) :
    (effects cues performer).lastNoteAt =
      (lastStartAt? (stamp now (cues.filterMap message?))).or performer.lastNoteAt := by
  induction cues generalizing performer with
  | nil => rfl
  | cons cue cues ih =>
    obtain ⟨hcue, hcues⟩ := List.forall_mem_cons.mp h
    have hmessages : (cue :: cues).filterMap message? =
        cue.message?.toList ++ cues.filterMap message? := by
      rw [List.filterMap_cons]
      cases cue.message? <;> rfl
    rw [effects, ih hcues, lastNoteAt_effect hcue, hmessages, stamp, stamp, stamp, List.map_append,
      lastStartAt?_append, Option.or_assoc]

end Cue

namespace Performer

variable {performer : Performer} {now : Nat} {sensor : Sensor}

theorem startsAt_of_mem_cues {cue : Cue} (h : cue ∈ performer.cues now sensor) :
    cue.StartsAt now := by
  rcases List.mem_append.mp h with hnote | hvalue
  · rcases cases_of_mem_noteCues hnote with ⟨note, -, rfl⟩ | ⟨note, -, rfl⟩
    · nofun
    · rintro _ _ ⟨⟩
      rfl
  · obtain ⟨mapping, index, -, rfl⟩ := exists_mapping_of_mem_valueCues hvalue
    nofun

section Console

variable {σ : Type} [Medium σ]

@[simp] theorem lastNoteAt_boot (m : σ) : (boot m).1.lastNoteAt = none := by
  rw [boot, bind_run]
  generalize Saved.lookup m = found
  obtain ⟨saved, m'⟩ := found
  cases saved <;> rfl

@[simp] theorem lastNoteAt_reconfigure (performer : Performer) (text : String) (m : σ) :
    (performer.reconfigure text m).1.performer.lastNoteAt = performer.lastNoteAt := by
  cases hparse : Config.parse text with
  | ok parsed =>
    rw [performer_of_parsed hparse]
    rfl
  | error error =>
    rw [performer_of_rejected hparse]
    rfl

@[simp] theorem lastNoteAt_receiveLine (performer : Performer) (line : String) (m : σ) :
    (performer.receiveLine line m).1.performer.lastNoteAt = performer.lastNoteAt := by
  cases hcompleted : performer.completed? line with
  | some text =>
    rw [receiveLine_of_completed hcompleted]
    exact lastNoteAt_reconfigure _ text m
  | none =>
    rcases performer_of_not_completed hcompleted m with ⟨-, hline⟩ | ⟨-, pending, hline⟩
    all_goals exact (congrArg Performer.lastNoteAt hline).trans rfl

end Console

end Performer

/-! ## What is due -/

namespace Config

variable {config : Config}

theorem notesEnabled_iff :
    config.notesEnabled = true ↔ config.noteMapping?.isSome ∧ config.validNotes.notes ≠ [] := by
  rw [notesEnabled, Bool.and_eq_true, Bool.not_eq_true', NoteTable.isEmpty,
    List.isEmpty_eq_false_iff]

/-- Where notes can be chosen, every reading chooses one. -/
theorem exists_mappedNote (h : config.notesEnabled = true) (reading : Reading) :
    ∃ note, config.mappedNote reading = .ok note := by
  obtain ⟨hmapping, htable⟩ := notesEnabled_iff.mp h
  obtain ⟨mapping, hsome⟩ := Option.isSome_iff_exists.mp hmapping
  rw [mappedNote, hsome]
  exact NoteTable.exists_quantize htable _

end Config

namespace Performer

variable {performer : Performer} {now note : Nat} {sensor : Sensor} {trace : List Stamped}

theorem repeats_iff : performer.repeats now sensor note = true ↔
    sensor.held .c ∧ sensor.held .z ∧
      (∀ start ∈ performer.lastNoteAt, performer.config.autoRepeat ≤ now - start) ∧
      ∀ sounding ∈ performer.sounding, sounding.note ≠ note := by
  rw [repeats, Bool.and_eq_true, Bool.and_eq_true, Bool.and_eq_true, and_assoc, and_assoc,
    Option.all_eq_true]
  refine and_congr_right fun _ => and_congr_right fun _ => and_congr ?_ ?_
  · exact forall₂_congr fun start _ => decide_eq_true_iff
  · cases performer.sounding <;> simp

/-- A performer that knows what is on the wire starts a note where one is due. -/
theorem noteToStart?_isSome_iff (hlast : performer.lastNoteAt = lastStartAt? trace)
    (hsounding : performer.sounding.toList = soundingAfter (trace.map (·.message))) :
    (performer.noteToStart? now sensor).isSome ↔ performer.config.NoteDue sensor now trace := by
  have hother {note : Nat} (hchosen : performer.config.mappedNote sensor.current = .ok note) :
      (∀ sounding ∈ performer.sounding, sounding.note ≠ note) ↔
        ∀ sounding ∈ soundingAfter (trace.map (·.message)),
          performer.config.mappedNote sensor.current ≠ .ok sounding.note := by
    rw [hchosen, ← hsounding]
    exact forall_congr' fun sounding => imp_congr Option.mem_toList.symm
      (by rw [ne_eq, ne_eq, Except.ok.injEq, eq_comm])
  rw [Option.isSome_iff_exists]
  constructor
  · rintro ⟨note, hstarts⟩
    obtain ⟨henabled, hchosen, hwanted⟩ := noteToStart?_eq_some_iff.mp hstarts
    obtain ⟨hmapping, htable⟩ := Config.notesEnabled_iff.mp henabled
    rw [Bool.or_eq_true, repeats_iff, hlast, hother hchosen] at hwanted
    exact ⟨hmapping, htable, hwanted⟩
  · rintro ⟨hmapping, htable, hwanted⟩
    have henabled := Config.notesEnabled_iff.mpr ⟨hmapping, htable⟩
    obtain ⟨note, hchosen⟩ := Config.exists_mappedNote henabled sensor.current
    refine ⟨note, noteToStart?_eq_some_iff.mpr ⟨henabled, hchosen, ?_⟩⟩
    rw [Bool.or_eq_true, repeats_iff, hlast, hother hchosen]
    exact hwanted

end Performer

/-! ## Sessions -/

namespace Session

variable {μ κ : Type} [Medium μ] [Link κ]

/-- The messages that an event puts on the wire. -/
def sent (session : Session μ κ) (event : Event) : List Message :=
  (session.handle event).2.link.wire.drop session.link.wire.length

/-- What the ticks among some events put on the wire, in order. -/
def trace : Session μ κ → List Event → List Stamped
  | _, [] => []
  | session, .tick now :: events =>
    stamp now (session.sent (.tick now)) ++ (session.handle (.tick now)).2.trace events
  | session, event :: events => (session.handle event).2.trace events

/-- Events are traced one after the other. -/
theorem trace_cons (session : Session μ κ) (event : Event) (events : List Event) :
    session.trace (event :: events) =
      session.trace [event] ++ (session.handle event).2.trace events := by
  cases event with
  | tick now =>
    rw [trace, trace, trace, List.append_nil]
  | _ => rfl

theorem sent_of_wire {session : Session μ κ} {event : Event} {messages : List Message}
    (h : (session.handle event).2.link.wire = session.link.wire ++ messages) :
    session.sent event = messages := by
  rw [sent, h, List.drop_left]

theorem trace_tick (session : Session μ κ) (now : Nat) :
    session.trace [.tick now] = stamp now (session.sent (.tick now)) :=
  List.append_nil _

variable (session : Session μ (Logged κ))

/-- What is on the wire was put there by ticks, unless something was silenced. -/
theorem wire_trace {event : Event} (hevent : event ≠ .silence) :
    (session.handle event).2.link.wire =
      session.link.wire ++ (session.trace [event]).map (·.message) := by
  cases event with
  | tick now =>
    obtain ⟨done, -, hwire⟩ := session.wire_handle (.tick now)
    rw [trace_tick, sent_of_wire hwire, map_message_stamp, hwire]
  | silence => exact absurd rfl hevent
  | _ => exact (List.append_nil _).symm

theorem wire_run {events : List Event} (hevents : Event.silence ∉ events) :
    (session.run events).link.wire =
      session.link.wire ++ (session.trace events).map (·.message) := by
  induction events generalizing session with
  | nil => exact (List.append_nil _).symm
  | cons event events ih =>
    rw [List.mem_cons, not_or] at hevents
    rw [run_cons, ih _ hevents.2, session.wire_trace (Ne.symm hevents.1),
      session.trace_cons event events,
      List.map_append, List.append_assoc]

/-- After each event the performer knows when the last note was started. -/
theorem lastNoteAt_handle {event : Event} (hevent : event ≠ .silence) :
    (session.handle event).2.performer.lastNoteAt =
      (lastStartAt? (session.trace [event])).or session.performer.lastNoteAt := by
  cases event with
  | tick now =>
    obtain ⟨done, lost, hplayed⟩ := session.exists_played_tick now
    have hperformer : (session.handle (.tick now)).2.performer =
        Cue.effects done session.performer := hplayed.performer
    have hstarts : ∀ cue ∈ done, cue.StartsAt now :=
      fun cue hcue => startsAt_of_mem_cues (hplayed.split.subset hcue)
    rw [trace_tick, sent_of_wire hplayed.wire, hperformer, Cue.lastNoteAt_effects hstarts]
  | line text => exact lastNoteAt_receiveLine session.performer text session.medium
  | reconfigure text => exact lastNoteAt_reconfigure session.performer text session.medium
  | sense reading => rfl
  | raiseFault => rfl
  | silence => exact absurd rfl hevent

/-- Over a run the performer knows when the last note was started, whatever was lost. -/
theorem lastNoteAt_run {events : List Event} (hevents : Event.silence ∉ events) :
    (session.run events).performer.lastNoteAt =
      (lastStartAt? (session.trace events)).or session.performer.lastNoteAt := by
  induction events generalizing session with
  | nil => rfl
  | cons event events ih =>
    rw [List.mem_cons, not_or] at hevents
    rw [run_cons, ih _ hevents.2, session.lastNoteAt_handle (Ne.symm hevents.1),
      session.trace_cons event events,
      lastStartAt?_append, Option.or_assoc]

variable {session}

/-- A tick that loses nothing plays all its cues. -/
theorem played_of_all_sent {now : Nat}
    (h : ∀ attempt ∈ session.attempted (.tick now), attempt.sent) :
    (session.handle (.tick now)).1 =
        .played (.ok (session.performer.noteToStart? now session.sensor).isSome) ∧
      session.sent (.tick now) = (session.cues (.tick now)).filterMap Cue.message? := by
  rcases session.played_tick now with ⟨hok, hplayed⟩ | ⟨_, done, message, -, hplayed⟩
  · exact ⟨hok, sent_of_wire hplayed.wire⟩
  · have hlost : ⟨message, false⟩ ∈ session.attempted (.tick now) := by
      rw [attempted_of_played hplayed]
      exact List.mem_append_right _ (List.mem_singleton_self _)
    exact absurd (h _ hlost) Bool.false_ne_true

/-- A tick that loses nothing starts the note that is due, and no other. -/
theorem starts?_of_all_sent (hchannel : session.performer.config.channel ≤ 15) {now : Nat}
    (h : ∀ attempt ∈ session.attempted (.tick now), attempt.sent) :
    (session.sent (.tick now)).filterMap Message.starts? =
      (session.performer.noteToStart? now session.sensor).toList.map
        (⟨session.performer.config.channel, ·⟩) := by
  have hcues := filterMap_starts?_cues session.performer now session.sensor
  rw [(played_of_all_sent h).2, List.filterMap_filterMap]
  refine hcues.trans (List.map_congr_left fun note hnote => ?_)
  have hplayable : note ≤ 127 := noteToStart?_le (Option.mem_toList.mp hnote)
  rw [atMost_val hchannel, atMost_val hplayable]

end Session

namespace Session

@[simp] theorem wire_start {μ κ : Type} [Medium μ] [Link κ] (medium : μ) (link : κ) :
    (start medium link).link.wire = [] := rfl

@[simp] theorem lastNoteAt_start {μ κ : Type} [Medium μ] [Link κ] (medium : μ) (link : κ) :
    (start medium link).performer.lastNoteAt = none :=
  lastNoteAt_boot medium

end Session

/-- In every session that nothing silences, a tick that loses no message starts the note that the
reading chooses, on the active channel, if one is due, and none otherwise. When the last note was
started, and which one sounds, is what the messages on the wire tell. -/
theorem note_starts_iff_due {μ κ : Type} [Medium μ] [Link κ] (medium : μ) (link : κ)
    (events : List Event) (hevents : Event.silence ∉ events) (now : Nat) (sensor : Sensor) :
    let start := Session.start medium (Logged.mk link [])
    let session := { start.run events with sensor }
    let config := session.performer.config
    let trace := start.trace events
    session.link.wire = trace.map (·.message) ∧
      session.performer.lastNoteAt = lastStartAt? trace ∧
      session.performer.sounding.toList = soundingAfter (trace.map (·.message)) ∧
      ((∀ attempt ∈ session.attempted (.tick now), attempt.sent) →
        ∃ triggered, (session.handle (.tick now)).1 = .played (.ok triggered) ∧
          (config.NoteDue sensor now trace → triggered = true ∧
            ∃ note, config.mappedNote sensor.current = .ok note ∧
              (session.sent (.tick now)).filterMap Message.starts? = [⟨config.channel, note⟩]) ∧
          (¬config.NoteDue sensor now trace → triggered = false ∧
            (session.sent (.tick now)).filterMap Message.starts? = [])) := by
  intro start session config trace
  have hwire : session.link.wire = trace.map (·.message) := by
    refine (start.wire_run hevents).trans ?_
    rw [Session.wire_start, List.nil_append]
  have hlast : session.performer.lastNoteAt = lastStartAt? trace := by
    refine (start.lastNoteAt_run hevents).trans ?_
    rw [Session.lastNoteAt_start, Option.or_none]
  obtain ⟨sounding, htune⟩ : session.stage.Tracked :=
    Session.tracked_run ⟨none, Session.inTune_start medium (Logged.mk link [])⟩ hevents
  have hsounding : session.performer.sounding.toList =
      soundingAfter (trace.map (·.message)) := by
    rw [show session.performer.sounding = _ from htune.settled.sounding, ← hwire]
    exact htune.paired.sounds.symm
  refine ⟨hwire, hlast, hsounding, fun hsent => ?_⟩
  obtain ⟨hok, -⟩ := Session.played_of_all_sent hsent
  have hchannel : session.performer.config.channel ≤ 15 := htune.settled.writable.channel.2
  have hstarts := Session.starts?_of_all_sent hchannel hsent
  have hdue : (session.performer.noteToStart? now session.sensor).isSome ↔
      config.NoteDue sensor now trace :=
    noteToStart?_isSome_iff hlast hsounding
  have hchosen {note : Nat}
      (hnote : session.performer.noteToStart? now session.sensor = some note) :
      config.mappedNote sensor.current = .ok note := (of_noteToStart? hnote).1
  generalize session.performer.noteToStart? now session.sensor = note? at *
  refine ⟨note?.isSome, hok, fun h => ?_, fun h => ?_⟩
  · obtain ⟨note, rfl⟩ := Option.isSome_iff_exists.mp (hdue.mpr h)
    exact ⟨rfl, note, hchosen rfl, hstarts⟩
  · obtain rfl : note? = none := Option.not_isSome_iff_eq_none.mp fun hsome => h (hdue.mp hsome)
    exact ⟨rfl, hstarts⟩

/-- C and Z are held, the channel changes, and another note is played as soon as it may be. -/
theorem note_starts_iff_due_repeat :
    let settings := "SCALE 0 4 7 OCTAVES 3 3 BPM 120 DIV 0.5 MAP ax 0 1 60 67 note"
    let events := [.reconfigure settings, .sense { buttonC := true, buttonZ := true }, .tick 1000,
      .reconfigure ("CHAN 2 " ++ settings)]
    let sensor : Sensor := ⟨{ accelX := 1, buttonC := true, buttonZ := true },
      { buttonC := true, buttonZ := true }⟩
    let start := Session.start (Region.erased ⟨32, 16, 192⟩) (Logged.mk ({} : Recorder) [])
    let session := { start.run events with sensor }
    let due (now : Nat) := session.performer.config.NoteDue sensor now (start.trace events)
    Event.silence ∉ events ∧
      (∀ attempt ∈ session.attempted (.tick 251000), attempt.sent) ∧
      (∀ attempt ∈ session.attempted (.tick 250999), attempt.sent) ∧
      due 251000 ∧ (session.sent (.tick 251000)).filterMap Message.starts? = [⟨2, 67⟩] ∧
      ¬due 250999 ∧ (session.sent (.tick 250999)).filterMap Message.starts? = [] := by
  intro settings events sensor start session due
  have hevents : Event.silence ∉ events := by
    decide
  obtain ⟨hsent, hsent', hdue, hdue', hsame, hchannel⟩ :
      (∀ attempt ∈ session.attempted (.tick 251000), attempt.sent) ∧
        (∀ attempt ∈ session.attempted (.tick 250999), attempt.sent) ∧
        due 251000 ∧ ¬due 250999 ∧
        session.performer.config.mappedNote sensor.current = .ok 67 ∧
        (start.run events).performer.config.channel = 2 := by
    decide +kernel
  obtain ⟨-, -, -, htick⟩ := note_starts_iff_due (Region.erased ⟨32, 16, 192⟩) ({} : Recorder)
    events hevents 251000 sensor
  obtain ⟨-, -, -, htick'⟩ := note_starts_iff_due (Region.erased ⟨32, 16, 192⟩) ({} : Recorder)
    events hevents 250999 sensor
  obtain ⟨_, -, hstarts, -⟩ := htick hsent
  obtain ⟨_, -, -, hidle⟩ := htick' hsent'
  obtain ⟨-, note, hchosen, hnote⟩ := hstarts hdue
  obtain rfl : 67 = note := Except.ok.inj (hsame.symm.trans hchosen)
  rw [hchannel] at hnote
  exact ⟨hevents, hsent, hsent', hdue, hnote, hdue', (hidle hdue').2⟩

end MotionMidi
