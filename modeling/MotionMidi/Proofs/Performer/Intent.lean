import MotionMidi.Flash.Region
import MotionMidi.Proofs.Midi.Stream
import MotionMidi.Proofs.Performer.Attempts
import MotionMidi.Proofs.Performer.Notes
import MotionMidi.Proofs.Performer.Replies

/-!
# What messages are meant to say

Every message that is handed to the link says what it is meant to say: no number ever has to be
brought into range for it. So whoever reads the bytes gets back just what was meant.

## Main definitions

- `Midi.lastStarted?` — the note that was started last
- `Stage.KeepsTrack` — the note that the performer keeps track of was started last
- `Session.Intends` — the data that an event is meant to send
- `Session.Hands` — an event hands a message over
- `Handed`, `Means` — a message is handed over in some session, and what it is meant to say

Main statement: `messages_decodable`.
-/

namespace MotionMidi

open Flash Midi Performer

/-! ## Notes that were started -/

namespace Midi

/-- The note that a message starts. -/
def Message.starts? : Message → Option Sounding
  | .noteOn channel note _ => some ⟨channel, note⟩
  | _ => none

/-- The note that was started last. -/
def lastStarted? (wire : List Message) : Option Sounding :=
  (wire.filterMap Message.starts?).getLast?

theorem lastStarted?_append (wire : List Message) (message? : Option Message) :
    lastStarted? (wire ++ message?.toList) =
      (message?.bind Message.starts?).or (lastStarted? wire) := by
  rw [lastStarted?, List.filterMap_append, List.getLast?_append]
  cases message? with
  | none => rfl
  | some message =>
    rw [Option.toList_some, List.filterMap_cons, Option.bind_some]
    cases message.starts? <;> rfl

end Midi

/-- The active configuration can be written, and the note that the performer keeps track of was
started last. -/
structure Stage.KeepsTrack {κ : Type} (stage : Stage (Tapped κ)) : Prop where
  writable : stage.performer.config.Writable
  playable : ∀ note ∈ stage.performer.sounding, note.Playable
  started : ∀ note ∈ stage.performer.sounding, lastStarted? stage.link.wire = some note

/-- A note that is started can be played. -/
def Cue.Playable (cue : Cue) : Prop :=
  ∀ note now, cue = .start note now → note.Playable

namespace Stage

variable {κ : Type} {stage : Stage (Tapped κ)} {link : Tapped κ}

/-- Once nothing sounds, there is nothing to keep track of. -/
theorem KeepsTrack.forget (h : stage.KeepsTrack) {performer : Performer}
    (hconfig : performer.config = stage.performer.config) (hsounding : performer.sounding = none) :
    KeepsTrack ⟨performer, link⟩ := by
  refine ⟨?_, ?_, ?_⟩
  · rw [hconfig]
    exact h.writable
  · rw [hsounding]
    nofun
  · rw [hsounding]
    nofun

/-- What starts no note leaves the one that was started last. -/
theorem KeepsTrack.other (h : stage.KeepsTrack) {performer : Performer}
    (hconfig : performer.config = stage.performer.config)
    (hsounding : performer.sounding = stage.performer.sounding)
    (hwire : lastStarted? link.wire = lastStarted? stage.link.wire) :
    KeepsTrack ⟨performer, link⟩ := by
  refine ⟨?_, ?_, ?_⟩
  · rw [hconfig]
    exact h.writable
  · rw [hsounding]
    exact h.playable
  · rw [hsounding, hwire]
    exact h.started

theorem KeepsTrack.effect (h : stage.KeepsTrack) {cue : Cue} (hcue : cue.Playable)
    (hwire : link.wire = stage.link.wire ++ cue.message?.toList) :
    KeepsTrack ⟨cue.effect stage.performer, link⟩ := by
  have hlast : lastStarted? link.wire =
      (cue.message?.bind Message.starts?).or (lastStarted? stage.link.wire) := by
    rw [hwire, lastStarted?_append]
  cases cue with
  | release note => exact h.forget rfl rfl
  | start note now =>
    have hplayable : note.Playable := hcue note now rfl
    have hstarted : lastStarted? link.wire = some note := by
      rw [hlast]
      change (some (Sounding.mk (atMost 15 note.channel).val (atMost 127 note.note).val)).or _ = _
      rw [atMost_val hplayable.1, atMost_val hplayable.2]
      rfl
    refine ⟨h.writable, ?_, ?_⟩
    · rintro _ ⟨⟩
      exact hplayable
    · rintro _ ⟨⟩
      exact hstarted
  | tell channel destination index value =>
    refine h.other rfl rfl (hlast.trans ?_)
    cases destination <;> rfl
  | hush channel note => exact h.other rfl rfl hlast
  | forget => exact h.forget rfl rfl

end Stage

namespace Performer

variable {κ : Type} [Link κ]

theorem keepsTrack_play {cue : Cue} (hcue : cue.Playable) :
    Keeps Stage.KeepsTrack (play cue : Playing (Tapped κ) Unit) :=
  leads_play (fun _ h _ hwire => h.effect hcue hwire)
    fun _ h _ hwire => h.other rfl rfl (congrArg lastStarted? hwire)

variable {performer : Performer} {now : Nat} {sensor : Sensor} {cue : Cue}

theorem playable_of_mem_cues (h : performer.config.Writable)
    (hcue : cue ∈ performer.cues now sensor) : cue.Playable := by
  rcases List.mem_append.mp hcue with hnote | hvalue
  · rcases cases_of_mem_noteCues hnote with ⟨note, -, rfl⟩ | ⟨note, hchosen, rfl⟩
    · nofun
    · rintro _ _ ⟨⟩
      exact ⟨h.channel.2, noteToStart?_le hchosen⟩
  · obtain ⟨mapping, index, -, rfl⟩ := exists_mapping_of_mem_valueCues hvalue
    nofun

theorem playable_of_mem_silenceCues (hcue : cue ∈ performer.silenceCues) : cue.Playable := by
  rcases cases_of_mem_silenceCues hcue with ⟨note, -, -, rfl⟩ | rfl
  · nofun
  · nofun

end Performer

/-! ## Sessions -/

namespace Session

variable {μ κ : Type}

/-- The data that an event is meant to send: a tick releases the note that was started last, starts
the note that the reading chooses, and sends the values of mappings, and silencing releases notes on
the active channel. -/
inductive Intends (session : Session μ κ) : Event → Voice → Prop where
  | release {now : Nat} {note : Sounding} (sounding : session.performer.sounding = some note)
      (started : lastStarted? session.link.wire = some note) :
      session.Intends (.tick now) (.noteOff note.channel note.note 0)
  | start {now note : Nat}
      (chosen : session.performer.config.mappedNote session.sensor.current = .ok note) :
      session.Intends (.tick now) (.noteOn session.performer.config.channel note 127)
  | control {now controller : Nat} {mapping : Mapping}
      (mem : mapping ∈ session.performer.config.mappings)
      (destination : mapping.destination = .controlChange controller) :
      session.Intends (.tick now) (.controlChange session.performer.config.channel controller
        (min (mapping.value session.sensor.current) 127))
  | bend {now : Nat} {mapping : Mapping} (mem : mapping ∈ session.performer.config.mappings)
      (destination : mapping.destination = .pitchBend) :
      session.Intends (.tick now) (.pitchBend session.performer.config.channel
        (min (mapping.value session.sensor.current) 0x3fff))
  | hush {note : Nat} (lowest : 1 ≤ note) (highest : note ≤ 119) :
      session.Intends .silence (.noteOff session.performer.config.channel note 0)

section KeepsTrack

variable {session : Session μ κ}

theorem keepsTrack_answer (h : session.stage.KeepsTrack) {reply : StateM μ Reply}
    (hreply : Returns (Performer.Settled session.performer.sounding ·.performer) reply) :
    (session.answer reply).2.stage.KeepsTrack := by
  obtain ⟨hwritable, hsounding⟩ := hreply session.medium
  exact ⟨hwritable, hsounding ▸ h.playable, hsounding ▸ h.started⟩

variable [Medium μ]

theorem keepsTrack_start (medium : μ) (link : κ) : (start medium link).stage.KeepsTrack := by
  obtain ⟨hwritable, hsounding⟩ := settled_boot medium
  refine ⟨hwritable, fun note hnote => ?_, fun note hnote => ?_⟩
  · cases hsounding.symm.trans hnote
  · cases hsounding.symm.trans hnote

variable [Link κ]

theorem keepsTrack_handle (h : session.stage.KeepsTrack) (event : Event) :
    (session.handle event).2.stage.KeepsTrack := by
  cases event with
  | sense reading => exact h
  | tick now =>
    refine stage_play (keeps_tick_of_cues fun stage hstage cue hcue => ?_) h
    exact keepsTrack_play (playable_of_mem_cues hstage.writable hcue)
  | line text => exact keepsTrack_answer h (settled_receiveLine h.writable text)
  | reconfigure text => exact keepsTrack_answer h (settled_reconfigure session.performer text)
  | raiseFault => exact h.other rfl rfl rfl
  | silence =>
    refine stage_play (keeps_silence_of_cues fun stage _ cue hcue => ?_) h
    exact keepsTrack_play (playable_of_mem_silenceCues hcue)

theorem keepsTrack_run (h : session.stage.KeepsTrack) (events : List Event) :
    (session.run events).stage.KeepsTrack :=
  keeps_run (P := (·.stage.KeepsTrack)) (fun _ h event _ => keepsTrack_handle h event) h

end KeepsTrack

variable {session : Session μ (Logged κ)}

/-- The value of a mapping is sent in the range of its destination. -/
theorem exists_intended_of_tell (h : session.performer.config.Writable) {now index : Nat}
    {mapping : Mapping} (hmapping : mapping ∈ session.performer.config.mappings)
    {message : Message}
    (hmessage : (session.performer.tell session.sensor.current (mapping, index)).message? =
      some message) :
    ∃ voice, session.Intends (.tick now) voice ∧ voice.InRange ∧ message = .ofVoice voice := by
  change message? _ mapping.destination _ = some message at hmessage
  cases hdestination : mapping.destination with
  | controlChange controller =>
    rw [hdestination] at hmessage
    cases hmessage
    have hcontroller := (h.mapping mapping hmapping).controller controller hdestination
    exact ⟨_, .control hmapping hdestination,
      ⟨h.channel.2, hcontroller.2, Nat.min_le_right ..⟩, rfl⟩
  | pitchBend =>
    rw [hdestination] at hmessage
    cases hmessage
    exact ⟨_, .bend hmapping hdestination, ⟨h.channel.2, Nat.min_le_right ..⟩, rfl⟩
  | note =>
    rw [hdestination] at hmessage
    cases hmessage

/-- Whatever a cue sends is intended. -/
theorem exists_intended (h : session.stage.KeepsTrack) {event : Event} {cue : Cue}
    (hcue : cue ∈ session.cues event) {message : Message} (hmessage : cue.message? = some message) :
    ∃ voice, session.Intends event voice ∧ voice.InRange ∧ message = .ofVoice voice := by
  cases event with
  | tick now =>
    rcases List.mem_append.mp hcue with hnote | hvalue
    · rcases cases_of_mem_noteCues hnote with ⟨note, hsounding, rfl⟩ | ⟨note, hchosen, rfl⟩
      · cases hmessage
        have hplayable := h.playable note hsounding
        exact ⟨_, .release hsounding (h.started note hsounding),
          ⟨hplayable.1, hplayable.2, Nat.zero_le _⟩, rfl⟩
      · cases hmessage
        exact ⟨_, .start (of_noteToStart? hchosen).1,
          ⟨h.writable.channel.2, noteToStart?_le hchosen, Nat.le_refl _⟩, rfl⟩
    · obtain ⟨mapping, index, hmapping, rfl⟩ := exists_mapping_of_mem_valueCues hvalue
      exact exists_intended_of_tell h.writable hmapping hmessage
  | silence =>
    rcases cases_of_mem_silenceCues hcue with ⟨note, hlow, hhigh, rfl⟩ | rfl
    · cases hmessage
      exact ⟨_, .hush hlow hhigh, ⟨h.writable.channel.2, by omega, Nat.zero_le _⟩, rfl⟩
    · cases hmessage
  | sense reading => cases hcue
  | line text => cases hcue
  | reconfigure text => cases hcue
  | raiseFault => cases hcue

variable [Medium μ] [Link κ]

/-- An event hands a message to the link, which may lose it. -/
def Hands (session : Session μ (Logged κ)) (event : Event) (message : Message) : Prop :=
  ∃ attempt ∈ session.attempted event, attempt.message = message

theorem Hands.exists_intended {event : Event} {message : Message}
    (h : session.Hands event message) (htrack : session.stage.KeepsTrack) :
    ∃ voice, session.Intends event voice ∧ voice.InRange ∧ message.Carries voice := by
  obtain ⟨attempt, hattempt, rfl⟩ := h
  obtain ⟨cue, hcue, hmessage⟩ := session.exists_cue_of_attempted hattempt
  obtain ⟨voice, hintended, hrange, hvoice⟩ := Session.exists_intended htrack hcue hmessage
  refine ⟨voice, hintended, hrange, ?_⟩
  rw [hvoice]
  exact Message.carries_ofVoice hrange

end Session

/-! ## Meanings -/

section Meanings

variable (μ κ : Type) [Medium μ] [Link κ]

/-- A message is handed over in some session. -/
def Handed (message : Message) : Prop :=
  ∃ (medium : μ) (link : κ) (events : List Event) (event : Event),
    ((Session.start medium (Logged.mk link [])).run events).Hands event message

/-- A message carries some data, and these are intended wherever it is handed over. -/
structure Means (message : Message) (voice : Voice) : Prop where
  inRange : voice.InRange
  carries : message.Carries voice
  intended : ∀ (medium : μ) (link : κ) (events : List Event) (event : Event),
    let session := (Session.start medium (Logged.mk link [])).run events
    session.Hands event message → session.Intends event voice

variable {μ κ} {messages : List Message}

theorem Handed.exists_means {message : Message} (h : Handed μ κ message) :
    ∃ voice, Means μ κ message voice := by
  have htrack (medium : μ) (link : κ) (events : List Event) :
      ((Session.start medium (Logged.mk link [])).run events).stage.KeepsTrack :=
    Session.keepsTrack_run (Session.keepsTrack_start medium _) events
  obtain ⟨medium, link, events, event, hhands⟩ := h
  obtain ⟨voice, -, hrange, hcarries⟩ := hhands.exists_intended (htrack medium link events)
  refine ⟨voice, hrange, hcarries, fun medium link events event hhands => ?_⟩
  obtain ⟨other, hintended, hother, hcarried⟩ :=
    hhands.exists_intended (htrack medium link events)
  rwa [hcarries.voice_unique hcarried hrange hother]

theorem exists_forall_means (h : ∀ message ∈ messages, Handed μ κ message) :
    ∃ voices, List.Forall₂ (Means μ κ) messages voices := by
  induction messages with
  | nil => exact ⟨[], .nil⟩
  | cons message messages ih =>
    obtain ⟨hmessage, hmessages⟩ := List.forall_mem_cons.mp h
    obtain ⟨voice, hvoice⟩ := hmessage.exists_means
    obtain ⟨voices, hvoices⟩ := ih hmessages
    exact ⟨voice :: voices, .cons hvoice hvoices⟩

theorem forall_inRange_of_means {voices : List Voice}
    (h : List.Forall₂ (Means μ κ) messages voices) : ∀ voice ∈ voices, voice.InRange := by
  induction h with
  | nil => nofun
  | cons hmeans _ ih => exact List.forall_mem_cons.mpr ⟨hmeans.inRange, ih⟩

end Meanings

/-- Every message that is handed over in a session has three bytes: a status byte with a channel,
and two data bytes. Whatever such messages are sent, their bytes split into them in one way only,
and give back just what each of them was meant to say. -/
theorem messages_decodable {μ κ : Type} [Medium μ] [Link κ] (messages : List Message)
    (hmessages : ∀ message ∈ messages, Handed μ κ message) :
    (∀ message ∈ messages, ∃ bytes, message.encode? = some bytes ∧
        Framed (bytes.map UInt8.toNat)) ∧
      (∃ voices, List.Forall₂ (Means μ κ) messages voices ∧
        Voice.split? (stream messages) = some voices ∧
        ∀ others : List Voice, (∀ voice ∈ others, voice.InRange) →
          others.flatMap Voice.bytes = stream messages → others = voices) ∧
      ∀ others : List Message, (∀ message ∈ others, Handed μ κ message) →
        stream others = stream messages → others = messages := by
  obtain ⟨voices, hvoices⟩ := exists_forall_means hmessages
  have hcarries := hvoices.imp fun _ _ => Means.carries
  have hrange := forall_inRange_of_means hvoices
  have hsplit := split?_stream hcarries hrange
  refine ⟨fun message hmessage => ?_, ⟨voices, hvoices, hsplit, fun others hothers hbytes => ?_⟩,
    fun others hothers hstream => ?_⟩
  · obtain ⟨voice, hmeans⟩ := (hmessages message hmessage).exists_means
    obtain ⟨bytes, hencode, hbytes⟩ := hmeans.carries
    refine ⟨bytes, hencode, ?_⟩
    rw [hbytes]
    exact Voice.framed_bytes hmeans.inRange
  · have hread := Voice.split?_eq_some_iff.mpr ⟨hothers, hbytes.symm⟩
    exact Option.some.inj (hread.symm.trans hsplit)
  · obtain ⟨othervoices, hmeans⟩ := exists_forall_means hothers
    exact eq_of_stream_eq hcarries (hmeans.imp fun _ _ => Means.carries) hrange
      (forall_inRange_of_means hmeans) hstream

/-- A note, a controller and a bend in one tick, of which the bend is lost. -/
theorem messages_decodable_tick :
    let session := (Session.start (Region.erased ⟨32, 16, 96⟩)
      (Logged.mk ({ left := some 2 } : Recorder) [])).run
        [.reconfigure "CHAN 3 SCALE 0 OCTAVES 3 3 MAP ax note MAP jx cc 16 MAP jy pb",
          .sense { buttonZ := true }]
    let messages := (session.attempted (.tick 0)).map (·.message)
    (∀ message ∈ messages, Handed Region Recorder message) ∧
      stream messages = [0x93, 60, 127, 0xb3, 16, 64, 0xe3, 0, 64] ∧
      List.Forall₂ (Means Region Recorder) messages
        [.noteOn 3 60 127, .controlChange 3 16 64, .pitchBend 3 0x2000] := by
  intro session messages
  have hmessages : ∀ message ∈ messages, Handed Region Recorder message := by
    intro message hmessage
    exact ⟨_, _, _, .tick 0, List.mem_map.mp hmessage⟩
  have hstream : stream messages = [0x93, 60, 127, 0xb3, 16, 64, 0xe3, 0, 64] := by
    decide +kernel
  obtain ⟨-, ⟨voices, hmeans, hsplit, -⟩, -⟩ := messages_decodable messages hmessages
  rw [hstream] at hsplit
  cases hsplit
  exact ⟨hmessages, hstream, hmeans⟩

end MotionMidi
