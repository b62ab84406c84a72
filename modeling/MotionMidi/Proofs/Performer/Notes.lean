import MotionMidi.Flash.Region
import MotionMidi.Proofs.Midi.Stream
import MotionMidi.Proofs.Performer.Settings
import MotionMidi.Proofs.Session

/-!
# Notes on the wire

Notes are started and released in turn, whatever messages are lost and whatever configurations come
and go in between.

## Main definitions

- `Midi.soundingAfter` — the notes that sound once some messages were received
- `Performer.attack` — the message that starts a note
- `Paired` — messages that start and release one note after the other
- `Stage.InTune` — the note that the performer keeps track of is the one that sounds

Main statement: `notes_alternate`.
-/

namespace MotionMidi

open Flash Midi

/-! ## Messages -/

/-- Both numbers fit into a message. -/
def Sounding.Playable (sounding : Sounding) : Prop :=
  sounding.channel ≤ 15 ∧ sounding.note ≤ 127

namespace Midi

/-- The message starts or releases a note. -/
def Message.isNote : Message → Bool
  | .noteOn .. => true
  | .noteOff .. => true
  | _ => false

/-- The notes that sound once a message was received. -/
def hear (notes : List Sounding) : Message → List Sounding
  | .noteOn channel note _ => notes ++ [⟨channel, note⟩]
  | .noteOff channel note _ => notes.filter (· ≠ ⟨channel, note⟩)
  | _ => notes

/-- The notes that sound once some messages were received. -/
def soundingAfter (wire : List Message) : List Sounding :=
  wire.foldl hear []

theorem soundingAfter_concat (wire : List Message) (message : Message) :
    soundingAfter (wire ++ [message]) = hear (soundingAfter wire) message := by
  rw [soundingAfter, List.foldl_append]
  rfl

theorem hear_of_not_isNote (notes : List Sounding) {message : Message}
    (h : message.isNote = false) : hear notes message = notes := by
  cases message <;> first | rfl | cases h

end Midi

namespace Performer

/-- Starts a note. -/
def attack (sounding : Sounding) : Message :=
  Midi.noteOn sounding.channel sounding.note noteVelocity

theorem hear_attack {sounding : Sounding} (h : sounding.Playable) (notes : List Sounding) :
    hear notes (attack sounding) = notes ++ [sounding] := by
  rw [attack, Midi.noteOn, hear, atMost_val h.1, atMost_val h.2]

theorem hear_release {sounding : Sounding} (h : sounding.Playable) :
    hear [sounding] (release sounding) = [] := by
  rw [release, Midi.noteOff, hear, atMost_val h.1, atMost_val h.2]
  simp

theorem isNote_of_message? {channel value : Nat} {destination : Destination} {message : Message}
    (h : message? channel destination value = some message) : message.isNote = false := by
  cases destination <;> cases h <;> rfl

end Performer

open Performer

/-- The messages start and release one note after the other. Each one is released before the next
one is started, and the one that is still to be released is the one that sounds. -/
structure Paired (sounding : Option Sounding) (wire : List Message) : Prop where
  pairs : ∃ played : List Sounding, wire.filter Message.isNote =
    played.flatMap (fun note => [attack note, release note]) ++ sounding.toList.map attack
  sounds : soundingAfter wire = sounding.toList
  single : ∀ front, front <+: wire → (soundingAfter front).length ≤ 1
  playable : ∀ note ∈ sounding, note.Playable

namespace Paired

variable {wire : List Message} {sounding : Option Sounding}

theorem nil : Paired none [] := by
  refine ⟨⟨[], rfl⟩, rfl, ?_, by simp⟩
  intro front hfront
  rw [List.prefix_nil.mp hfront]
  exact Nat.zero_le 1

/-- One more message leaves at most one note sounding. -/
theorem single_concat (h : Paired sounding wire) {message : Message} {after : Option Sounding}
    (hafter : soundingAfter (wire ++ [message]) = after.toList) (front : List Message)
    (hfront : front <+: wire ++ [message]) : (soundingAfter front).length ≤ 1 := by
  rcases List.prefix_concat_iff.mp hfront with rfl | hfront
  · rw [hafter]
    cases after <;> simp
  · exact h.single front hfront

theorem other (h : Paired sounding wire) {message : Message} (hm : message.isNote = false) :
    Paired sounding (wire ++ [message]) := by
  have hsounds : soundingAfter (wire ++ [message]) = sounding.toList := by
    rw [soundingAfter_concat, hear_of_not_isNote _ hm, h.sounds]
  refine ⟨?_, hsounds, h.single_concat hsounds, h.playable⟩
  rw [List.filter_append, List.filter_cons_of_neg (by simp [hm]), List.filter_nil, List.append_nil]
  exact h.pairs

theorem released {note : Sounding} (h : Paired (some note) wire) :
    Paired none (wire ++ [release note]) := by
  have hsounds : soundingAfter (wire ++ [release note]) = (none : Option Sounding).toList := by
    rw [soundingAfter_concat, h.sounds]
    exact hear_release (h.playable note rfl)
  refine ⟨?_, hsounds, h.single_concat hsounds, by simp⟩
  obtain ⟨played, hplayed⟩ := h.pairs
  refine ⟨played ++ [note], ?_⟩
  rw [List.filter_append, hplayed, List.flatMap_append]
  simp [release, Midi.noteOff, Message.isNote]

theorem started (h : Paired none wire) {note : Sounding} (hnote : note.Playable) :
    Paired (some note) (wire ++ [attack note]) := by
  have hsounds : soundingAfter (wire ++ [attack note]) = (some note).toList := by
    rw [soundingAfter_concat, hear_attack hnote, h.sounds]
    rfl
  refine ⟨?_, hsounds, h.single_concat hsounds, ?_⟩
  · obtain ⟨played, hplayed⟩ := h.pairs
    refine ⟨played, ?_⟩
    rw [List.filter_append, hplayed]
    simp [attack, Midi.noteOn, Message.isNote]
  · rintro _ ⟨⟩
    exact hnote

end Paired

/-! ## Ticks -/

variable {κ : Type}

/-- A given note sounds, and the performer keeps track of it. -/
structure Stage.InTune (sounding : Option Sounding) (stage : Stage (Tapped κ)) : Prop where
  settled : stage.performer.Settled sounding
  paired : Paired sounding stage.link.wire

/-- The performer keeps track of whatever sounds. -/
def Stage.Tracked (stage : Stage (Tapped κ)) : Prop :=
  ∃ sounding, stage.InTune sounding

namespace Performer

variable [Link κ] {stage : Stage (Tapped κ)}

theorem send_cases (message : Message) (stage : Stage (Tapped κ)) :
    (∃ link, send message stage = .ok () ⟨stage.performer, link⟩ ∧
        link.wire = stage.link.wire ++ [message]) ∨
      ∃ failure link, send message stage = .error failure ⟨stage.performer, link⟩ ∧
        link.wire = stage.link.wire := by
  cases h : Link.send message stage.link.link with
  | ok a link =>
    refine .inl ⟨⟨link, stage.link.wire ++ [message]⟩, ?_, rfl⟩
    simp only [send, Link.send, Tapped.send, h]
  | error failure link =>
    refine .inr ⟨failure, ⟨link, stage.link.wire⟩, ?_, rfl⟩
    simp only [send, Link.send, Tapped.send, h]

/-- A cue takes effect once its message is on the wire. If the message is lost, nothing changes. -/
theorem leads_play {P Q E : Stage (Tapped κ) → Prop} {cue : Cue}
    (hplayed : ∀ stage, P stage → ∀ link : Tapped κ,
      link.wire = stage.link.wire ++ cue.message?.toList → Q ⟨cue.effect stage.performer, link⟩)
    (hlost : ∀ stage, P stage → ∀ link : Tapped κ,
      link.wire = stage.link.wire → E ⟨stage.performer, link⟩) :
    Leads P (play cue : Playing (Tapped κ) Unit) Q E := by
  intro stage h
  have hdone := hplayed stage h
  cases hmessage : cue.message? with
  | none =>
    rw [play_of_silent hmessage]
    refine hdone stage.link ?_
    rw [hmessage, Option.toList_none, List.append_nil]
  | some message =>
    rw [hmessage] at hdone
    rw [play_of_message hmessage]
    rcases send_cases message stage with ⟨link, hsend, hwire⟩ | ⟨failure, link, hsend, hwire⟩
    · rw [bind_of_ok hsend]
      exact hdone link hwire
    · rw [bind_of_error hsend]
      exact hlost stage h link hwire

variable {sounding : Option Sounding}

theorem leads_send {message : Message} (hm : message.isNote = false) :
    Leads (Stage.InTune sounding) (send message : Playing (Tapped κ) Unit)
      (Stage.InTune sounding) Stage.Tracked := by
  intro stage h
  rcases send_cases message stage with ⟨link, hsend, hwire⟩ | ⟨failure, link, hsend, hwire⟩
  · rw [hsend]
    refine ⟨h.settled, ?_⟩
    rw [hwire]
    exact h.paired.other hm
  · rw [hsend]
    refine ⟨sounding, h.settled, ?_⟩
    rw [hwire]
    exact h.paired

/-- A release that is lost leaves the note to be released later. -/
theorem leads_releaseSounding :
    Leads (Stage.InTune sounding) (releaseSounding : Playing (Tapped κ) Unit)
      (Stage.InTune none) Stage.Tracked := by
  intro stage h
  have hsounding := h.settled.sounding
  cases sounding with
  | none =>
    rw [releaseSounding, get_bind]
    simp only [hsounding]
    exact h
  | some note =>
    have hrun : releaseSounding stage = play (.release note) stage := by
      rw [releaseSounding, get_bind]
      simp only [hsounding]
      rfl
    rw [hrun]
    -- The note is forgotten only once its release went through.
    refine leads_play (fun stage h link hwire => ?_) (fun stage h link hwire => ?_) stage h
    · refine ⟨⟨h.settled.writable, rfl⟩, ?_⟩
      change Paired none link.wire
      rw [hwire]
      exact h.paired.released
    · refine ⟨some note, h.settled, ?_⟩
      rw [hwire]
      exact h.paired

theorem leads_attack (now : Nat) {note : Sounding} (hnote : note.Playable) :
    Leads (Stage.InTune none)
      (send (attack note) >>= fun _ =>
        update ({ · with sounding := some note, lastNoteAt := some now }) : Playing (Tapped κ) Unit)
      Stage.Tracked Stage.Tracked := by
  change Leads (Stage.InTune none) (play (.start note now)) Stage.Tracked Stage.Tracked
  apply leads_play
  · intro stage h link hwire
    refine ⟨some note, ⟨h.settled.writable, rfl⟩, ?_⟩
    change Paired (some note) link.wire
    rw [hwire]
    exact h.paired.started hnote
  · intro stage h link hwire
    refine ⟨none, h.settled, ?_⟩
    rw [hwire]
    exact h.paired

theorem leads_startNote (now : Nat) {note : Nat} (hnote : note ≤ 127) :
    Leads (Stage.InTune sounding) (startNote now note : Playing (Tapped κ) Unit)
      Stage.Tracked Stage.Tracked := by
  refine leads_releaseSounding.bind fun _ => Leads.get_bind fun stage h => ?_
  -- Nothing sounds by now, and the new note goes out on the channel that is active.
  have hplayable : (Sounding.mk stage.performer.config.channel note).Playable :=
    ⟨h.settled.writable.channel.2, hnote⟩
  exact leads_attack now hplayable

/-- Only notes of a table are ever started. -/
theorem mem_validNotes_of_noteToStart? {performer : Performer} {now : Nat} {sensor : Sensor}
    {note : Nat} (h : performer.noteToStart? now sensor = some note) :
    note ∈ performer.config.validNotes.notes := by
  obtain ⟨hmapped, -⟩ := of_noteToStart? h
  unfold Config.mappedNote at hmapped
  split at hmapped
  case h_1 => cases hmapped
  case h_2 => exact NoteTable.mem_of_quantize hmapped

theorem noteToStart?_le {performer : Performer} {now : Nat} {sensor : Sensor} {note : Nat}
    (h : performer.noteToStart? now sensor = some note) : note ≤ 127 :=
  NoteTable.playable_build _ _ _ _ _ (mem_validNotes_of_noteToStart? h)

theorem lowestNote_le_of_noteToStart? {performer : Performer} {now : Nat} {sensor : Sensor}
    {note : Nat} (h : performer.noteToStart? now sensor = some note) :
    NoteTable.lowestNote ≤ note :=
  NoteTable.lowestNote_le_of_mem_build (mem_validNotes_of_noteToStart? h)

theorem leads_sendValue (reading : Reading) (mapping : Mapping) (index : Nat) :
    Leads (Stage.InTune sounding) (sendValue reading mapping index : Playing (Tapped κ) Unit)
      (Stage.InTune sounding) Stage.Tracked := by
  refine Leads.get_bind fun stage _ => ?_
  have hupdate (value : Nat) : Leads (Stage.InTune sounding) (update fun performer =>
      { performer with lastValues := performer.lastValues.set index (some value) } :
        Playing (Tapped κ) Unit) (Stage.InTune sounding) Stage.Tracked :=
    Leads.modify fun stage h => ⟨⟨h.settled.writable, h.settled.sounding⟩, h.paired⟩
  dsimp only
  split
  case isFalse => exact .pure _
  split
  case h_1 message hmessage =>
    exact (leads_send (isNote_of_message? hmessage)).bind fun _ => hupdate _
  case h_2 => exact hupdate _

/-- What a tick does once notes were seen to. -/
theorem leads_sendValues {β : Type} (reading : Reading) (result : β) :
    Leads (Stage.InTune sounding) (do
        (← get).performer.config.mappings.zipIdx.forM fun (mapping, index) =>
          sendValue reading mapping index
        return result : Playing (Tapped κ) β)
      (Stage.InTune sounding) Stage.Tracked :=
  Leads.get_bind fun _ _ =>
    (Leads.forM (fun (mapping, index) => leads_sendValue reading mapping index) _).bind fun _ =>
      .pure result

/-- Unless Z is held, the note that sounds is released before values are sent. -/
theorem leads_releaseUnlessHeld {β : Type} (sensor : Sensor) (result : β) :
    Leads Stage.Tracked (do
        if !sensor.held .z then releaseSounding
        (← get).performer.config.mappings.zipIdx.forM fun (mapping, index) =>
          sendValue sensor.current mapping index
        return result : Playing (Tapped κ) β)
      (fun stage => stage.Tracked ∧ (sensor.held .z = false → stage.InTune none))
      Stage.Tracked := by
  refine Leads.exists_left fun sounding => ?_
  dsimp only
  by_cases hheld : sensor.held .z = true
  case pos =>
    rw [if_neg (by simp [hheld])]
    refine (leads_sendValues sensor.current result).mono fun stage h => ⟨⟨sounding, h⟩, ?_⟩
    intro hnot
    rw [hheld] at hnot
    cases hnot
  case neg =>
    rw [if_pos (by simp [hheld])]
    exact leads_releaseSounding.bind fun _ =>
      (leads_sendValues sensor.current result).mono fun stage h => ⟨⟨none, h⟩, fun _ => h⟩

theorem leads_tick (now : Nat) (sensor : Sensor) :
    Leads Stage.Tracked (tick now sensor : Playing (Tapped κ) Bool)
      (fun stage => stage.Tracked ∧ (sensor.held .z = false → stage.InTune none))
      Stage.Tracked := by
  refine Leads.get_bind fun stage _ => ?_
  dsimp only
  split
  case h_1 note hnote =>
    exact (Leads.exists_left fun _ => leads_startNote now (noteToStart?_le hnote)).bind fun _ =>
      leads_releaseUnlessHeld sensor _
  case h_2 => exact leads_releaseUnlessHeld sensor _

end Performer

/-! ## Sessions -/

namespace Session

variable {μ : Type} {session : Session μ κ}

theorem tracked_answer {sounding : Option Sounding} (h : session.stage.InTune sounding)
    {reply : StateM μ Reply} (hreply : Returns (Performer.Settled sounding ·.performer) reply) :
    (session.answer reply).2.stage.Tracked :=
  ⟨sounding, hreply session.medium, h.paired⟩

variable [Medium μ]

theorem inTune_start (medium : μ) (link : κ) : (start medium link).stage.InTune none :=
  ⟨settled_boot medium, .nil⟩

variable [Link κ]

theorem tracked_tick (h : session.stage.Tracked) (now : Nat) :
    (session.handle (.tick now)).2.stage.Tracked := by
  have htick := leads_tick (κ := κ) now session.sensor
  rw [handle, play]
  cases hrun : tick now session.sensor session.stage with
  | ok started stage => exact (htick.of_ok h hrun).1
  | error failure stage => exact htick.of_error h hrun

/-- After a tick without Z nothing sounds. -/
theorem inTune_tick (h : session.stage.Tracked) (hheld : session.sensor.held .z = false)
    {now : Nat} {started : Bool} (hok : (session.handle (.tick now)).1 = .played (.ok started)) :
    (session.handle (.tick now)).2.stage.InTune none := by
  have htick := leads_tick (κ := κ) now session.sensor
  rw [handle, play] at hok ⊢
  cases hrun : tick now session.sensor session.stage with
  | ok started stage => exact (htick.of_ok h hrun).2 hheld
  | error failure stage =>
    rw [hrun] at hok
    cases hok

theorem tracked_handle (h : session.stage.Tracked) {event : Event} (hevent : event ≠ .silence) :
    (session.handle event).2.stage.Tracked := by
  obtain ⟨sounding, htune⟩ := h
  have hsounding := htune.settled.sounding
  -- Only a tick sends anything. All other events leave the note and the wire alone.
  cases event with
  | sense reading => exact ⟨sounding, htune.settled, htune.paired⟩
  | tick now => exact tracked_tick ⟨sounding, htune⟩ now
  | line text =>
    apply tracked_answer htune
    rw [← hsounding]
    exact settled_receiveLine htune.settled.writable text
  | reconfigure text =>
    apply tracked_answer htune
    rw [← hsounding]
    exact settled_reconfigure session.performer text
  | raiseFault => exact ⟨sounding, htune.settled.raiseFault, htune.paired⟩
  | silence => exact absurd rfl hevent

theorem tracked_run (h : session.stage.Tracked) {events : List Event}
    (hevents : Event.silence ∉ events) : (session.run events).stage.Tracked := by
  refine keeps_run (P := (·.stage.Tracked)) (fun session hsession event hevent => ?_) h
  exact tracked_handle hsession fun hsilence => hevents (hsilence ▸ hevent)

end Session

/-- In every session that nothing silences, the notes on the wire are started and released one after
the other, so at most one of them ever sounds. It is the one that the performer keeps track of, and
there is none after a tick without Z. -/
theorem notes_alternate {μ κ : Type} [Medium μ] [Link κ] (medium : μ) (link : κ)
    (events : List Event) (hevents : Event.silence ∉ events) :
    let session := (Session.start medium link).run events
    let wire := session.link.wire
    (∃ played : List Sounding, wire.filter Message.isNote =
        played.flatMap (fun note => [attack note, release note]) ++
          session.performer.sounding.toList.map attack) ∧
      (∀ front, front <+: wire → (soundingAfter front).length ≤ 1) ∧
      soundingAfter wire = session.performer.sounding.toList ∧
      ∀ now started, (session.handle (.tick now)).1 = .played (.ok started) →
        session.sensor.held .z = false →
          soundingAfter (session.handle (.tick now)).2.link.wire = [] := by
  intro session wire
  have htracked : session.stage.Tracked :=
    Session.tracked_run ⟨none, Session.inTune_start medium link⟩ hevents
  obtain ⟨sounding, htune⟩ := htracked
  have hsounding : session.performer.sounding = sounding := htune.settled.sounding
  rw [hsounding]
  refine ⟨htune.paired.pairs, htune.paired.single, htune.paired.sounds, ?_⟩
  intro now started hok hheld
  exact (Session.inTune_tick ⟨sounding, htune⟩ hheld hok).paired.sounds

/-- The channel changes while a note sounds, and its release is lost. -/
theorem notes_alternate_lost_release :
    let events := [.reconfigure "SCALE 0 OCTAVES 3 3 MAP ax note", .sense { buttonZ := true },
      .tick 0, .reconfigure "CHAN 2", .sense {}, .tick 1]
    let session := (Session.start (Region.erased ⟨32, 16, 96⟩) ({ left := some 1 } : Recorder)).run
      events
    Event.silence ∉ events ∧ session.performer.sounding = some ⟨1, 60⟩ ∧
      soundingAfter session.link.wire = [⟨1, 60⟩] := by
  intro events session
  have hevents : Event.silence ∉ events := by
    decide
  have hsounding : session.performer.sounding = some ⟨1, 60⟩ := by
    decide +kernel
  obtain ⟨-, -, hsounds, -⟩ := notes_alternate (Region.erased ⟨32, 16, 96⟩)
    ({ left := some 1 } : Recorder) events hevents
  rw [hsounding] at hsounds
  exact ⟨hevents, hsounding, hsounds⟩

end MotionMidi
