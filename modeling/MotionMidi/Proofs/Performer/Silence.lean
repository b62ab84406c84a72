import MotionMidi.Flash.Region
import MotionMidi.Proofs.Performer.FaultFlag
import MotionMidi.Proofs.Performer.Presses

/-!
# What silencing leaves

Silencing releases the notes up to 119 on the active channel, and then nothing is kept track of any
more. A note that sounds on another channel, or from 120 on, is given up that way. Nothing else ever
gives up a note.

## Main definitions

- `Midi.LeftSounding` — a note was started, and not released since
- `Session.Misses` — silencing does not release a note
- `Session.GivesUp` — an event gives up the note that the performer keeps track of
- `Stage.Accounts` — every note left sounding is kept track of, or was given up

Main statement: `silence_leaves`.
-/

namespace MotionMidi

open Flash Midi Performer

/-! ## Notes left sounding -/

namespace Midi

/-- The note that a message releases. -/
def Message.stops? : Message → Option Sounding
  | .noteOff channel note _ => some ⟨channel, note⟩
  | _ => none

/-- A note was started, and not released since. -/
def LeftSounding (wire : List Message) (note : Sounding) : Prop :=
  ∃ front message back, wire = front ++ message :: back ∧ message.starts? = some note ∧
    ∀ later ∈ back, later.stops? ≠ some note

variable {wire more : List Message} {message : Message} {note : Sounding}

@[simp] theorem not_leftSounding_nil : ¬LeftSounding [] note := by
  rintro ⟨front, message, back, hwire, -⟩
  simp at hwire

@[simp] theorem leftSounding_singleton :
    LeftSounding [message] note ↔ message.starts? = some note := by
  constructor
  · rintro ⟨_ | ⟨other, front⟩, message, back, hwire, hstarts, -⟩
    · cases hwire
      exact hstarts
    · simp at hwire
  · intro hstarts
    exact ⟨[], message, [], rfl, hstarts, nofun⟩

/-- More messages start a note, or they do not release one that was left sounding. -/
theorem leftSounding_append : LeftSounding (wire ++ more) note ↔
    LeftSounding more note ∨ LeftSounding wire note ∧ ∀ later ∈ more, later.stops? ≠ some note := by
  constructor
  · rintro ⟨front, message, back, hwire, hstarts, hback⟩
    rcases List.append_eq_append_iff.mp hwire with ⟨rest, rfl, hmore⟩ | ⟨rest, rfl, hmore⟩
    · exact .inl ⟨rest, message, back, hmore, hstarts, hback⟩
    · cases rest with
      | nil =>
        exact .inl ⟨[], message, back, hmore.symm, hstarts, hback⟩
      | cons other rest =>
        cases hmore
        refine .inr ⟨⟨front, message, rest, rfl, hstarts, fun later hlater => ?_⟩,
          fun later hlater => ?_⟩
        · exact hback later (List.mem_append_left _ hlater)
        · exact hback later (List.mem_append_right _ hlater)
  · rintro (⟨front, message, back, rfl, hstarts, hback⟩ |
      ⟨⟨front, message, back, rfl, hstarts, hback⟩, hmore⟩)
    · exact ⟨wire ++ front, message, back, by rw [List.append_assoc], hstarts, hback⟩
    · refine ⟨front, message, back ++ more, by rw [List.append_assoc]; rfl, hstarts, ?_⟩
      intro later hlater
      rcases List.mem_append.mp hlater with hold | hnew
      · exact hback later hold
      · exact hmore later hnew

/-- Messages that start no note leave those sounding that they do not release. -/
theorem leftSounding_append_of_starts (h : more.filterMap Message.starts? = []) :
    LeftSounding (wire ++ more) note ↔
      LeftSounding wire note ∧ note ∉ more.filterMap Message.stops? := by
  have hnone : ¬LeftSounding more note := by
    rintro ⟨front, message, back, rfl, hstarts, -⟩
    have hmem : message ∈ front ++ message :: back := by simp
    cases (List.filterMap_eq_nil_iff.mp h message hmem).symm.trans hstarts
  rw [leftSounding_append, List.mem_filterMap]
  simp only [hnone, false_or, not_exists, not_and, ne_eq]

theorem mem_hear (notes : List Sounding) : note ∈ hear notes message ↔
    message.starts? = some note ∨ note ∈ notes ∧ message.stops? ≠ some note := by
  cases message with
  | noteOn channel started velocity =>
    simp only [hear, Message.starts?, Message.stops?, List.mem_append, List.mem_singleton,
      Option.some.injEq, ne_eq, reduceCtorEq, not_false_eq_true, and_true]
    rw [or_comm, eq_comm]
  | noteOff channel stopped velocity =>
    simp only [hear, Message.starts?, Message.stops?, List.mem_filter, decide_eq_true_eq,
      Option.some.injEq, ne_eq, reduceCtorEq, false_or]
    rw [@eq_comm _ note]
  | _ => simp [hear, Message.starts?, Message.stops?]

/-- The notes that sound are those that were left sounding. -/
theorem mem_soundingAfter_iff : note ∈ soundingAfter wire ↔ LeftSounding wire note := by
  induction wire using List.reverseRecOn with
  | nil => simp [soundingAfter]
  | append_singleton wire message ih =>
    simp [soundingAfter_concat, leftSounding_append, mem_hear, ih]

instance (wire : List Message) (note : Sounding) : Decidable (LeftSounding wire note) :=
  decidable_of_iff _ mem_soundingAfter_iff

end Midi

/-! ## Keeping account -/

/-- The note that is released. -/
def Cue.stops? (cue : Cue) : Option Sounding :=
  cue.message?.bind Message.stops?

/-- A cue starts a note, or it does not release one that was left sounding. -/
theorem Cue.leftSounding_append (cue : Cue) {wire : List Message} {note : Sounding} :
    LeftSounding (wire ++ cue.message?.toList) note ↔
      cue.starts? = some note ∨ LeftSounding wire note ∧ cue.stops? ≠ some note := by
  rw [Cue.starts?, Cue.stops?, Midi.leftSounding_append]
  cases cue.message? <;> simp

variable {κ : Type}

/-- A given note is kept track of, or none is, and any other one that is left sounding was given
up. -/
structure Stage.Accounts (givenUp : Sounding → Prop) (sounding : Option Sounding)
    (stage : Stage (Tapped κ)) : Prop where
  settled : stage.performer.Settled sounding
  playable : ∀ note ∈ sounding, note.Playable
  low : ∀ note, LeftSounding stage.link.wire note → NoteTable.lowestNote ≤ note.note
  left : ∀ note, LeftSounding stage.link.wire note → sounding = some note ∨ givenUp note

/-- Every note that is left sounding is kept track of, or was given up. -/
def Stage.Accounted (givenUp : Sounding → Prop) (stage : Stage (Tapped κ)) : Prop :=
  ∃ sounding, stage.Accounts givenUp sounding

theorem Stage.Accounted.mono {stage : Stage (Tapped κ)} {givenUp more : Sounding → Prop}
    (h : stage.Accounted givenUp) (hmore : ∀ note, givenUp note → more note) :
    stage.Accounted more := by
  obtain ⟨sounding, haccounts⟩ := h
  exact ⟨sounding, haccounts.settled, haccounts.playable, haccounts.low,
    fun note hnote => (haccounts.left note hnote).imp_right (hmore note)⟩

theorem Leads.accounted {givenUp : Sounding → Prop} {before after : Option Sounding} {α : Type}
    {P : Stage (Tapped κ) → Prop} {action : Playing (Tapped κ) α}
    (h : Leads P action (Stage.Accounts givenUp after) (Stage.Accounts givenUp before)) :
    Leads P action (Stage.Accounted givenUp) (Stage.Accounted givenUp) :=
  (h.mono fun _ h => ⟨after, h⟩).weaken fun _ h => ⟨before, h⟩

/-- Once a cue was played, a note is kept track of if the cue starts it, or if it was kept track of
before and the cue does not release it. -/
structure Cue.Tracks (cue : Cue) (before after : Option Sounding) : Prop where
  settled : ∀ performer : Performer, performer.Settled before →
    (cue.effect performer).Settled after
  playable : (∀ note ∈ before, note.Playable) → ∀ note ∈ after, note.Playable
  starts : ∀ note, cue.starts? = some note → after = some note ∧ NoteTable.lowestNote ≤ note.note
  keeps : ∀ note, before = some note → after = some note ∨ cue.stops? = some note

namespace Cue

theorem tracks_release {note : Sounding} (h : note.Playable) :
    (release note).Tracks (some note) none := by
  refine ⟨fun performer hsettled => ⟨hsettled.writable, rfl⟩, fun _ => nofun, nofun, ?_⟩
  rintro _ ⟨⟩
  refine .inr ?_
  change some (Sounding.mk (atMost 15 note.channel).val (atMost 127 note.note).val) = some note
  rw [atMost_val h.1, atMost_val h.2]

theorem tracks_start {note : Sounding} (h : note.Playable) (hlow : NoteTable.lowestNote ≤ note.note)
    (now : Nat) : (start note now).Tracks none (some note) := by
  refine ⟨fun performer hsettled => ⟨hsettled.writable, rfl⟩, ?_, ?_, nofun⟩
  · rintro - _ ⟨⟩
    exact h
  · intro started hstarts
    change some (Sounding.mk (atMost 15 note.channel).val (atMost 127 note.note).val) = _ at hstarts
    rw [atMost_val h.1, atMost_val h.2] at hstarts
    cases hstarts
    exact ⟨rfl, hlow⟩

/-- A cue that starts no note and forgets none leaves what is kept track of. -/
theorem tracks_other {cue : Cue} (hstarts : cue.starts? = none)
    (heffect : ∀ performer, (cue.effect performer).config = performer.config ∧
      (cue.effect performer).sounding = performer.sounding) (sounding : Option Sounding) :
    cue.Tracks sounding sounding := by
  refine ⟨fun performer hsettled => ?_, id, fun note hnote => ?_, fun note => .inl⟩
  · obtain ⟨hconfig, hsounding⟩ := heffect performer
    exact ⟨hconfig ▸ hsettled.writable, hsounding.trans hsettled.sounding⟩
  · cases hstarts.symm.trans hnote

end Cue

namespace Performer

variable [Link κ] {givenUp : Sounding → Prop} {before after : Option Sounding}

theorem accounts_play {cue : Cue} (h : cue.Tracks before after) :
    Leads (Stage.Accounts givenUp before) (play cue : Playing (Tapped κ) Unit)
      (Stage.Accounts givenUp after) (Stage.Accounts givenUp before) := by
  apply leads_play
  · intro stage haccounts link hwire
    refine ⟨h.settled _ haccounts.settled, h.playable haccounts.playable, ?_, ?_⟩
    · intro note hnote
      rw [hwire, Cue.leftSounding_append] at hnote
      rcases hnote with hstarts | ⟨hleft, -⟩
      · exact (h.starts note hstarts).2
      · exact haccounts.low note hleft
    · intro note hnote
      rw [hwire, Cue.leftSounding_append] at hnote
      rcases hnote with hstarts | ⟨hleft, hstops⟩
      · exact .inl (h.starts note hstarts).1
      · rcases haccounts.left note hleft with htracked | hgiven
        · exact .inl ((h.keeps note htracked).resolve_right hstops)
        · exact .inr hgiven
  · intro stage haccounts link hwire
    refine ⟨haccounts.settled, haccounts.playable, ?_, ?_⟩
    · rw [hwire]
      exact haccounts.low
    · rw [hwire]
      exact haccounts.left

/-- The note that is kept track of is released, or it still is kept track of. -/
theorem accounts_release (sounding : Option Sounding) :
    Leads (Stage.Accounts givenUp sounding)
      (perform (sounding.toList.map .release) : Playing (Tapped κ) Unit)
      (Stage.Accounts givenUp none) (Stage.Accounts givenUp sounding) := by
  cases sounding with
  | none => exact .pure ()
  | some note =>
    intro stage h
    have hplayable := h.playable note rfl
    exact ((accounts_play (Cue.tracks_release hplayable)).bind fun _ => .pure ()) stage h

theorem accounts_noteCues {stage : Stage (Tapped κ)} {sounding : Option Sounding}
    (h : stage.performer.Settled sounding) (now : Nat) (sensor : Sensor) :
    Leads (Stage.Accounts givenUp sounding)
      (perform (stage.performer.noteCues now sensor) : Playing (Tapped κ) Unit)
      (Stage.Accounted givenUp) (Stage.Accounted givenUp) := by
  have hrelease : Leads (Stage.Accounts givenUp sounding)
      (perform stage.performer.releaseCues : Playing (Tapped κ) Unit)
      (Stage.Accounts givenUp none) (Stage.Accounted givenUp) := by
    rw [releaseCues, h.sounding]
    exact (accounts_release sounding).weaken fun _ h => ⟨sounding, h⟩
  rw [noteCues]
  split
  case h_1 note hdue =>
    have hplayable : (Sounding.mk stage.performer.config.channel note).Playable :=
      ⟨h.writable.channel.2, noteToStart?_le hdue⟩
    have hstart := Cue.tracks_start hplayable (lowestNote_le_of_noteToStart? hdue) now
    rw [perform_append]
    exact hrelease.bind fun _ => (accounts_play hstart).accounted.bind fun _ => .pure ()
  case h_2 =>
    split
    case isTrue => exact (Leads.pure ()).mono fun _ h => ⟨sounding, h⟩
    case isFalse => exact hrelease.mono fun _ h => ⟨none, h⟩

theorem tracks_of_mem_valueCues {performer : Performer} {reading : Reading} {cue : Cue}
    (h : cue ∈ performer.valueCues reading) (sounding : Option Sounding) :
    cue.Tracks sounding sounding := by
  obtain ⟨mapping, index, -, rfl⟩ := exists_mapping_of_mem_valueCues h
  exact Cue.tracks_other (starts?_tell reading (mapping, index)) (fun _ => ⟨rfl, rfl⟩) sounding

/-- A tick gives up no note, whatever is lost. -/
theorem keeps_accounted_tick (now : Nat) (sensor : Sensor) :
    Keeps (Stage.Accounted givenUp) (tick now sensor : Playing (Tapped κ) Bool) := by
  rintro stage ⟨sounding, h⟩
  have hvalues : Keeps (Stage.Accounted givenUp)
      (perform (stage.performer.valueCues sensor.current) : Playing (Tapped κ) Unit) :=
    keeps_perform fun cue hcue =>
      .exists_left fun sounding => (accounts_play (tracks_of_mem_valueCues hcue sounding)).accounted
  rw [tick_eq_perform, cues, perform_append]
  have hsettled := h.settled
  exact (((accounts_noteCues hsettled now sensor).bind fun _ => hvalues).bind fun _ => .pure _)
    stage h

/-- Silencing that fails gives up no note. -/
theorem accounts_silence (sounding : Option Sounding) :
    Leads (Stage.Accounts givenUp sounding) (silence : Playing (Tapped κ) Unit) (fun _ => True)
      (Stage.Accounts givenUp sounding) := by
  intro stage h
  have hhush (channel : Nat) : Keeps (Stage.Accounts givenUp sounding)
      (perform (silencedNotes.map (.hush channel)) : Playing (Tapped κ) Unit) := by
    refine keeps_perform fun cue hcue => ?_
    obtain ⟨note, -, rfl⟩ := List.mem_map.mp hcue
    exact accounts_play (Cue.tracks_other rfl (fun _ => ⟨rfl, rfl⟩) sounding)
  rw [silence_eq_perform, silenceCues, perform_append]
  exact ((hhush _).bind fun _ _ _ => True.intro) stage h

/-- Silencing releases its notes on the active channel. -/
theorem filterMap_stops?_silenceCues {performer : Performer} (h : performer.config.Writable) :
    performer.silenceCues.filterMap Cue.stops? =
      silencedNotes.map (Sounding.mk performer.config.channel) := by
  have hchannel : performer.config.channel ≤ 15 := h.channel.2
  have hforget : [Cue.forget].filterMap Cue.stops? = [] := rfl
  rw [silenceCues, List.filterMap_append, hforget, List.append_nil, List.filterMap_map,
    ← List.filterMap_eq_map]
  apply List.filterMap_congr
  intro note hnote
  have hhigh : note ≤ 127 := by
    have := List.mem_range'_1.mp hnote
    omega
  change some (Sounding.mk (atMost 15 performer.config.channel).val (atMost 127 note).val) = _
  rw [atMost_val hchannel, atMost_val hhigh]
  rfl

/-- Nothing is kept track of once everything was silenced. -/
@[simp] theorem effects_silenceCues (performer : Performer) :
    Cue.effects performer.silenceCues performer = { performer with sounding := none } := by
  have hhush : Cue.effects (silencedNotes.map (.hush performer.config.channel)) performer =
      performer := by
    refine Cue.effects_keep (P := (· = performer)) (fun cue hcue other hother => ?_) rfl
    obtain ⟨note, -, rfl⟩ := List.mem_map.mp hcue
    exact hother
  rw [silenceCues, Cue.effects_append, hhush]
  rfl

end Performer

/-! ## Sessions -/

namespace Session

variable {μ : Type}

/-- Silencing does not release a note: it is on another channel than the active one, or too high. -/
def Misses (session : Session μ κ) (note : Sounding) : Prop :=
  note.channel = session.performer.config.channel → 119 < note.note

instance (session : Session μ κ) (note : Sounding) : Decidable (session.Misses note) :=
  inferInstanceAs (Decidable (_ → _))

variable [Medium μ] [Link κ]

/-- The note that the performer keeps track of is given up: silencing succeeds and misses it. -/
inductive GivesUp (session : Session μ κ) : Event → Sounding → Prop where
  | silence {note : Sounding} (ok : (session.handle .silence).1 = .silenced (.ok ()))
      (tracked : session.performer.sounding = some note) (missed : session.Misses note) :
      session.GivesUp .silence note

variable {session : Session μ (Logged κ)} {givenUp : Sounding → Prop}
  {sounding : Option Sounding}

/-- Silencing leaves the notes sounding that it misses, and keeps track of none. -/
theorem leftSounding_silence (h : (session.handle .silence).1 = .silenced (.ok ()))
    (haccounts : session.stage.Accounts givenUp sounding) :
    (session.handle .silence).2.performer = { session.performer with sounding := none } ∧
      ∀ note, LeftSounding (session.handle .silence).2.link.wire note ↔
        LeftSounding session.link.wire note ∧ session.Misses note := by
  rcases session.played_silence with ⟨-, hplayed⟩ | ⟨_, _, _, hlost, -⟩
  case inr => cases h.symm.trans hlost
  refine ⟨hplayed.performer.trans (effects_silenceCues session.performer), fun note => ?_⟩
  have hwire : (session.handle .silence).2.link.wire =
      session.link.wire ++ session.performer.silenceCues.filterMap Cue.message? := hplayed.wire
  have hstarts : (session.performer.silenceCues.filterMap Cue.message?).filterMap
      Message.starts? = [] := by
    rw [List.filterMap_filterMap]
    exact filterMap_starts?_silenceCues session.performer
  have hstops : (session.performer.silenceCues.filterMap Cue.message?).filterMap Message.stops? =
      silencedNotes.map (Sounding.mk session.performer.config.channel) := by
    rw [List.filterMap_filterMap]
    exact filterMap_stops?_silenceCues haccounts.settled.writable
  rw [hwire, leftSounding_append_of_starts hstarts, hstops]
  refine and_congr_right fun hleft => ?_
  have hlow : 24 ≤ note.note := haccounts.low note hleft
  rw [Misses, List.mem_map]
  constructor
  · intro hnot hchannel
    by_contra hhigh
    refine hnot ⟨note.note, List.mem_range'_1.mpr ⟨by omega, by omega⟩, ?_⟩
    rw [← hchannel]
  · rintro hmissed ⟨number, hnumber, rfl⟩
    have hhigh := hmissed rfl
    have := List.mem_range'_1.mp hnumber
    dsimp only at hhigh
    omega

omit [Medium μ] [Link κ] in
theorem accounted_answer (h : session.stage.Accounts givenUp sounding) {reply : StateM μ Reply}
    (hreply : Returns (Performer.Settled sounding ·.performer) reply) :
    (session.answer reply).2.stage.Accounted givenUp :=
  ⟨sounding, hreply session.medium, h.playable, h.low, h.left⟩

/-- An event gives up at most the note that is kept track of. -/
theorem accounted_handle (h : session.stage.Accounted givenUp) (event : Event) :
    (session.handle event).2.stage.Accounted fun note =>
      givenUp note ∨ session.GivesUp event note := by
  have hmono {session' : Session μ (Logged κ)} (h : session'.stage.Accounted givenUp) :
      session'.stage.Accounted fun note => givenUp note ∨ session.GivesUp event note :=
    h.mono fun _ => .inl
  obtain ⟨sounding, haccounts⟩ := h
  have hsounding := haccounts.settled.sounding
  cases event with
  | sense reading => exact hmono ⟨sounding, haccounts⟩
  | tick now =>
    apply hmono
    exact stage_play (keeps_accounted_tick now session.sensor) ⟨sounding, haccounts⟩
  | line text =>
    apply hmono
    apply accounted_answer haccounts
    rw [← hsounding]
    exact settled_receiveLine haccounts.settled.writable text
  | reconfigure text =>
    apply hmono
    apply accounted_answer haccounts
    rw [← hsounding]
    exact settled_reconfigure session.performer text
  | raiseFault =>
    exact hmono ⟨sounding, haccounts.settled.raiseFault, haccounts.playable, haccounts.low,
      haccounts.left⟩
  | silence =>
    -- Only silencing that succeeds forgets a note that it may not have released.
    by_cases hok : (session.handle .silence).1 = .silenced (.ok ())
    case pos =>
      obtain ⟨hperformer, hleft⟩ := leftSounding_silence hok haccounts
      refine ⟨none, ?_, nofun, fun note hnote => ?_, fun note hnote => .inr ?_⟩
      · change Settled none (session.handle .silence).2.performer
        rw [hperformer]
        exact ⟨haccounts.settled.writable, rfl⟩
      · exact haccounts.low note ((hleft note).mp hnote).1
      · obtain ⟨hbefore, hmissed⟩ := (hleft note).mp hnote
        rcases haccounts.left note hbefore with htracked | hgiven
        · exact .inr (.silence hok (hsounding.trans htracked) hmissed)
        · exact .inl hgiven
    case neg =>
      apply hmono
      rw [handle, play] at hok ⊢
      cases hrun : silence session.stage with
      | ok a stage =>
        rw [hrun] at hok
        exact absurd rfl hok
      | error failure stage => exact ⟨sounding, (accounts_silence sounding).of_error haccounts hrun⟩

/-- Every note that is left sounding is kept track of, or was given up in the run or before. -/
theorem accounted_run (h : session.stage.Accounted givenUp) (events : List Event) :
    (session.run events).stage.Accounted fun note =>
      givenUp note ∨ session.Meets (·.GivesUp · note) events := by
  induction events generalizing session givenUp with
  | nil => exact h.mono fun _ => .inl
  | cons event events ih =>
    -- The notes that the first event gives up count as given up before the others.
    rw [run_cons]
    simp only [meets_cons, ← or_assoc]
    exact ih (accounted_handle h event)

omit [Link κ] in
theorem accounted_start (medium : μ) (link : κ) :
    (start medium (Logged.mk link [])).stage.Accounted fun _ => False :=
  ⟨none, settled_boot medium, nofun, fun _ h => absurd h not_leftSounding_nil,
    fun _ h => absurd h not_leftSounding_nil⟩

end Session

/-- When silencing succeeds, nothing is kept track of any more, and the notes that are left sounding
are those that were before, less the ones up to 119 on the active channel. Each of them is a note
that was kept track of when silencing gave it up, now or earlier, so nothing is left sounding where
silencing never misses the note that is kept track of. -/
theorem silence_leaves {μ κ : Type} [Medium μ] [Link κ] (medium : μ) (link : κ)
    (events : List Event)
    (hok : (((Session.start medium (Logged.mk link [])).run events).handle .silence).1 =
      .silenced (.ok ())) :
    let start := Session.start medium (Logged.mk link [])
    let session := start.run events
    let after := (session.handle .silence).2
    after.performer.sounding = none ∧
      (∀ note, LeftSounding after.link.wire note ↔
        LeftSounding session.link.wire note ∧ session.Misses note) ∧
      ∀ note, LeftSounding after.link.wire note →
        start.Meets (·.GivesUp · note) (events ++ [.silence]) := by
  intro start session after
  have hstart := Session.accounted_start medium link
  obtain ⟨_, haccounts⟩ := Session.accounted_run hstart events
  obtain ⟨hperformer, hleft⟩ := Session.leftSounding_silence hok haccounts
  have hnone : after.performer.sounding = none := congrArg Performer.sounding hperformer
  refine ⟨hnone, hleft, fun note hnote => ?_⟩
  obtain ⟨sounding, hafter⟩ := Session.accounted_run hstart (events ++ [.silence])
  rw [Session.run_append] at hafter
  rcases hafter.left note hnote with htracked | hfalse | hgiven
  · cases hnone.symm.trans (hafter.settled.sounding.trans htracked)
  · exact hfalse.elim
  · exact hgiven

/-- A note is released though nothing but silencing sees to it. -/
theorem silence_leaves_nothing :
    let session := (Session.start (Region.erased ⟨32, 16, 96⟩) (Logged.mk ({} : Recorder) [])).run
      [.reconfigure "SCALE 0 OCTAVES 3 3 MAP ax note", .sense { buttonZ := true }, .tick 0]
    let silenced := session.handle .silence
    silenced.1 = .silenced (.ok ()) ∧ LeftSounding session.link.wire ⟨1, 60⟩ ∧
      silenced.2.performer.sounding = none ∧ ¬LeftSounding silenced.2.link.wire ⟨1, 60⟩ := by
  intro session silenced
  have hplay : (session.play silence).1 = .ok () := by
    decide +kernel
  have hok : silenced.1 = .silenced (.ok ()) := congrArg Response.silenced hplay
  obtain ⟨hnone, hleft, -⟩ := silence_leaves (Region.erased ⟨32, 16, 96⟩) ({} : Recorder)
    [.reconfigure "SCALE 0 OCTAVES 3 3 MAP ax note", .sense { buttonZ := true }, .tick 0] hok
  have hsounding : LeftSounding session.link.wire ⟨1, 60⟩ := by
    decide +kernel
  refine ⟨hok, hsounding, hnone, fun hnote => ?_⟩
  have hmissed : session.Misses ⟨1, 60⟩ := ((hleft _).mp hnote).2
  revert hmissed
  decide +kernel

/-- The highest note, and a note whose channel is not active any more, go on sounding when silencing
succeeds, though nothing keeps track of them. -/
theorem note_given_up_by_silence :
    let start := Session.start (Region.erased ⟨32, 16, 96⟩) (Logged.mk ({} : Recorder) [])
    let high := start.run
      [.reconfigure "ROOT G SCALE 0 OCTAVES 8 8 MAP ax note", .sense { buttonZ := true }, .tick 0]
    let elsewhere := start.run
      [.reconfigure "SCALE 0 OCTAVES 3 3 MAP ax note", .sense { buttonZ := true }, .tick 0,
        .reconfigure "CHAN 2"]
    ((high.handle .silence).1 = .silenced (.ok ()) ∧
      (high.handle .silence).2.performer.sounding = none ∧
      LeftSounding (high.handle .silence).2.link.wire ⟨1, 127⟩) ∧
    (elsewhere.handle .silence).1 = .silenced (.ok ()) ∧
      (elsewhere.handle .silence).2.performer.sounding = none ∧
      LeftSounding (elsewhere.handle .silence).2.link.wire ⟨1, 60⟩ := by
  intro start high elsewhere
  have hhigh : (high.play silence).1 = .ok () := by
    decide +kernel
  have helsewhere : (elsewhere.play silence).1 = .ok () := by
    decide +kernel
  refine ⟨⟨congrArg Response.silenced hhigh, ?_, ?_⟩,
    congrArg Response.silenced helsewhere, ?_, ?_⟩
  · decide +kernel
  · decide +kernel
  · decide +kernel
  · decide +kernel

end MotionMidi
