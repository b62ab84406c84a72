import Mathlib.Data.List.Basic
import MotionMidi.Performer.Tick
import MotionMidi.Proofs.Effect

/-!
# Cues

What a tick is going to send is settled before it starts: it plays a list of cues, up to the first
message that is lost. The same goes for silencing.

## Main definitions

- `Cue` — something to be done in turn
- `Cue.message?`, `Cue.effect` — the message of a cue, and what its passing changes
- `Performer.perform` — plays cues one after the other
- `Performer.cues`, `Performer.silenceCues` — the cues of a tick, and those of silencing

Main statements: `Performer.tick_eq_perform`, `Performer.silence_eq_perform`.
-/

namespace MotionMidi

open Midi

/-- Something to be done in turn. -/
inductive Cue where
  /-- The note that sounds is released. -/
  | release (note : Sounding)
  /-- A note is started, at a time in microseconds. -/
  | start (note : Sounding) (now : Nat)
  /-- The value of the mapping with an index is sent, unless it chooses notes. -/
  | tell (channel : Nat) (destination : Destination) (index value : Nat)
  /-- A note that may have been left sounding is released. -/
  | hush (channel note : Nat)
  /-- All notes are released by now. -/
  | forget
  deriving DecidableEq, Repr

namespace Cue

/-- The message that is sent. -/
def message? : Cue → Option Message
  | release note => some (Performer.release note)
  | start note _ => some (Midi.noteOn note.channel note.note noteVelocity)
  | tell channel destination _ value => Performer.message? channel destination value
  | hush channel note => some (Midi.noteOff channel note)
  | forget => none

/-- What changes once the message went through. -/
def effect : Cue → Performer → Performer
  | release _, performer => { performer with sounding := none }
  | start note now, performer => { performer with sounding := some note, lastNoteAt := some now }
  | tell _ _ index value, performer =>
    { performer with lastValues := performer.lastValues.set index (some value) }
  | hush .., performer => performer
  | forget, performer => { performer with sounding := none }

/-- What changes once all messages went through. -/
def effects : List Cue → Performer → Performer
  | [], performer => performer
  | cue :: cues, performer => effects cues (cue.effect performer)

@[simp] theorem effects_append (front back : List Cue) (performer : Performer) :
    effects (front ++ back) performer = effects back (effects front performer) := by
  induction front generalizing performer with
  | nil => rfl
  | cons cue front ih => exact ih _

theorem effects_keep {P : Performer → Prop} {cues : List Cue}
    (h : ∀ cue ∈ cues, ∀ performer, P performer → P (cue.effect performer)) {performer : Performer}
    (hstart : P performer) : P (effects cues performer) := by
  induction cues generalizing performer with
  | nil => exact hstart
  | cons cue cues ih =>
    exact ih (fun other hother => h other (List.mem_cons_of_mem _ hother))
      (h cue (List.mem_cons_self ..) performer hstart)

end Cue

namespace Performer

/-! ## What is to be done -/

/-- The release of the note that sounds. -/
def releaseCues (performer : Performer) : List Cue :=
  performer.sounding.toList.map .release

/-- What a tick does about notes. A note is only started while Z is held. -/
def noteCues (performer : Performer) (now : Nat) (sensor : Sensor) : List Cue :=
  match performer.noteToStart? now sensor with
  | some note => performer.releaseCues ++ [.start ⟨performer.config.channel, note⟩ now]
  | none => if sensor.held .z then [] else performer.releaseCues

/-- The mapping does not have the value that was sent last. -/
def Stale (performer : Performer) (reading : Reading) (item : Mapping × Nat) : Prop :=
  performer.lastValues[item.2]? ≠ some (some (item.1.value reading))

instance (performer : Performer) (reading : Reading) :
    DecidablePred (performer.Stale reading) := fun _ =>
  inferInstanceAs (Decidable (_ ≠ _))

/-- The value of a mapping is sent. -/
def tell (performer : Performer) (reading : Reading) (item : Mapping × Nat) : Cue :=
  .tell performer.config.channel item.1.destination item.2 (item.1.value reading)

/-- What a tick does about values. -/
def valueCues (performer : Performer) (reading : Reading) : List Cue :=
  (performer.config.mappings.zipIdx.filter (performer.Stale reading)).map (performer.tell reading)

/-- What a tick does. -/
def cues (performer : Performer) (now : Nat) (sensor : Sensor) : List Cue :=
  performer.noteCues now sensor ++ performer.valueCues sensor.current

/-- What silencing does. -/
def silenceCues (performer : Performer) : List Cue :=
  silencedNotes.map (.hush performer.config.channel) ++ [.forget]

section Members

variable {performer : Performer} {now : Nat} {sensor : Sensor} {cue : Cue}

theorem cases_of_mem_noteCues (h : cue ∈ performer.noteCues now sensor) :
    (∃ note, performer.sounding = some note ∧ cue = .release note) ∨
      ∃ note, performer.noteToStart? now sensor = some note ∧
        cue = .start ⟨performer.config.channel, note⟩ now := by
  have hrelease (h : cue ∈ performer.releaseCues) :
      ∃ note, performer.sounding = some note ∧ cue = .release note := by
    obtain ⟨note, hnote, rfl⟩ := List.mem_map.mp h
    exact ⟨note, Option.mem_toList.mp hnote, rfl⟩
  unfold noteCues at h
  split at h
  case h_1 note hchosen =>
    rcases List.mem_append.mp h with hold | hnew
    · exact .inl (hrelease hold)
    · exact .inr ⟨note, hchosen, List.mem_singleton.mp hnew⟩
  case h_2 =>
    split at h
    case isTrue => cases h
    case isFalse => exact .inl (hrelease h)

theorem exists_mapping_of_mem_valueCues {reading : Reading}
    (h : cue ∈ performer.valueCues reading) :
    ∃ mapping index, mapping ∈ performer.config.mappings ∧
      cue = performer.tell reading (mapping, index) := by
  obtain ⟨⟨mapping, index⟩, hitem, rfl⟩ := List.mem_map.mp h
  exact ⟨mapping, index, List.fst_mem_of_mem_zipIdx (List.mem_of_mem_filter hitem), rfl⟩

theorem cases_of_mem_silenceCues (h : cue ∈ performer.silenceCues) :
    (∃ note, 1 ≤ note ∧ note ≤ 119 ∧ cue = .hush performer.config.channel note) ∨
      cue = .forget := by
  rcases List.mem_append.mp h with hhush | hforget
  · obtain ⟨note, hnote, rfl⟩ := List.mem_map.mp hhush
    obtain ⟨hlow, hhigh⟩ := List.mem_range'_1.mp hnote
    exact .inl ⟨note, hlow, by omega, rfl⟩
  · exact .inr (List.mem_singleton.mp hforget)

end Members

variable {σ β : Type} [Link σ]

/-- Sends the message of a cue, and keeps in mind that it went through. -/
def play (cue : Cue) : Playing σ Unit := do
  if let some message := cue.message? then send message
  update cue.effect

/-- Plays cues one after the other. -/
def perform (cues : List Cue) : Playing σ Unit :=
  cues.forM play

@[simp] theorem perform_nil : (perform [] : Playing σ Unit) = pure () := rfl

theorem perform_cons (cue : Cue) (cues : List Cue) :
    (perform (cue :: cues) : Playing σ Unit) = play cue >>= fun _ => perform cues := rfl

theorem perform_append (front back : List Cue) :
    (perform (front ++ back) : Playing σ Unit) = perform front >>= fun _ => perform back :=
  List.forM_append

/-! ## The performer after cues -/

theorem performer_of_send {message : Message} {stage stage' : Stage σ}
    (h : send message stage = .ok () stage') : stage'.performer = stage.performer := by
  rw [send] at h
  split at h
  · cases h
    rfl
  · cases h

theorem play_of_message {cue : Cue} {message : Message} (h : cue.message? = some message) :
    (play cue : Playing σ Unit) = send message >>= fun _ => update cue.effect := by
  rw [play, h]

theorem play_of_silent {cue : Cue} (h : cue.message? = none) :
    (play cue : Playing σ Unit) = update cue.effect := by
  rw [play, h]

theorem performer_of_play {cue : Cue} {stage stage' : Stage σ}
    (h : play cue stage = .ok () stage') : stage'.performer = cue.effect stage.performer := by
  cases hmessage : cue.message? with
  | none =>
    rw [play_of_silent hmessage] at h
    cases h
    rfl
  | some message =>
    rw [play_of_message hmessage] at h
    cases hsend : send message stage with
    | error failure stage'' =>
      rw [bind_of_error hsend] at h
      cases h
    | ok a stage'' =>
      rw [bind_of_ok hsend] at h
      cases h
      rw [← performer_of_send hsend]

theorem performer_of_perform {cues : List Cue} {stage stage' : Stage σ}
    (h : perform cues stage = .ok () stage') :
    stage'.performer = Cue.effects cues stage.performer := by
  induction cues generalizing stage with
  | nil =>
    cases h
    rfl
  | cons cue cues ih =>
    rw [perform_cons] at h
    cases hplay : play cue stage with
    | error failure stage'' =>
      rw [bind_of_error hplay] at h
      cases h
    | ok a stage'' =>
      rw [bind_of_ok hplay] at h
      rw [ih h, performer_of_play hplay, Cue.effects]

/-! ## Notes -/

theorem releaseSounding_eq_perform (stage : Stage σ) :
    releaseSounding stage = perform stage.performer.releaseCues stage := by
  rw [releaseSounding, get_bind, releaseCues]
  cases stage.performer.sounding with
  | none => rfl
  | some note => exact (congrFun (bind_pure (play (.release note) : Playing σ Unit)) stage).symm

@[simp] theorem effects_releaseCues (performer : Performer) :
    Cue.effects performer.releaseCues performer = { performer with sounding := none } := by
  obtain ⟨config, fault, pending, sounding, lastNoteAt, lastValues⟩ := performer
  cases sounding <;> rfl

/-- The note that sounds is released before another one is started. -/
theorem startNote_eq_perform (now note : Nat) (stage : Stage σ) :
    startNote now note stage =
      perform (stage.performer.releaseCues ++
        [.start ⟨stage.performer.config.channel, note⟩ now]) stage := by
  rw [startNote, perform_append, perform_cons, perform_nil]
  cases hrelease : releaseSounding stage with
  | error failure stage' =>
    rw [bind_of_error hrelease, bind_of_error (releaseSounding_eq_perform stage ▸ hrelease)]
  | ok a stage' =>
    have hperform := releaseSounding_eq_perform stage ▸ hrelease
    have hconfig : stage'.performer.config = stage.performer.config := by
      rw [performer_of_perform hperform, effects_releaseCues]
    rw [bind_of_ok hrelease, bind_of_ok hperform, get_bind, hconfig, bind_pure]
    rfl

/-- A note is started where the reading chooses it, and Z was pressed or the note is due again. -/
theorem noteToStart?_eq_some_iff {performer : Performer} {now note : Nat} {sensor : Sensor} :
    performer.noteToStart? now sensor = some note ↔
      performer.config.notesEnabled = true ∧
        performer.config.mappedNote sensor.current = .ok note ∧
        (sensor.pressed .z || performer.repeats now sensor note) = true := by
  rw [noteToStart?]
  by_cases henabled : performer.config.notesEnabled = true
  case neg => simp [henabled]
  case pos =>
    rw [if_pos henabled]
    cases performer.config.mappedNote sensor.current with
    | error error => simp
    | ok other =>
      dsimp only
      by_cases hdue : (sensor.pressed .z || performer.repeats now sensor other) = true
      case pos =>
        rw [if_pos hdue, Option.some.injEq, Except.ok.injEq]
        exact ⟨fun h => ⟨henabled, h, h ▸ hdue⟩, fun h => h.2.1⟩
      case neg =>
        rw [if_neg hdue, Except.ok.injEq]
        exact iff_of_false nofun fun ⟨_, hsame, h⟩ => hdue (hsame ▸ h)

/-- The note that is started is the one that the reading chooses, and Z is held. -/
theorem of_noteToStart? {performer : Performer} {now note : Nat} {sensor : Sensor}
    (h : performer.noteToStart? now sensor = some note) :
    performer.config.mappedNote sensor.current = .ok note ∧ sensor.held .z = true := by
  obtain ⟨-, hmapped, hdue⟩ := noteToStart?_eq_some_iff.mp h
  refine ⟨hmapped, ?_⟩
  simp only [Sensor.pressed, repeats, Bool.or_eq_true, Bool.and_eq_true] at hdue
  rcases hdue with ⟨hheld, -⟩ | ⟨⟨⟨-, hheld⟩, -⟩, -⟩
  · exact hheld
  · exact hheld

/-! ## Values -/

theorem sendValue_of_stale {reading : Reading} {item : Mapping × Nat} {stage : Stage σ}
    (h : stage.performer.Stale reading item) :
    sendValue reading item.1 item.2 stage = play (stage.performer.tell reading item) stage := by
  rw [Stale] at h
  rw [sendValue, get_bind]
  dsimp only
  rw [if_pos h]
  rfl

theorem sendValue_of_not_stale {reading : Reading} {item : Mapping × Nat} {stage : Stage σ}
    (h : ¬stage.performer.Stale reading item) :
    sendValue reading item.1 item.2 stage = .ok () stage := by
  rw [Stale] at h
  rw [sendValue, get_bind]
  dsimp only
  rw [if_neg h]
  rfl

/-- A value that was sent makes no difference to other mappings. -/
theorem stale_effect_tell {performer : Performer} {reading : Reading} {item other : Mapping × Nat}
    (h : other.2 ≠ item.2) :
    ((performer.tell reading item).effect performer).Stale reading other ↔
      performer.Stale reading other := by
  rw [Stale, Stale, tell, Cue.effect, List.getElem?_set_ne h.symm]

theorem tell_effect_tell (performer : Performer) (reading : Reading) (item : Mapping × Nat) :
    ((performer.tell reading item).effect performer).tell reading = performer.tell reading := rfl

theorem forM_sendValue (reading : Reading) {items : List (Mapping × Nat)}
    (hitems : (items.map (·.2)).Nodup) (stage : Stage σ) :
    (items.forM fun item => sendValue reading item.1 item.2) stage =
      perform ((items.filter (stage.performer.Stale reading)).map
        (stage.performer.tell reading)) stage := by
  induction items generalizing stage with
  | nil => rfl
  | cons item items ih =>
    rw [List.map_cons, List.nodup_cons] at hitems
    change (sendValue reading item.1 item.2 >>= fun _ =>
      items.forM fun item => sendValue reading item.1 item.2) stage = _
    by_cases hstale : stage.performer.Stale reading item
    case neg =>
      rw [bind_of_ok (sendValue_of_not_stale hstale),
        List.filter_cons_of_neg (by simpa using hstale)]
      exact ih hitems.2 stage
    case pos =>
      rw [List.filter_cons_of_pos (by simpa using hstale), List.map_cons, perform_cons]
      cases hplay : play (stage.performer.tell reading item) stage with
      | error failure stage' =>
        rw [bind_of_error ((sendValue_of_stale hstale).trans hplay), bind_of_error hplay]
      | ok a stage' =>
        rw [bind_of_ok ((sendValue_of_stale hstale).trans hplay), bind_of_ok hplay, ih hitems.2,
          performer_of_play hplay, tell_effect_tell]
        have hfilter : items.filter (((stage.performer.tell reading item).effect
            stage.performer).Stale reading) = items.filter (stage.performer.Stale reading) := by
          apply List.filter_congr
          intro other hother
          have hne : other.2 ≠ item.2 := fun h => hitems.1 (h ▸ List.mem_map_of_mem hother)
          rw [decide_eq_decide]
          exact stale_effect_tell hne
        rw [hfilter]

theorem sendValues_eq_perform (reading : Reading) (result : β) (stage : Stage σ) :
    (do
      (← get).performer.config.mappings.zipIdx.forM fun (mapping, index) =>
        sendValue reading mapping index
      return result : Playing σ β) stage =
      (perform (stage.performer.valueCues reading) >>= fun _ => pure result) stage := by
  have hnodup : (stage.performer.config.mappings.zipIdx.map (·.2)).Nodup := by
    rw [List.zipIdx_map_snd]
    exact List.nodup_range'
  have hsend := forM_sendValue reading hnodup stage
  rw [get_bind]
  cases hrun : perform (stage.performer.valueCues reading) stage with
  | ok a stage' => rw [bind_of_ok (hsend.trans hrun), bind_of_ok hrun]
  | error failure stage' => rw [bind_of_error (hsend.trans hrun), bind_of_error hrun]

/-! ## Ticks -/

/-- What is done about notes does not touch the values that were sent. -/
theorem valueCues_effects_noteCues (performer : Performer) (now : Nat) (sensor : Sensor) :
    (Cue.effects (performer.noteCues now sensor) performer).valueCues = performer.valueCues := by
  rw [noteCues]
  split
  · rw [Cue.effects_append, effects_releaseCues]
    rfl
  · split
    · rfl
    · rw [effects_releaseCues]
      rfl

/-- Values are sent once notes were seen to, whatever was done about these. -/
theorem sendValues_after_perform {stage : Stage σ} (notes : Playing σ Unit) (done : List Cue)
    (hnotes : notes stage = perform done stage)
    (hvalues : (Cue.effects done stage.performer).valueCues = stage.performer.valueCues)
    (reading : Reading) (result : β) :
    (do
      notes
      (← get).performer.config.mappings.zipIdx.forM fun (mapping, index) =>
        sendValue reading mapping index
      return result : Playing σ β) stage =
      (perform (done ++ stage.performer.valueCues reading) >>= fun _ => pure result) stage := by
  rw [perform_append, bind_assoc]
  cases hrun : perform done stage with
  | error failure stage' => rw [bind_of_error (hnotes.trans hrun), bind_of_error hrun]
  | ok a stage' =>
    rw [bind_of_ok (hnotes.trans hrun), bind_of_ok hrun, sendValues_eq_perform,
      performer_of_perform hrun, hvalues]

/-- Values are sent once notes were seen to. -/
theorem sendValues_after_notes {now : Nat} {sensor : Sensor} {stage : Stage σ}
    (notes : Playing σ Unit)
    (hnotes : notes stage = perform (stage.performer.noteCues now sensor) stage) (result : β) :
    (do
      notes
      (← get).performer.config.mappings.zipIdx.forM fun (mapping, index) =>
        sendValue sensor.current mapping index
      return result : Playing σ β) stage =
      (perform (stage.performer.cues now sensor) >>= fun _ => pure result) stage :=
  sendValues_after_perform notes _ hnotes (valueCues_effects_noteCues _ _ _) _ _

/-- A tick plays its cues, up to the first message that is lost. -/
theorem tick_eq_perform (now : Nat) (sensor : Sensor) (stage : Stage σ) :
    tick now sensor stage =
      (perform (stage.performer.cues now sensor) >>= fun _ =>
        pure (stage.performer.noteToStart? now sensor).isSome) stage := by
  rw [tick, get_bind]
  cases hnote : stage.performer.noteToStart? now sensor with
  | some note =>
    obtain ⟨-, hheld⟩ := of_noteToStart? hnote
    dsimp only
    rw [if_neg (by simp [hheld])]
    apply sendValues_after_notes _
    rw [noteCues, hnote]
    exact startNote_eq_perform now note stage
  | none =>
    dsimp only
    by_cases hheld : sensor.held .z = true
    case pos =>
      rw [if_neg (by simp [hheld])]
      apply sendValues_after_notes (pure ())
      rw [noteCues, hnote]
      simp only [hheld, if_true]
      rfl
    case neg =>
      rw [if_pos (by simp [hheld])]
      apply sendValues_after_notes _
      rw [noteCues, hnote]
      simp only [hheld]
      exact releaseSounding_eq_perform stage

theorem play_hush (channel note : Nat) :
    (play (.hush channel note) : Playing σ Unit) = send (Midi.noteOff channel note) :=
  bind_pure (send (Midi.noteOff channel note))

theorem forM_hush (channel : Nat) (notes : List Nat) :
    (notes.forM fun note => send (Midi.noteOff channel note) : Playing σ Unit) =
      perform (notes.map (.hush channel)) := by
  induction notes with
  | nil => rfl
  | cons note notes ih =>
    rw [List.map_cons, perform_cons, play_hush, ← ih]
    rfl

/-- Silencing plays its cues, up to the first message that is lost. -/
theorem silence_eq_perform (stage : Stage σ) :
    silence stage = perform stage.performer.silenceCues stage := by
  rw [silence, get_bind, silenceCues, perform_append, ← forM_hush]
  rfl

/-! ## What is kept -/

section Stages

variable {P : Stage σ → Prop}

theorem keeps_perform {cues : List Cue} (h : ∀ cue ∈ cues, Keeps P (play cue : Playing σ Unit)) :
    Keeps P (perform cues : Playing σ Unit) := by
  induction cues with
  | nil => exact .pure ()
  | cons cue cues ih =>
    exact (h cue (List.mem_cons_self ..)).bind fun _ =>
      ih fun other hother => h other (List.mem_cons_of_mem _ hother)

/-- What the cues of a tick keep is kept by the tick, whatever is lost. -/
theorem keeps_tick_of_cues {now : Nat} {sensor : Sensor}
    (h : ∀ stage, P stage → ∀ cue ∈ stage.performer.cues now sensor,
      Keeps P (play cue : Playing σ Unit)) : Keeps P (tick now sensor : Playing σ Bool) := by
  intro stage hstage
  rw [tick_eq_perform]
  exact (keeps_perform (h stage hstage)).bind (fun _ => .pure _) stage hstage

/-- What the cues of silencing keep is kept by it, whatever is lost. -/
theorem keeps_silence_of_cues
    (h : ∀ stage, P stage → ∀ cue ∈ stage.performer.silenceCues,
      Keeps P (play cue : Playing σ Unit)) : Keeps P (silence : Playing σ Unit) := by
  intro stage hstage
  rw [silence_eq_perform]
  exact keeps_perform (h stage hstage) stage hstage

end Stages

variable {P : Performer → Prop}

theorem keeps_send (message : Message) :
    Keeps (P ·.performer) (send message : Playing σ Unit) := by
  intro stage h
  rw [send]
  cases Link.send message stage.link <;> exact h

theorem keeps_play {cue : Cue} (h : ∀ performer, P performer → P (cue.effect performer)) :
    Keeps (P ·.performer) (play cue : Playing σ Unit) := by
  have hupdate : Keeps (P ·.performer) (update cue.effect : Playing σ Unit) :=
    Leads.modify fun stage hstage => h stage.performer hstage
  cases hmessage : cue.message? with
  | none =>
    rw [play_of_silent hmessage]
    exact hupdate
  | some message =>
    rw [play_of_message hmessage]
    exact (keeps_send message).bind fun _ => hupdate

/-- What no cue changes is the same after a tick. -/
theorem keeps_tick (h : ∀ cue performer, P performer → P (Cue.effect cue performer)) (now : Nat)
    (sensor : Sensor) : Keeps (P ·.performer) (tick now sensor : Playing σ Bool) :=
  keeps_tick_of_cues fun _ _ cue _ => keeps_play (h cue)

/-- What no cue changes is the same after silencing. -/
theorem keeps_silence (h : ∀ cue performer, P performer → P (Cue.effect cue performer)) :
    Keeps (P ·.performer) (silence : Playing σ Unit) :=
  keeps_silence_of_cues fun _ _ cue _ => keeps_play (h cue)

end Performer

end MotionMidi
