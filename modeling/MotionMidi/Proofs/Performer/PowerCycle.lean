import MotionMidi.Proofs.Performer.Settings
import MotionMidi.Proofs.Performer.Storage

/-!
# Power cycles

As long as the save slot works, power can be cycled at any time: the configuration that is found
then is the one that is active.

## Main definitions

- `Session.Current` — a fresh start would find the active configuration

Main statement: `boot_after_run`.
-/

namespace MotionMidi

open Flash SaveSlot Performer

variable {κ : Type} {m : Monitored Region}

namespace Performer

theorem reconfigure_grows (performer : Performer) (text : String) (m : Monitored Region) :
    m.journal <:+ (performer.reconfigure text m).2.journal := by
  cases hparse : Config.parse text with
  | ok parsed =>
    rw [(reconfigure_of_parsed hparse performer m).2]
    exact (mirrors_write text).attempt.grows m
  | error error =>
    rw [(reconfigure_of_rejected hparse performer m).2]
    exact (Saved.steps_lookup m).suffix

/-- A text that cannot be understood is not written. -/
theorem browses_of_rejected {text : String} {error : Error} (h : Config.parse text = .error error)
    (performer : Performer) (m : Monitored Region) :
    Browses m (performer.reconfigure text m).2 := by
  rw [(reconfigure_of_rejected h performer m).2]
  exact Saved.steps_lookup m

/-- A text that can be understood is saved, if it fits and no call fails. -/
theorem holds_of_parsed {text : String} {parsed : Config.Parsed}
    (h : Config.parse text = .ok parsed) (performer : Performer)
    (hs : (Medium.geometry m).Supported) (hfits : Fits (Medium.geometry m) text)
    (hq : (performer.reconfigure text m).2.Quiet) :
    Region.SameSizes m.medium (performer.reconfigure text m).2.medium ∧
      Holds text (performer.reconfigure text m).2.medium.bytes := by
  rw [(reconfigure_of_parsed h performer m).2, snd_attempt] at hq ⊢
  obtain ⟨m', hwrite, hsizes, hholds⟩ := write_of_quiet hs hfits hq
  rw [stateAfter_of_ok hwrite]
  exact ⟨hsizes, hholds⟩

/-- Whatever becomes of a text, the active configuration is the one that is found in the slot. -/
theorem reconfigure_current (performer : Performer) {text : String}
    (hs : (Medium.geometry m).Supported)
    (hfits : (Config.parse text).isOk → Fits (Medium.geometry m) text)
    (hq : (performer.reconfigure text m).2.Quiet) :
    Region.SameSizes m.medium (performer.reconfigure text m).2.medium ∧
      (performer.reconfigure text m).1.performer.config =
        (Saved.lookup (performer.reconfigure text m).2.medium).1.config := by
  cases hparse : Config.parse text with
  | ok parsed =>
    rw [hparse] at hfits
    obtain ⟨hsizes, hholds⟩ := holds_of_parsed hparse performer hs (hfits rfl) hq
    rw [Saved.lookup_of_holds hholds hparse]
    exact ⟨hsizes, (reconfigure_of_parsed hparse performer m).1⟩
  | error error =>
    -- Falling back looks into the slot just as a start does, and changes nothing there.
    have hbrowses := browses_of_rejected hparse performer m
    obtain ⟨hconfig, hmedium⟩ := reconfigure_of_rejected hparse performer m
    rw [hmedium] at hq
    have hfound := (Saved.follows_lookup.alike m hq).1
    rw [hbrowses.medium, hconfig, hfound]
    exact ⟨rfl, rfl⟩

end Performer

namespace Session

/-- A fresh start would find the active configuration. -/
structure Current (geometry : Geometry) (session : Session (Monitored Region) κ) : Prop where
  geometry : Medium.geometry session.medium = geometry
  config : session.performer.config = (Saved.lookup session.medium.medium).1.config

variable {geometry : Geometry} {session : Session (Monitored Region) κ}

theorem Current.browses (h : session.Current geometry) {session' : Session (Monitored Region) κ}
    (hmedium : Browses session.medium session'.medium)
    (hconfig : session'.performer.config = session.performer.config) :
    session'.Current geometry := by
  refine ⟨?_, ?_⟩
  · rw [← h.geometry]
    change Medium.geometry session'.medium.medium = Medium.geometry session.medium.medium
    rw [hmedium.medium]
  · rw [hmedium.medium, hconfig]
    exact h.config

theorem current_start (medium : Monitored Region) (link : κ)
    (hq : (start medium link).medium.Quiet) :
    (start medium link).Current (Medium.geometry medium) := by
  have hmedium : (start medium link).medium = (Saved.lookup medium).2 := boot_medium medium
  have hbrowses := Saved.steps_lookup medium
  rw [hmedium] at hq
  refine ⟨?_, ?_⟩
  · rw [hmedium]
    change Medium.geometry (Saved.lookup medium).2.medium = Medium.geometry medium.medium
    rw [hbrowses.medium]
  · rw [hmedium, hbrowses.medium, ← (Saved.follows_lookup.alike medium hq).1]
    exact boot_config medium

theorem browses_play {α : Type} (session : Session (Monitored Region) κ)
    (action : Playing (Midi.Tapped κ) α) :
    Browses session.medium (session.play action).2.medium := by
  rw [play]
  cases action session.stage <;> exact .refl _

variable [Midi.Link κ]

/-- An event that hands no text over leaves the configuration and the saved text alone. -/
theorem browses_of_not_handed {event : Event} (h : session.handed? event = none) :
    Browses session.medium (session.handle event).2.medium ∧
      (session.handle event).2.performer.config = session.performer.config := by
  refine ⟨?_, config_of_not_handed h⟩
  cases event with
  | sense reading => exact .refl _
  | tick now => exact session.browses_play _
  | line text => exact browses_of_not_completed h session.medium
  | reconfigure text => cases h
  | raiseFault => exact .refl _
  | silence => exact session.browses_play _

theorem handle_grows (session : Session (Monitored Region) κ) (event : Event) :
    session.medium.journal <:+ (session.handle event).2.medium.journal := by
  cases h : session.handed? event with
  | none => exact (browses_of_not_handed h).1.suffix
  | some text =>
    obtain ⟨performer, hmedium, -⟩ := handle_of_handed h
    rw [hmedium]
    exact reconfigure_grows performer text session.medium

theorem run_grows (session : Session (Monitored Region) κ) (events : List Event) :
    session.medium.journal <:+ (session.run events).medium.journal := by
  induction events generalizing session with
  | nil => exact List.suffix_refl _
  | cons event events ih => exact (session.handle_grows event).trans (ih _)

theorem Current.handle (h : session.Current geometry) (hs : geometry.Supported) {event : Event}
    (hfits : ∀ text ∈ session.handed? event, (Config.parse text).isOk → Fits geometry text)
    (hq : (session.handle event).2.medium.Quiet) : (session.handle event).2.Current geometry := by
  cases hhanded : session.handed? event with
  | none =>
    obtain ⟨hbrowses, hconfig⟩ := browses_of_not_handed hhanded
    exact h.browses hbrowses hconfig
  | some text =>
    obtain ⟨performer, hmedium, hperformer⟩ := handle_of_handed hhanded
    rw [hmedium] at hq
    rw [← h.geometry] at hs hfits
    obtain ⟨hsizes, hconfig⟩ := reconfigure_current performer hs (hfits text hhanded) hq
    refine ⟨?_, ?_⟩
    · rw [hmedium, ← h.geometry]
      exact hsizes
    · rw [hmedium, hperformer]
      exact hconfig

theorem Current.run (h : session.Current geometry) (hs : geometry.Supported) {events : List Event}
    (hfits : ∀ text ∈ session.handedOver events, (Config.parse text).isOk → Fits geometry text)
    (hq : (session.run events).medium.Quiet) : (session.run events).Current geometry := by
  induction events generalizing session with
  | nil => exact h
  | cons event events ih =>
    rw [handedOver, List.forall_mem_append] at hfits
    have hstep : (session.handle event).2.Current geometry := by
      refine h.handle hs (fun text htext => hfits.1 text ?_) (hq.of_suffix (run_grows _ events))
      rw [Option.mem_toList]
      exact htext
    exact ih hstep hfits.2 hq

end Session

namespace Session

variable [Midi.Link κ]

/-- The start of a run is a run of which the same holds. -/
theorem current_prefix {medium : Monitored Region} (hs : (Medium.geometry medium).Supported)
    {link : κ} {events front : List Event} (hfront : front <+: events)
    (hq : ((start medium link).run events).medium.Quiet)
    (hfits : ∀ text ∈ (start medium link).handedOver events,
      (Config.parse text).isOk → Fits (Medium.geometry medium) text) :
    ((start medium link).run front).medium.Quiet ∧
      (∀ text ∈ (start medium link).handedOver front,
        (Config.parse text).isOk → Fits (Medium.geometry medium) text) ∧
      ((start medium link).run front).Current (Medium.geometry medium) := by
  obtain ⟨back, rfl⟩ := hfront
  rw [run_append] at hq
  rw [handedOver_append, List.forall_mem_append] at hfits
  have hqfront : ((start medium link).run front).medium.Quiet := hq.of_suffix (run_grows _ back)
  have hstart := current_start medium link (hqfront.of_suffix (run_grows _ front))
  exact ⟨hqfront, hfits.1, hstart.run hs hfits.1 hqfront⟩

end Session

/-- While no call of the medium fails and every text that can be understood fits, the active
configuration is at all times the one that a fresh start would find. A text that cannot be
understood is not written, and one that can is given back by the slot. -/
theorem boot_after_run [Midi.Link κ] (medium : Monitored Region)
    (accepted : check medium = .ok () medium) (link : κ) (events : List Event)
    (quiet : ((Session.start medium link).run events).medium.Quiet)
    (fits : ∀ text ∈ (Session.start medium link).handedOver events,
      (Config.parse text).isOk → Fits (Medium.geometry medium) text) :
    (∀ front, front <+: events →
        let session := (Session.start medium link).run front
        session.performer.config = (boot session.medium.medium).1.config) ∧
      ∀ front event, front ++ [event] <+: events →
        let before := (Session.start medium link).run front
        let after := (before.handle event).2
        ∀ text, before.handed? event = some text →
          match Config.parse text with
          | .ok _ => attempt read after.medium.medium = (.ok text, after.medium.medium)
          | .error _ => ∃ entries, after.medium.journal = entries ++ before.medium.journal ∧
              ∀ entry ∈ entries, entry.call.isRead := by
  have hs := supported_of_check accepted
  constructor
  · intro front hfront session
    obtain ⟨-, -, hcurrent⟩ := Session.current_prefix hs hfront quiet fits
    rw [boot_config]
    exact hcurrent.config
  · intro front event hprefix before after text hhanded
    have hfront : front <+: events := (List.prefix_append front [event]).trans hprefix
    obtain ⟨-, -, hcurrent⟩ := Session.current_prefix hs hfront quiet fits
    obtain ⟨hquiet, hfits, -⟩ := Session.current_prefix hs hprefix quiet fits
    rw [Session.run_append] at hquiet
    obtain ⟨performer, hmedium, -⟩ := Session.handle_of_handed hhanded
    -- The text is either saved, or only the saved one is read.
    cases hparse : Config.parse text with
    | ok parsed =>
      have hmem : text ∈ (Session.start medium link).handedOver (front ++ [event]) := by
        rw [Session.handedOver_append]
        refine List.mem_append_right _ (List.mem_append_left _ ?_)
        rw [Option.mem_toList]
        exact hhanded
      have hfit : Fits (Medium.geometry before.medium) text := by
        rw [hcurrent.geometry]
        exact hfits text hmem (by rw [hparse]; rfl)
      have hsupported : (Medium.geometry before.medium).Supported := by
        rw [hcurrent.geometry]
        exact hs
      change after.medium.Quiet at hquiet
      rw [hmedium] at hquiet
      obtain ⟨-, hholds⟩ := holds_of_parsed hparse performer hsupported hfit hquiet
      rw [← hmedium] at hholds
      exact attempt_of_ok (read_of_holds hholds)
    | error error =>
      have hreads := (browses_of_rejected hparse performer before.medium).reads
      rw [← hmedium] at hreads
      exact hreads

/-- A text that is saved, and one with an unknown command that comes in after it. -/
theorem boot_after_rejected_text :
    let medium : Monitored Region := { medium := Region.erased ⟨32, 16, 64⟩ }
    let events := [.line "CHAN 4", .line "END.", .tick 0, .reconfigure "X", .silence]
    let session := (Session.start medium ({} : Midi.Recorder)).run events
    check medium = .ok () medium ∧ session.medium.Quiet ∧ session.performer.config.channel = 4 ∧
      session.performer.config = (boot session.medium.medium).1.config := by
  intro medium events
  have haccepted : check medium = .ok () medium := check_of_supported (by decide)
  have hquiet : ((Session.start medium ({} : Midi.Recorder)).run events).medium.Quiet := by
    decide +kernel
  have hfits : ∀ text ∈ (Session.start medium ({} : Midi.Recorder)).handedOver events,
      (Config.parse text).isOk → Fits (Medium.geometry medium) text := by
    decide +kernel
  have hchannel :
      ((Session.start medium ({} : Midi.Recorder)).run events).performer.config.channel = 4 := by
    decide +kernel
  obtain ⟨hboot, -⟩ := boot_after_run medium haccepted ({} : Midi.Recorder) events hquiet hfits
  have hconfig := hboot events (List.prefix_refl events)
  dsimp only at hconfig ⊢
  exact ⟨haccepted, hquiet, hchannel, hconfig⟩

end MotionMidi
