import MotionMidi.Flash.Region
import MotionMidi.Proofs.Performer.Replies

/-!
# Configurations in use

Whatever the medium holds when the instrument is switched on, and whatever is typed and played from
then on, the active configuration is one that was read from a text.

Main statements: `Session.accepted_run`, `wellFormed_config`.
-/

namespace MotionMidi

open Flash Midi Performer

theorem Saved.Accepted.config {saved : Saved} (h : saved.Accepted) : saved.config.Accepted := by
  cases saved with
  | usable parsed => exact h
  | nothing => exact Config.accepted_factory
  | unusable => exact Config.accepted_factory

namespace Session

variable {μ κ : Type} [Medium μ]

theorem accepted_start (medium : μ) (link : κ) :
    (start medium link).performer.config.Accepted := by
  change (boot medium).1.config.Accepted
  rw [boot_config]
  exact (Saved.accepted_lookup medium).config

variable [Link κ]

/-- The configuration is replaced only by one that was read. -/
theorem accepted_handle {session : Session μ κ} (h : session.performer.config.Accepted)
    (event : Event) : (session.handle event).2.performer.config.Accepted := by
  cases hhanded : session.handed? event with
  | none => rwa [config_of_not_handed hhanded]
  | some text =>
    obtain ⟨performer, -, hperformer⟩ := handle_of_handed hhanded
    rw [hperformer]
    cases hparse : Config.parse text with
    | ok parsed =>
      rw [performer_of_parsed hparse]
      exact ⟨text, parsed, hparse, rfl⟩
    | error error =>
      rw [performer_of_rejected hparse]
      exact (Saved.accepted_lookup session.medium).config

theorem accepted_run {session : Session μ κ} (h : session.performer.config.Accepted)
    (events : List Event) : (session.run events).performer.config.Accepted :=
  keeps_run (P := (·.performer.config.Accepted)) (fun _ h event _ => accepted_handle h event) h

end Session

/-- However far any text was read, what was read fits into a configuration. Every text that can be
read describes a well-formed configuration, and at any point of any session the active configuration
is such a one. -/
theorem wellFormed_config {μ κ : Type} [Medium μ] [Link κ] (text : String) (medium : μ) (link : κ)
    (events : List Event) :
    let config := ((Session.start medium link).run events).performer.config
    (∀ progress, Relation.ReflTransGen Progress.Step (Progress.start text) progress →
        progress.Room) ∧
      (∀ parsed, Config.parse text = .ok parsed → parsed.config.DescribedBy text) ∧
      ∃ origin parsed, Config.parse origin = .ok parsed ∧ parsed.config = config ∧
        config.DescribedBy origin := by
  intro config
  refine ⟨fun _ => Progress.room_of_steps, fun _ => Config.describedBy_of_parse, ?_⟩
  obtain ⟨origin, parsed, hparse, hconfig⟩ :=
    Session.accepted_run (Session.accepted_start medium link) events
  have hdescribed := Config.describedBy_of_parse hparse
  rw [hconfig] at hdescribed
  exact ⟨origin, parsed, hparse, hconfig, hdescribed⟩

/-- A note mapping whose range is left out spans a scale that is set after it. -/
theorem wellFormed_config_of_early_mapping :
    let text := "MAP ax note ROOT D SCALE 0 12 OCTAVES 3 3"
    ∃ parsed, Config.parse text = .ok parsed ∧ parsed.config.DescribedBy text ∧
      parsed.config.mappings.map (fun mapping => (mapping.toLo, mapping.toHi)) = [(62, 74)] := by
  intro text
  have hranges : (Config.parse text).toOption.map (fun parsed =>
      parsed.config.mappings.map fun mapping => (mapping.toLo, mapping.toHi)) =
        some [(62, 74)] := by
    decide +kernel
  obtain ⟨-, hdescribed, -⟩ :=
    wellFormed_config text (Region.erased ⟨32, 16, 64⟩) ({} : Recorder) []
  generalize Config.parse text = result at hranges hdescribed ⊢
  cases result with
  | error error => cases hranges
  | ok parsed => exact ⟨parsed, rfl, hdescribed parsed rfl, Option.some.inj hranges⟩

end MotionMidi
