import Mathlib.Tactic.Tauto
import MotionMidi.Flash.Region
import MotionMidi.Proofs.Performer.Replies

/-!
# The fault flag

The flag is raised as long as something went wrong since the last flawless reconfiguration, whatever
else happens in between.

## Main definitions

- `Session.Clean` — an event hands over a text that needs no warning and can be saved
- `Session.Faulty` — something goes wrong in an event
- `Session.Meets` — an event of some kind happens in a run
- `Session.FaultySinceClean` — something went wrong since the last flawless reconfiguration

Main statement: `fault_iff`.
-/

namespace MotionMidi

open Flash SaveSlot Performer Midi

namespace Session

variable {μ κ : Type} [Medium μ]

/-- An event hands over a text that needs no warning and is saved. -/
def Clean (session : Session μ κ) (event : Event) : Prop :=
  ∃ text parsed, session.handed? event = some text ∧ Config.parse text = .ok parsed ∧
    parsed.warning = none ∧ (attempt (write text) session.medium).1 = .ok ()

/-- Something goes wrong in an event: the flag is raised from outside, a line makes the text that is
collected too long, or a text that is handed over has a flaw. -/
inductive Faulty (session : Session μ κ) : Event → Prop where
  | raised : session.Faulty .raiseFault
  | overflowed {line : String} (overflows : session.performer.Overflows line) :
      session.Faulty (.line line)
  | flawed {event : Event} {text : String} (handed : session.handed? event = some text)
      (flaw : ¬session.Clean event) : session.Faulty event

variable [Link κ]

/-- An event of some kind happens in a run. -/
def Meets (session : Session μ κ) (kind : Session μ κ → Event → Prop) (events : List Event) :
    Prop :=
  ∃ front event back, events = front ++ event :: back ∧ kind (session.run front) event

/-- Something goes wrong in a run, and no flawless reconfiguration comes after it. -/
def FaultySinceClean (session : Session μ κ) (events : List Event) : Prop :=
  ∃ front event back, events = front ++ event :: back ∧ (session.run front).Faulty event ∧
    ¬(session.run (front ++ [event])).Meets Clean back

end Session

/-! ## One event -/

namespace Performer

theorem completed?_of_command {performer : Performer} {line : String}
    (hempty : performer.pending = "")
    (hcommand : startsWith dumpCommand line ∨ startsWith hexdumpCommand line) :
    performer.completed? line = none := by
  rw [completed?, if_pos]
  rw [Bool.and_eq_true, Bool.or_eq_true, String.isEmpty_iff]
  exact ⟨hempty, hcommand⟩

/-- A line that is kept is not the last one of a text, and does not overflow. -/
theorem of_pending_receiveLine {σ : Type} [Medium σ] {performer : Performer} {line : String} {m : σ}
    (h : (performer.receiveLine line m).1.performer.pending = performer.pending ++ line ++ "\n") :
    performer.completed? line = none ∧ ¬performer.Overflows line := by
  have hne : performer.pending ++ line ++ "\n" ≠ "" := by
    rw [ne_eq, ← String.toList_inj]
    simp
  cases hcompleted : performer.completed? line with
  | some text =>
    rw [receiveLine_of_completed hcompleted, pending_reconfigure] at h
    exact absurd h.symm hne
  | none =>
    refine ⟨rfl, ?_⟩
    rcases performer_of_not_completed hcompleted m with ⟨-, hline⟩ | ⟨hroom, -⟩
    · rw [hline] at h
      exact absurd h.symm hne
    · exact hroom

theorem not_overflows_of_completed {performer : Performer} {line text : String}
    (h : performer.completed? line = some text) : ¬performer.Overflows line := by
  obtain ⟨-, hlength, hends, -⟩ := of_completed h
  rintro ⟨-, hlonger | ⟨hgoesOn, -⟩⟩
  · exact hlength hlonger
  · rw [hends] at hgoesOn
    cases hgoesOn

/-- A reconfiguration lowers the flag if it has no flaw, and raises it otherwise. -/
theorem fault_reconfigure {σ : Type} [Medium σ] (performer : Performer) (text : String) (m : σ) :
    (performer.reconfigure text m).1.performer.fault = true ↔
      ¬∃ parsed, Config.parse text = .ok parsed ∧ parsed.warning = none ∧
        (attempt (write text) m).1 = .ok () := by
  cases hparse : Config.parse text with
  | error error =>
    rw [performer_of_rejected hparse]
    exact iff_of_true rfl nofun
  | ok parsed =>
    rw [performer_of_parsed hparse]
    cases hwarning : parsed.warning with
    | some warning =>
      refine iff_of_true rfl ?_
      rintro ⟨_, ⟨⟩, hnone, -⟩
      rw [hwarning] at hnone
      cases hnone
    | none =>
      dsimp only
      cases (attempt (write text) m).1 with
      | error error =>
        refine iff_of_true rfl ?_
        rintro ⟨_, -, -, ⟨⟩⟩
      | ok a =>
        refine iff_of_false Bool.false_ne_true ?_
        rw [not_not]
        exact ⟨parsed, rfl, hwarning, rfl⟩

end Performer

namespace Session

variable {μ κ : Type} [Medium μ] {session : Session μ κ} {event : Event}

theorem clean_iff {text : String} (h : session.handed? event = some text) :
    session.Clean event ↔ ∃ parsed, Config.parse text = .ok parsed ∧ parsed.warning = none ∧
      (attempt (write text) session.medium).1 = .ok () := by
  constructor
  · rintro ⟨text', parsed, htext, hclean⟩
    rw [h] at htext
    cases htext
    exact ⟨parsed, hclean⟩
  · rintro ⟨parsed, hclean⟩
    exact ⟨text, parsed, h, hclean⟩

theorem not_clean_of_not_handed (h : session.handed? event = none) : ¬session.Clean event := by
  rintro ⟨text, parsed, htext, -⟩
  rw [h] at htext
  cases htext

/-- Where a text is handed over, only a flaw of it is a fault. -/
theorem faulty_iff_of_handed {text : String} (h : session.handed? event = some text) :
    session.Faulty event ↔ ¬session.Clean event := by
  constructor
  · intro hfaulty
    cases hfaulty with
    | raised => cases h
    | overflowed overflows => exact absurd overflows (not_overflows_of_completed h)
    | flawed handed flaw => exact flaw
  · exact .flawed h

theorem fault_effect {fault : Bool} (cue : Cue) (performer : Performer)
    (h : performer.fault = fault) : (cue.effect performer).fault = fault := by
  rw [← h]
  cases cue <;> rfl

variable [Link κ]

/-- What neither hands a text over nor goes wrong leaves the flag alone. -/
theorem fault_of_not_faulty (h : session.handed? event = none) (hfaulty : ¬session.Faulty event) :
    (session.handle event).2.performer.fault = session.performer.fault := by
  let P (performer : Performer) : Prop := performer.fault = session.performer.fault
  cases event with
  | sense reading => rfl
  | tick now => exact performer_play (P := P) (keeps_tick fault_effect now session.sensor) rfl
  | line line =>
    change (session.performer.receiveLine line session.medium).1.performer.fault = _
    rcases performer_of_not_completed h session.medium with ⟨hover, -⟩ | ⟨-, pending, hline⟩
    · exact absurd (.overflowed hover) hfaulty
    · rw [hline]
  | reconfigure text => cases h
  | raiseFault => exact absurd .raised hfaulty
  | silence => exact performer_play (P := P) (keeps_silence fault_effect) rfl

/-- A line that completes no text and does not overflow leaves the flag alone. -/
theorem fault_line {line : String} (h : session.performer.completed? line = none)
    (hroom : ¬session.performer.Overflows line) :
    (session.handle (.line line)).2.performer.fault = session.performer.fault := by
  refine fault_of_not_faulty h fun hfaulty => ?_
  cases hfaulty with
  | overflowed overflows => exact hroom overflows
  | flawed handed flaw => cases h.symm.trans handed

/-- An event raises the flag if something goes wrong in it, and otherwise only a flawless
reconfiguration changes it. -/
theorem fault_handle (session : Session μ κ) (event : Event) :
    (session.handle event).2.performer.fault = true ↔
      session.Faulty event ∨ session.performer.fault = true ∧ ¬session.Clean event := by
  cases hhanded : session.handed? event with
  | some text =>
    obtain ⟨performer, -, hperformer⟩ := handle_of_handed hhanded
    rw [hperformer, fault_reconfigure, ← clean_iff hhanded, faulty_iff_of_handed hhanded]
    tauto
  | none =>
    have hclean := not_clean_of_not_handed hhanded
    by_cases hfaulty : session.Faulty event
    case neg =>
      rw [fault_of_not_faulty hhanded hfaulty]
      tauto
    case pos =>
      refine iff_of_true ?_ (.inl hfaulty)
      cases hfaulty with
      | raised => rfl
      | overflowed overflows =>
        rename_i line
        change (session.performer.receiveLine line session.medium).1.performer.fault = true
        rcases performer_of_not_completed hhanded session.medium with ⟨-, hline⟩ | ⟨hroom, -⟩
        · rw [hline]
          rfl
        · exact absurd overflows hroom
      | flawed handed flaw =>
        rw [hhanded] at handed
        cases handed

/-! ## Runs -/

/-- A statement about the places of a list, taken apart at its head. -/
theorem exists_split_cons {α : Type} {P : List α → α → List α → Prop} {a : α} {as : List α} :
    (∃ front b back, a :: as = front ++ b :: back ∧ P front b back) ↔
      P [] a as ∨ ∃ front b back, as = front ++ b :: back ∧ P (a :: front) b back := by
  constructor
  · rintro ⟨_ | ⟨c, front⟩, b, back, h, hP⟩
    · cases h
      exact .inl hP
    · cases h
      exact .inr ⟨front, b, back, rfl, hP⟩
  · rintro (hP | ⟨front, b, back, rfl, hP⟩)
    · exact ⟨[], a, as, rfl, hP⟩
    · exact ⟨a :: front, b, back, rfl, hP⟩

theorem meets_cons (session : Session μ κ) (kind : Session μ κ → Event → Prop) (event : Event)
    (events : List Event) : session.Meets kind (event :: events) ↔
      kind session event ∨ (session.handle event).2.Meets kind events :=
  exists_split_cons

theorem faultySinceClean_cons (session : Session μ κ) (event : Event) (events : List Event) :
    session.FaultySinceClean (event :: events) ↔
      session.Faulty event ∧ ¬(session.handle event).2.Meets Clean events ∨
        (session.handle event).2.FaultySinceClean events :=
  exists_split_cons

theorem fault_run (session : Session μ κ) (events : List Event) :
    (session.run events).performer.fault = true ↔
      session.FaultySinceClean events ∨
        session.performer.fault = true ∧ ¬session.Meets Clean events := by
  induction events generalizing session with
  | nil =>
    have hmeets : ¬session.Meets Clean [] := by
      rintro ⟨front, event, back, h, -⟩
      simp at h
    have hfaulty : ¬session.FaultySinceClean [] := by
      rintro ⟨front, event, back, h, -⟩
      simp at h
    rw [run, List.foldl_nil]
    tauto
  | cons event events ih =>
    rw [run_cons, ih, fault_handle, faultySinceClean_cons, meets_cons]
    tauto

end Session

/-- At any point of a session the fault flag is raised exactly if something went wrong since the
last flawless reconfiguration, or, where there was none, since the instrument was switched on.
Ticks, silencing, commands, and lines that are kept for later never change it, and a text that
cannot be understood never lowers it. -/
theorem fault_iff {μ κ : Type} [Medium μ] [Link κ] (medium : μ) (link : κ) (events : List Event) :
    let start := Session.start medium link
    let session := start.run events
    let faultAfter (event : Event) := (session.handle event).2.performer.fault
    (session.performer.fault = true ↔ start.FaultySinceClean events ∨
        start.performer.fault = true ∧ ¬start.Meets Session.Clean events) ∧
      (∀ now, faultAfter (.tick now) = session.performer.fault) ∧
      faultAfter .silence = session.performer.fault ∧
      (∀ line, session.performer.pending = "" →
        startsWith dumpCommand line ∨ startsWith hexdumpCommand line →
          faultAfter (.line line) = session.performer.fault) ∧
      (∀ line, (session.handle (.line line)).2.performer.pending =
          session.performer.pending ++ line ++ "\n" →
        faultAfter (.line line) = session.performer.fault) ∧
      ∀ event text error, session.handed? event = some text → Config.parse text = .error error →
        faultAfter event = true := by
  intro start session faultAfter
  refine ⟨start.fault_run events, ?_, ?_, ?_, ?_, ?_⟩
  · exact fun now => Session.fault_of_not_faulty rfl nofun
  · exact Session.fault_of_not_faulty rfl nofun
  · intro line hempty hcommand
    exact Session.fault_line (completed?_of_command hempty hcommand) fun hover =>
      hover.1 ⟨hempty, hcommand⟩
  · intro line hkept
    obtain ⟨hcompleted, hroom⟩ := of_pending_receiveLine hkept
    exact Session.fault_line hcompleted hroom
  · intro event text error hhanded hparse
    obtain ⟨performer, -, hperformer⟩ := Session.handle_of_handed hhanded
    change (session.handle event).2.performer.fault = true
    rw [hperformer, performer_of_rejected hparse]
    rfl

/-- A channel that does not exist raises the flag, and a flawless text lowers it. -/
theorem fault_iff_after_warning :
    let start := Session.start (Region.erased ⟨32, 16, 64⟩) ({} : Recorder)
    let warned := [.reconfigure "CHAN 16", .line "CHAN 4", .tick 0]
    (start.run warned).performer.fault = true ∧ start.FaultySinceClean warned ∧
      (start.run (warned ++ [.line "END."])).performer.fault = false ∧
      ¬start.FaultySinceClean (warned ++ [.line "END."]) := by
  intro start warned
  have hquiet : start.performer.fault = false := by
    decide +kernel
  have hraised : (start.run warned).performer.fault = true := by
    decide +kernel
  have hlowered : (start.run (warned ++ [.line "END."])).performer.fault = false := by
    decide +kernel
  have hiff (events : List Event) :
      (start.run events).performer.fault = true ↔ start.FaultySinceClean events := by
    obtain ⟨h, -⟩ := fault_iff (Region.erased ⟨32, 16, 64⟩) ({} : Recorder) events
    change (start.run events).performer.fault = true ↔ start.FaultySinceClean events ∨
      start.performer.fault = true ∧ ¬start.Meets Session.Clean events at h
    rwa [hquiet, Bool.false_eq_true, false_and, or_false] at h
  refine ⟨hraised, (hiff warned).mp hraised, hlowered, ?_⟩
  rw [← hiff, hlowered]
  exact Bool.false_ne_true

end MotionMidi
