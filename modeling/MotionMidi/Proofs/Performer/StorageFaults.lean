import MotionMidi.Flash.Region
import MotionMidi.Proofs.Flash.Failures
import MotionMidi.Proofs.Performer.Storage

/-!
# Faults of the medium

A call of the medium that fails raises the fault flag, be it in a reconfiguration or when power is
switched on. The one exception is the first call after power-on: a medium whose header cannot be
read is taken for one that holds nothing.

Main statements: `storage_failures_reported`, `unread_header_unreported`.
-/

namespace MotionMidi

open Flash SaveSlot

variable {σ : Type} [Medium σ]

/-- How a look into the save slot ends: no call fails, or something fails behind the header and the
record is unusable, or the header cannot be read and there seems to be nothing. -/
theorem Saved.lookup_cases (m : Monitored σ) :
    Smooth m (lookup m).2 ∨
      ((lookup m).1 = .unusable ∧
        ∃ entries, Calls m (lookup m).2 (entries ++ [⟨headerRead, none⟩])) ∨
      (lookup m).1 = .nothing ∧ ∃ failure, Calls m (lookup m).2 [⟨headerRead, some failure⟩] := by
  have hheader := isValid_cases m
  rw [lookup, bind_run]
  generalize isValid m = found at hheader ⊢
  obtain ⟨valid, m'⟩ := found
  dsimp only at hheader ⊢
  cases valid with
  | false =>
    rcases hheader with hthrough | ⟨-, hfailed⟩
    · exact .inl (.call hthrough)
    · exact .inr (.inr ⟨rfl, hfailed⟩)
  | true =>
    have hthrough : Calls m m' [⟨headerRead, none⟩] := by
      rcases hheader with hthrough | ⟨hinvalid, -⟩
      · exact hthrough
      · cases hinvalid
    rw [if_pos rfl, bind_run]
    cases hread : SaveSlot.read m' with
    | ok text m'' =>
      have hsmooth : Smooth m m'' := smooth_read.of_ok (.call hthrough) hread
      left
      rw [attempt_of_ok hread]
      dsimp only
      cases Config.parse text with
      | ok parsed => exact hsmooth
      | error error => exact hsmooth
    | error error m'' =>
      obtain ⟨entries, hentries⟩ := mirrors_read.grows m'
      rw [stateAfter_of_error hread] at hentries
      right
      left
      rw [attempt_of_error hread]
      exact ⟨rfl, entries, hthrough.trans hentries.symm⟩

namespace Performer

theorem boot_of_unusable {m : σ} (h : (Saved.lookup m).1 = .unusable) :
    (boot m).1.fault = true := by
  rw [boot, bind_run, h]
  rfl

theorem boot_of_nothing {m : σ} (h : (Saved.lookup m).1 = .nothing) : (boot m).1 = {} := by
  rw [boot, bind_run, h]
  rfl

/-- How power-on ends: no call fails, or something fails behind the header and the flag is raised,
or the header cannot be read and the start is that of an empty medium. -/
theorem boot_cases (m : Monitored σ) :
    Smooth m (boot m).2 ∨
      ((boot m).1.fault = true ∧
        ∃ entries, Calls m (boot m).2 (entries ++ [⟨headerRead, none⟩])) ∨
      (boot m).1 = {} ∧ ∃ failure, Calls m (boot m).2 [⟨headerRead, some failure⟩] := by
  rw [boot_medium]
  rcases Saved.lookup_cases m with hsmooth | ⟨hunusable, hcalls⟩ | ⟨hnothing, hcalls⟩
  · exact .inl hsmooth
  · exact .inr (.inl ⟨boot_of_unusable hunusable, hcalls⟩)
  · exact .inr (.inr ⟨boot_of_nothing hnothing, hcalls⟩)

/-- A reconfiguration that leaves the flag lowered made no call that failed. -/
theorem smooth_reconfigure {performer : Performer} {text : String} {m : Monitored σ}
    (h : (performer.reconfigure text m).1.performer.fault = false) :
    Smooth m (performer.reconfigure text m).2 := by
  cases hparse : Config.parse text with
  | error error =>
    rw [performer_of_rejected hparse] at h
    cases h
  | ok parsed =>
    rw [(reconfigure_of_parsed hparse performer m).2]
    rw [performer_of_parsed hparse] at h
    cases hwrite : write text m with
    | error error m' =>
      rw [attempt_of_error hwrite] at h
      simp [Except.isOk, Except.toBool] at h
    | ok a m' =>
      rw [attempt_of_ok hwrite]
      exact (smooth_write text).of_ok (.refl m) hwrite

end Performer

open Performer

/-- Whatever the medium holds and whichever of its calls fail, a reconfiguration in which a call
fails raises the fault flag. So does power-on, unless the one call it made is the first one, which
looks for the header of a record. If that cannot be read, the instrument starts as if nothing were
saved. -/
theorem storage_failures_reported {μ : Type} [Medium μ] (m : Monitored μ) (performer : Performer)
    (text : String) :
    (SomeFailed m (performer.reconfigure text m).2 →
        (performer.reconfigure text m).1.performer.fault = true) ∧
      (SomeFailed m (boot m).2 → ((boot m).1.fault = true ↔
        ¬∃ failure, Calls m (boot m).2 [⟨.read 0 Header.size, some failure⟩])) ∧
      ∀ failure, Calls m (boot m).2 [⟨.read 0 Header.size, some failure⟩] → (boot m).1 = {} := by
  have hhidden {entries : List Entry} {failure : Failure}
      (hthrough : Calls m (boot m).2 (entries ++ [⟨headerRead, none⟩])) :
      ¬Calls m (boot m).2 [⟨headerRead, some failure⟩] := by
    intro hunread
    -- The first call cannot both go through and fail.
    have hlast := congrArg List.getLast? (hthrough.unique hunread)
    simp at hlast
  have hfailed {failure : Failure} (hunread : Calls m (boot m).2 [⟨headerRead, some failure⟩]) :
      SomeFailed m (boot m).2 :=
    ⟨_, hunread, _, List.mem_singleton_self _, rfl⟩
  refine ⟨?_, ?_, ?_⟩
  · intro hsome
    by_contra hlowered
    rw [Bool.not_eq_true] at hlowered
    exact (smooth_reconfigure hlowered).not_someFailed hsome
  · intro hsome
    rcases boot_cases m with hsmooth | ⟨hraised, _, hthrough⟩ | ⟨hfresh, hunread⟩
    · exact absurd hsome hsmooth.not_someFailed
    · exact iff_of_true hraised fun ⟨_, hunread⟩ => hhidden hthrough hunread
    · rw [hfresh]
      exact iff_of_false Bool.false_ne_true (not_not_intro hunread)
  · intro failure hunread
    rcases boot_cases m with hsmooth | ⟨-, _, hthrough⟩ | ⟨hfresh, -⟩
    · exact absurd (hfailed hunread) hsmooth.not_someFailed
    · exact absurd hunread (hhidden hthrough)
    · exact hfresh

/-- A region that holds a text, of which only so many reads go through. -/
def Flash.Region.saved (text : String) (readsLeft : Option Nat) : Monitored Region where
  medium := (attempt (write text) (Region.erased ⟨64, 32, 64⟩)).2
  readsLeft := readsLeft

/-- A saved text can no longer be read behind its header. -/
theorem storage_failures_reported_behind_header :
    let m := Region.saved "CHAN 4" (some 1)
    SomeFailed m (boot m).2 ∧ (boot m).1.fault = true ∧
      SomeFailed m (({} : Performer).reconfigure "X" m).2 ∧
      (({} : Performer).reconfigure "X" m).1.performer.fault = true := by
  intro m
  have hboot : Calls m (boot m).2
      [⟨.read 0 12, some .injected⟩, ⟨.read 0 12, none⟩] := by
    rw [Calls]
    decide +kernel
  have hrejected : Calls m (({} : Performer).reconfigure "X" m).2
      [⟨.read 0 12, some .injected⟩, ⟨.read 0 12, none⟩] := by
    rw [Calls]
    decide +kernel
  have hfailed {m' : Monitored Region} (h : Calls m m'
      [⟨.read 0 12, some .injected⟩, ⟨.read 0 12, none⟩]) : SomeFailed m m' :=
    ⟨_, h, _, List.mem_cons_self .., rfl⟩
  obtain ⟨hreconfigure, hstart, -⟩ := storage_failures_reported m {} "X"
  refine ⟨hfailed hboot, ?_, hfailed hrejected, hreconfigure (hfailed hrejected)⟩
  rw [hstart (hfailed hboot)]
  rintro ⟨failure, hunread⟩
  cases hboot.unique hunread

/-- A text is saved and its header cannot be read. The instrument starts with another configuration,
and no fault shows it. -/
theorem unread_header_unreported :
    let m := Region.saved "CHAN 4" (some 0)
    SomeFailed m (boot m).2 ∧ (boot m).1.fault = false ∧ (boot m).1.config.channel = 1 ∧
      (boot (Region.saved "CHAN 4" none)).1.config.channel = 4 := by
  intro m
  have hunread : Calls m (boot m).2 [⟨.read 0 12, some .injected⟩] := by
    rw [Calls]
    decide +kernel
  refine ⟨⟨_, hunread, _, List.mem_cons_self .., rfl⟩, ?_, ?_, ?_⟩
  · decide +kernel
  · decide +kernel
  · decide +kernel

end MotionMidi
