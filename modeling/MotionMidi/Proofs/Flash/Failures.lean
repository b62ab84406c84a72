import MotionMidi.Proofs.Flash.Monitoring

/-!
# Calls that fail

Whatever succeeds made no call that failed. Only `isValid` hides a failure: a header that cannot be
read counts as none.

## Main definitions

- `Flash.Entry.Failed` — a call that failed
- `Flash.Calls` — some calls were made between two states of a monitored medium
- `Flash.Smooth` — all calls between two states went through
- `Flash.SomeFailed` — some call between two states failed

Main statements: `SaveSlot.smooth_read`, `SaveSlot.smooth_write`, `SaveSlot.isValid_cases`.
-/

namespace MotionMidi

open Flash SaveSlot

variable {σ α : Type}

namespace Flash

/-- The call failed. -/
def Entry.Failed (entry : Entry) : Prop :=
  entry.failure.isSome

/-- The calls that were made between two states of a medium, the latest one first. -/
def Calls (m m' : Monitored σ) (entries : List Entry) : Prop :=
  m'.journal = entries ++ m.journal

/-- All calls between two states went through. -/
def Smooth (m m' : Monitored σ) : Prop :=
  ∃ entries, Calls m m' entries ∧ ∀ entry ∈ entries, ¬entry.Failed

/-- Some call between two states failed. -/
def SomeFailed (m m' : Monitored σ) : Prop :=
  ∃ entries, Calls m m' entries ∧ ∃ entry ∈ entries, entry.Failed

variable {m m' m'' : Monitored σ}

theorem Calls.unique {entries others : List Entry} (h : Calls m m' entries)
    (h' : Calls m m' others) : entries = others :=
  List.append_cancel_right (h.symm.trans h')

theorem Calls.trans {entries others : List Entry} (h : Calls m m' entries)
    (h' : Calls m' m'' others) : Calls m m'' (others ++ entries) := by
  rw [Calls, h', h, List.append_assoc]

namespace Smooth

theorem refl (m : Monitored σ) : Smooth m m :=
  ⟨[], rfl, by simp⟩

theorem trans (h : Smooth m m') (h' : Smooth m' m'') : Smooth m m'' := by
  obtain ⟨entries, hcalls, hthrough⟩ := h
  obtain ⟨others, hcalls', hthrough'⟩ := h'
  exact ⟨_, hcalls.trans hcalls', List.forall_mem_append.mpr ⟨hthrough', hthrough⟩⟩

/-- One more call that went through. -/
theorem call {call : Call} (h : m'.journal = ⟨call, none⟩ :: m.journal) : Smooth m m' :=
  ⟨[⟨call, none⟩], h, by simp [Entry.Failed]⟩

theorem not_someFailed (h : Smooth m m') : ¬SomeFailed m m' := by
  rintro ⟨entries, hcalls, entry, hentry, hfailed⟩
  obtain ⟨others, hcalls', hthrough⟩ := h
  rw [hcalls.unique hcalls'] at hentry
  exact hthrough entry hentry hfailed

end Smooth

end Flash

namespace SaveSlot

/-! ## Success without failures -/

section Smooth

variable {m : Monitored σ}

theorem smooth_onMedium {call : Call} {inner : Flash.Action σ α}
    {watched : Flash.Action (Monitored σ) α}
    (hends : ∀ m, Monitored.CallEnds call inner m (watched m)) :
    Leads (Smooth m) (onMedium watched) (Smooth m) fun _ => True := by
  intro m' h
  have hcall := hends m'
  simp only [onMedium, EStateM.adaptExcept]
  generalize watched m' = result at hcall ⊢
  cases hcall with
  | refused m'' => trivial
  | failed failure m'' => trivial
  | done a m'' _ hjournal => exact h.trans (.call hjournal)

/-- Stopping is allowed at any time. -/
theorem smooth_throw_bind {β : Type} (e : Error) (next : β → Action (Monitored σ) α) :
    Leads (Smooth m) ((throw e : Action (Monitored σ) β) >>= next) (Smooth m) fun _ => True :=
  (Leads.throw_bind e next).weaken fun _ _ => trivial

variable [Medium σ]

theorem smooth_readRaw (offset length : Nat) :
    Leads (Smooth m) (readRaw offset length : Action (Monitored σ) _) (Smooth m) fun _ => True :=
  smooth_onMedium (Monitored.read_ends offset length)

theorem smooth_header :
    Leads (Smooth m) (header : Action (Monitored σ) Header) (Smooth m) fun _ => True :=
  (smooth_readRaw _ _).bind fun _ => .pure _

/-- A text is only read where no call failed. -/
theorem smooth_read :
    Leads (Smooth m) (read : Action (Monitored σ) String) (Smooth m) fun _ => True := by
  refine smooth_header.bind fun header => ?_
  split
  · exact smooth_throw_bind _ _
  refine .get_bind fun _ _ => ?_
  dsimp only
  split
  · exact smooth_throw_bind _ _
  refine (smooth_readRaw _ _).bind fun terminator => ?_
  split
  · exact smooth_throw_bind _ _
  refine (smooth_readRaw _ _).bind fun bytes => ?_
  split
  · exact .pure _
  · exact (Leads.throw _).weaken fun _ _ => trivial

/-- A text is only saved where no call failed. -/
theorem smooth_write (text : String) :
    Leads (Smooth m) (write text : Action (Monitored σ) Unit) (Smooth m) fun _ => True := by
  refine .get_bind fun _ _ => ?_
  dsimp only
  split
  · exact smooth_throw_bind _ _
  refine (smooth_onMedium (Monitored.erase_ends _ _)).bind fun _ => ?_
  exact .forM (fun ⟨offset, page⟩ => smooth_onMedium (Monitored.program_ends offset page)) _

end Smooth

/-! ## The header -/

variable [Medium σ]

/-- What is asked of the medium to find out whether there is a record. -/
def headerRead : Call :=
  .read 0 Header.size

/-- A look for a record makes one call. If that fails, no record is seen. -/
theorem isValid_cases (m : Monitored σ) :
    Calls m (isValid m).2 [⟨headerRead, none⟩] ∨
      (isValid m).1 = false ∧ ∃ failure, Calls m (isValid m).2 [⟨headerRead, some failure⟩] := by
  have hends := Monitored.read_ends 0 Header.size m
  rw [isValid, bind_run, attempt, header, readRaw]
  simp only [bind, EStateM.bind, onMedium, EStateM.adaptExcept]
  generalize (Medium.read 0 Header.size : Flash.Action (Monitored σ) _) m = result at hends ⊢
  cases hends with
  | refused m' _ hjournal => exact .inr ⟨rfl, .injected, hjournal⟩
  | failed failure m' _ hjournal => exact .inr ⟨rfl, failure, hjournal⟩
  | done bytes m' _ hjournal => exact .inl hjournal

end SaveSlot

end MotionMidi
