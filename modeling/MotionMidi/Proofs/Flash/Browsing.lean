import MotionMidi.Proofs.Flash.Writing

/-!
# Reads change nothing

## Main definitions

- `Flash.Browses` — nothing but reads happened between two states of a monitored region
-/

namespace MotionMidi

open Flash SaveSlot

namespace Flash

/-- The call only reads. -/
def Call.isRead : Call → Bool
  | .read .. => true
  | _ => false

/-- Nothing but reads happened in between. -/
structure Browses (m m' : Monitored Region) : Prop where
  medium : m'.medium = m.medium
  reads : ∃ entries, m'.journal = entries ++ m.journal ∧ ∀ entry ∈ entries, entry.call.isRead

namespace Browses

variable {m m' m'' : Monitored Region}

theorem refl (m : Monitored Region) : Browses m m :=
  ⟨rfl, [], rfl, by simp⟩

theorem trans (h : Browses m m') (h' : Browses m' m'') : Browses m m'' := by
  obtain ⟨hmedium, entries, hjournal, hreads⟩ := h
  obtain ⟨hmedium', entries', hjournal', hreads'⟩ := h'
  refine ⟨hmedium'.trans hmedium, entries' ++ entries, ?_, ?_⟩
  · rw [hjournal', hjournal, List.append_assoc]
  · exact List.forall_mem_append.mpr ⟨hreads', hreads⟩

theorem suffix (h : Browses m m') : m.journal <:+ m'.journal := by
  obtain ⟨-, entries, hjournal, -⟩ := h
  exact ⟨entries, hjournal.symm⟩

/-- One more call. -/
theorem call {call : Call} {failure : Option Failure} (hcall : call.isRead)
    (hmedium : m'.medium = m.medium) (hjournal : m'.journal = ⟨call, failure⟩ :: m.journal) :
    Browses m m' :=
  ⟨hmedium, [⟨call, failure⟩], hjournal, by simpa using hcall⟩

end Browses

theorem Region.stateAfter_read (offset length : Nat) (region : Region) :
    stateAfter (read offset length) region = region := by
  rcases check_cases region offset length 1 with ⟨failure, h⟩ | ⟨-, h⟩
  · rw [read, stateAfter_of_error (bind_of_error h)]
  · rw [read, stateAfter, bind_of_ok h]
    rfl

end Flash

namespace SaveSlot

variable {m : Monitored Region}

theorem keeps_readRaw (offset length : Nat) :
    Keeps (Browses m) (readRaw offset length : Action (Monitored Region) (List UInt8)) := by
  intro m' h
  have hends := Monitored.read_ends offset length m'
  have hkeeps := Region.stateAfter_read offset length m'.medium
  simp only [readRaw, onMedium, EStateM.adaptExcept]
  generalize (Medium.read offset length : Flash.Action (Monitored Region) _) m' = r at hends ⊢
  cases hends with
  | refused m'' hmedium hjournal => exact h.trans (.call rfl hmedium hjournal)
  | failed failure m'' hmedium hjournal =>
    have hkept : m''.medium = m'.medium := (stateAfter_of_error hmedium).symm.trans hkeeps
    exact h.trans (.call rfl hkept hjournal)
  | done bytes m'' hmedium hjournal =>
    have hkept : m''.medium = m'.medium := (stateAfter_of_ok hmedium).symm.trans hkeeps
    exact h.trans (.call rfl hkept hjournal)

theorem keeps_header : Keeps (Browses m) (header : Action (Monitored Region) Header) :=
  (keeps_readRaw _ _).bind fun _ => .pure _

theorem keeps_read : Keeps (Browses m) (read : Action (Monitored Region) String) := by
  refine keeps_header.bind fun header => ?_
  split
  · exact .throw_bind _ _
  refine .get_bind fun _ _ => ?_
  dsimp only
  split
  · exact .throw_bind _ _
  refine (keeps_readRaw _ _).bind fun terminator => ?_
  split
  · exact .throw_bind _ _
  refine (keeps_readRaw _ _).bind fun bytes => ?_
  split
  · exact .pure _
  · exact .throw _

theorem steps_attempt {α : Type} {action : Action (Monitored Region) α}
    (h : ∀ m, Keeps (Browses m) action) :
    Steps Browses (attempt action) := by
  intro m
  rw [attempt]
  cases hrun : action m with
  | ok a m' => exact (h m).of_ok (.refl m) hrun
  | error e m' => exact (h m).of_error (.refl m) hrun

theorem steps_isValid : Steps Browses (isValid : StateM (Monitored Region) Bool) := by
  refine .bind .trans (steps_attempt fun _ => keeps_header) fun result => ?_
  split
  · exact .pure .refl _
  · exact .pure .refl _

end SaveSlot

end MotionMidi
