import MotionMidi.Proofs.Effect
import MotionMidi.Flash.Monitor
import MotionMidi.Flash.SaveSlot

/-!
# Monitored calls

What the journal of a monitored medium tells about the calls that were made.

## Main definitions

- `Monitored.CallEnds` — how a monitored call ends
- `Monitored.Quiet` — no call failed so far
- `Monitored.after`, `afterRead` — a call went through, and left the medium in a given state
- `Mirrors`, `Follows` — as long as no call fails, monitoring makes no difference
-/

namespace MotionMidi

open Flash

variable {σ ε α β : Type}

namespace Flash.Monitored

/-- How a monitored call ends: it is refused before it reaches the medium, the medium fails, or the
medium does what it is asked for. -/
inductive CallEnds (call : Call) (inner : Action σ α) (m : Monitored σ) :
    EStateM.Result Failure (Monitored σ) α → Prop where
  | refused (m' : Monitored σ) (medium : m'.medium = m.medium)
      (journal : m'.journal = ⟨call, some .injected⟩ :: m.journal) :
      CallEnds call inner m (.error .injected m')
  | failed (failure : Failure) (m' : Monitored σ)
      (medium : inner m.medium = .error failure m'.medium)
      (journal : m'.journal = ⟨call, some failure⟩ :: m.journal) :
      CallEnds call inner m (.error failure m')
  | done (a : α) (m' : Monitored σ) (medium : inner m.medium = .ok a m'.medium)
      (journal : m'.journal = ⟨call, none⟩ :: m.journal) :
      CallEnds call inner m (.ok a m')

/-- A call that may be refused, and then reaches the medium. -/
theorem journaled_ends (call : Call) (inner : Action σ α) (gate : Action (Monitored σ) Unit)
    (m : Monitored σ) (hgate : gate m = .error .injected m ∨
      ∃ m', gate m = .ok () m' ∧ m'.medium = m.medium ∧ m'.journal = m.journal) :
    CallEnds call inner m (journaled call (do gate; inside inner) m) := by
  rcases hgate with h | ⟨m', h, hmedium, hjournal⟩
  · rw [journaled, bind_of_error h]
    exact .refused _ rfl rfl
  · rw [journaled, bind_of_ok h, inside, hmedium, hjournal]
    cases hinner : inner m.medium with
    | ok a s => exact .done a _ hinner rfl
    | error failure s => exact .failed failure _ hinner rfl

theorem admitRead_cases (m : Monitored σ) : admitRead m = .error .injected m ∨
    ∃ m', admitRead m = .ok () m' ∧ m'.medium = m.medium ∧ m'.journal = m.journal := by
  obtain ⟨medium, readsLeft, erasesLeft, journal⟩ := m
  rcases readsLeft with _ | _ | left
  · exact .inr ⟨_, rfl, rfl, rfl⟩
  · exact .inl rfl
  · exact .inr ⟨_, rfl, rfl, rfl⟩

theorem admitErase_cases (m : Monitored σ) : admitErase m = .error .injected m ∨
    ∃ m', admitErase m = .ok () m' ∧ m'.medium = m.medium ∧ m'.journal = m.journal := by
  obtain ⟨medium, readsLeft, erasesLeft, journal⟩ := m
  rcases erasesLeft with _ | _ | left
  · exact .inr ⟨_, rfl, rfl, rfl⟩
  · exact .inl rfl
  · exact .inr ⟨_, rfl, rfl, rfl⟩

/-- No call failed so far. -/
def Quiet (m : Monitored σ) : Prop :=
  ∀ entry ∈ m.journal, entry.failure = none

instance (m : Monitored σ) : Decidable m.Quiet :=
  inferInstanceAs (Decidable (∀ entry ∈ m.journal, entry.failure = none))

theorem Quiet.of_suffix {m m' : Monitored σ} (h : m'.Quiet) (hs : m.journal <:+ m'.journal) :
    m.Quiet :=
  fun entry hentry => h entry (hs.subset hentry)

variable [Medium σ]

theorem read_ends (offset length : Nat) (m : Monitored σ) :
    CallEnds (.read offset length) (Medium.read offset length) m (Medium.read offset length m) :=
  journaled_ends _ _ _ m (admitRead_cases m)

theorem erase_ends (offset length : Nat) (m : Monitored σ) :
    CallEnds (.erase offset length) (Medium.erase offset length) m
      (Medium.erase offset length m) :=
  journaled_ends _ _ _ m (admitErase_cases m)

theorem program_ends (offset : Nat) (bytes : List UInt8) (m : Monitored σ) :
    CallEnds (.program offset bytes.length) (Medium.program offset bytes) m
      (Medium.program offset bytes m) :=
  journaled_ends _ _ (pure ()) m (.inr ⟨m, rfl, rfl, rfl⟩)

/-! ### Calls that are refused, and calls that are not -/

theorem read_refused {m : Monitored σ} (h : m.readsLeft = some 0) (offset length : Nat) :
    Medium.read offset length m = .error .injected
      { m with journal := ⟨.read offset length, some .injected⟩ :: m.journal } := by
  have hgate : admitRead m = .error .injected m := by
    rw [admitRead, get_bind, h]
    rfl
  change journaled _ _ m = _
  rw [journaled, bind_of_error hgate]

/-- A call went through, and left the medium in a given state. -/
def after (m : Monitored σ) (medium : σ) (call : Call) : Monitored σ :=
  { m with medium, journal := ⟨call, none⟩ :: m.journal }

/-- A read went through and was counted, and left the medium in a given state. -/
def afterRead (m : Monitored σ) (medium : σ) (offset length : Nat) : Monitored σ :=
  { m.after medium (.read offset length) with readsLeft := m.readsLeft.map (· - 1) }

variable {m : Monitored σ} {offset length : Nat} {bytes : List UInt8} {medium : σ}

/-- A read that may pass is counted. -/
theorem read_counted (h : m.readsLeft ≠ some 0)
    (hread : Medium.read offset length m.medium = .ok bytes medium) :
    Medium.read offset length m = .ok bytes (m.afterRead medium offset length) := by
  obtain ⟨medium', readsLeft, erasesLeft, journal⟩ := m
  have hgate : admitRead (σ := σ) ⟨medium', readsLeft, erasesLeft, journal⟩ =
      .ok () ⟨medium', readsLeft.map (· - 1), erasesLeft, journal⟩ := by
    rw [admitRead, get_bind]
    match readsLeft, h with
    | none, _ => rfl
    | some (left + 1), _ => rfl
  change journaled _ _ _ = _
  rw [journaled, bind_of_ok hgate, inside, hread]
  rfl

theorem read_admitted (h : m.readsLeft = none)
    (hread : Medium.read offset length m.medium = .ok bytes medium) :
    Medium.read offset length m = .ok bytes (m.after medium (.read offset length)) := by
  obtain ⟨medium', readsLeft, erasesLeft, journal⟩ := m
  cases h
  exact read_counted nofun hread

theorem erase_admitted (h : m.erasesLeft = none)
    (herase : Medium.erase offset length m.medium = .ok () medium) :
    Medium.erase offset length m = .ok () (m.after medium (.erase offset length)) := by
  have hgate : admitErase m = .ok () m := by
    rw [admitErase, get_bind, h]
    rfl
  have hinside : inside (Medium.erase offset length) m = .ok () { m with medium } := by
    rw [inside, herase]
  change journaled _ _ m = _
  rw [journaled, bind_of_ok hgate, hinside]
  rfl

theorem program_admitted (hprogram : Medium.program offset bytes m.medium = .ok () medium) :
    Medium.program offset bytes m =
      .ok () (m.after medium (.program offset bytes.length)) := by
  have hinside : inside (Medium.program offset bytes) m = .ok () { m with medium } := by
    rw [inside, hprogram]
  change journaled _ _ m = _
  rw [journaled, hinside]
  rfl

end Flash.Monitored

namespace SaveSlot

open Monitored

/-- Two runs end alike, on the same medium, and not because the medium failed. -/
def EndAlike : EStateM.Result Error (Monitored σ) α → EStateM.Result Error σ α → Prop
  | .ok a m, .ok b s => a = b ∧ m.medium = s
  | .error e m, .error f s => e = f ∧ e ≠ .mediumFailure ∧ m.medium = s
  | _, _ => False

/-- The journal only grows, and as long as no call fails, monitoring makes no difference. -/
structure Mirrors (watched : Action (Monitored σ) α) (action : Action σ α) : Prop where
  grows : ∀ m, m.journal <:+ (stateAfter watched m).journal
  alike : ∀ m, (stateAfter watched m).Quiet → EndAlike (watched m) (action m.medium)

namespace Mirrors

theorem pure (a : α) : Mirrors (σ := σ) (pure a) (pure a) where
  grows _ := List.suffix_refl _
  alike _ _ := ⟨rfl, rfl⟩

theorem throw {e : Error} (h : e ≠ .mediumFailure) :
    Mirrors (σ := σ) (α := α) (throw e) (throw e) where
  grows _ := List.suffix_refl _
  alike _ _ := ⟨rfl, h, rfl⟩

/-- What follows an error is not run. -/
theorem throw_bind {e : Error} (h : e ≠ .mediumFailure) (watchedNext : α → Action (Monitored σ) β)
    (next : α → Action σ β) :
    Mirrors (MonadExcept.throw e >>= watchedNext) (MonadExcept.throw e >>= next) where
  grows _ := List.suffix_refl _
  alike _ _ := ⟨rfl, h, rfl⟩

theorem bind {watched : Action (Monitored σ) α} {action : Action σ α}
    {watchedNext : α → Action (Monitored σ) β} {next : α → Action σ β}
    (first : Mirrors watched action) (second : ∀ a, Mirrors (watchedNext a) (next a)) :
    Mirrors (watched >>= watchedNext) (action >>= next) where
  grows m := by
    have hgrows := first.grows m
    cases h : watched m with
    | ok a m' =>
      rw [stateAfter_of_ok h] at hgrows
      rw [stateAfter, bind_of_ok h]
      exact hgrows.trans ((second a).grows m')
    | error e m' =>
      rw [stateAfter_of_error h] at hgrows
      rwa [stateAfter_of_error (bind_of_error h)]
  alike m hq := by
    have halike := first.alike m
    cases h : watched m with
    | ok a m' =>
      -- The first action was quiet too, as the journal only grew after it.
      have hnext : stateAfter (watched >>= watchedNext) m = stateAfter (watchedNext a) m' := by
        rw [stateAfter, bind_of_ok h, stateAfter]
      rw [hnext] at hq
      rw [stateAfter_of_ok h, h] at halike
      specialize halike (hq.of_suffix ((second a).grows m'))
      cases haction : action m.medium with
      | ok b s =>
        rw [haction] at halike
        obtain ⟨rfl, rfl⟩ := halike
        rw [bind_of_ok h, bind_of_ok haction]
        exact (second a).alike m' hq
      | error e s =>
        rw [haction] at halike
        exact halike.elim
    | error e m' =>
      rw [stateAfter_of_error (bind_of_error h)] at hq
      rw [stateAfter_of_error h, h] at halike
      specialize halike hq
      cases haction : action m.medium with
      | ok b s =>
        rw [haction] at halike
        exact halike.elim
      | error f s =>
        rw [haction] at halike
        rwa [bind_of_error h, bind_of_error haction]

theorem get_bind {watchedNext : Monitored σ → Action (Monitored σ) β} {next : σ → Action σ β}
    (h : ∀ m, Mirrors (watchedNext m) (next m.medium)) :
    Mirrors (get >>= watchedNext) (get >>= next) where
  grows m := (h m).grows m
  alike m hq := (h m).alike m hq

theorem forM {watched : α → Action (Monitored σ) PUnit} {action : α → Action σ PUnit}
    (h : ∀ a, Mirrors (watched a) (action a)) (as : List α) :
    Mirrors (as.forM watched) (as.forM action) := by
  induction as with
  | nil => exact pure _
  | cons a as ih => exact bind (h a) fun _ => ih

/-- A call that is made on the medium itself. -/
theorem onMedium {call : Call} {inner : Flash.Action σ α}
    {watched : Flash.Action (Monitored σ) α} (h : ∀ m, CallEnds call inner m (watched m)) :
    Mirrors (onMedium watched) (onMedium inner) where
  grows m := by
    have hm := h m
    generalize hr : watched m = r at hm
    simp only [stateAfter, SaveSlot.onMedium, EStateM.adaptExcept, hr]
    cases hm with
    | refused m' _ hj => exact hj ▸ List.suffix_cons _ _
    | failed f m' _ hj => exact hj ▸ List.suffix_cons _ _
    | done a m' _ hj => exact hj ▸ List.suffix_cons _ _
  alike m hq := by
    have hm := h m
    generalize hr : watched m = r at hm
    simp only [stateAfter, SaveSlot.onMedium, EStateM.adaptExcept, hr] at hq ⊢
    -- A call that fails is in the journal, which is quiet.
    cases hm with
    | refused m' _ hj => exact absurd (hq _ (hj ▸ List.mem_cons_self)) (by simp)
    | failed f m' _ hj => exact absurd (hq _ (hj ▸ List.mem_cons_self)) (by simp)
    | done a m' hm hj =>
      rw [hm]
      exact ⟨rfl, rfl⟩

end Mirrors

/-- The journal only grows, and as long as no call fails, monitoring makes no difference to an
action that cannot stop. -/
structure Follows (watched : StateM (Monitored σ) α) (action : StateM σ α) : Prop where
  grows : ∀ m, m.journal <:+ (watched m).2.journal
  alike : ∀ m, (watched m).2.Quiet →
    (watched m).1 = (action m.medium).1 ∧ (watched m).2.medium = (action m.medium).2

namespace Follows

theorem pure (a : α) : Follows (σ := σ) (pure a) (pure a) where
  grows _ := List.suffix_refl _
  alike _ _ := ⟨rfl, rfl⟩

theorem bind {watched : StateM (Monitored σ) α} {action : StateM σ α}
    {watchedNext : α → StateM (Monitored σ) β} {next : α → StateM σ β}
    (first : Follows watched action) (second : ∀ a, Follows (watchedNext a) (next a)) :
    Follows (watched >>= watchedNext) (action >>= next) where
  grows m := (first.grows m).trans ((second _).grows _)
  alike m hq := by
    obtain ⟨hresult, hmedium⟩ := first.alike m (hq.of_suffix ((second _).grows _))
    have hnext := (second (watched m).1).alike (watched m).2 hq
    have hrun : (action >>= next) m.medium = next (action m.medium).1 (action m.medium).2 := rfl
    rw [hrun, ← hresult, ← hmedium]
    exact hnext

end Follows

theorem snd_attempt {τ : Type} (action : Action τ α) (s : τ) :
    (attempt action s).2 = stateAfter action s := by
  rw [SaveSlot.attempt, stateAfter]
  cases action s <;> rfl

theorem Mirrors.attempt {watched : Action (Monitored σ) α} {action : Action σ α}
    (h : Mirrors watched action) : Follows (attempt watched) (attempt action) where
  grows m := by
    rw [snd_attempt]
    exact h.grows m
  alike m hq := by
    rw [snd_attempt] at hq
    have halike := h.alike m hq
    unfold SaveSlot.attempt
    cases hwatched : watched m with
    | ok a m' =>
      rw [hwatched] at halike
      cases haction : action m.medium with
      | ok b s =>
        rw [haction] at halike
        exact ⟨congrArg Except.ok halike.1, halike.2⟩
      | error e s =>
        rw [haction] at halike
        exact halike.elim
    | error e m' =>
      rw [hwatched] at halike
      cases haction : action m.medium with
      | ok b s =>
        rw [haction] at halike
        exact halike.elim
      | error f s =>
        rw [haction] at halike
        exact ⟨congrArg Except.error halike.1, halike.2.2⟩

variable [Medium σ]

theorem mirrors_readRaw (offset length : Nat) :
    Mirrors (σ := σ) (readRaw offset length) (readRaw offset length) :=
  .onMedium (read_ends offset length)

theorem mirrors_header : Mirrors (σ := σ) header header :=
  .bind (mirrors_readRaw _ _) fun _ => .pure _

theorem mirrors_read : Mirrors (σ := σ) read read := by
  refine .bind mirrors_header fun header => ?_
  split
  · exact .throw_bind (by decide) _ _
  refine .get_bind fun m => ?_
  have hgeometry : Medium.geometry m = Medium.geometry m.medium := rfl
  simp only [hgeometry]
  split
  · exact .throw_bind (by decide) _ _
  refine .bind (mirrors_readRaw _ _) fun terminator => ?_
  split
  · exact .throw_bind (by decide) _ _
  refine .bind (mirrors_readRaw _ _) fun bytes => ?_
  split
  · exact .pure _
  · exact .throw (by decide)

theorem mirrors_write (text : String) : Mirrors (σ := σ) (write text) (write text) := by
  refine .get_bind fun m => ?_
  have hgeometry : Medium.geometry m = Medium.geometry m.medium := rfl
  simp only [hgeometry]
  split
  · exact .throw_bind (by decide) _ _
  refine .bind (.onMedium (erase_ends _ _)) fun _ => ?_
  exact .forM (fun ⟨offset, page⟩ => .onMedium (program_ends offset page)) _

theorem follows_isValid : Follows (σ := σ) isValid isValid := by
  refine .bind mirrors_header.attempt fun result => ?_
  split
  · exact .pure _
  · exact .pure _

end SaveSlot

end MotionMidi
