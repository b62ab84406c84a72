/-!
# Effects

Rules for actions that change a state and may stop early.

## Main definitions

- `stateAfter` — the state an action leaves, whether it succeeds or stops
- `Leads` — the states in which an action succeeds, and those in which it stops
- `Keeps` — a property that an action keeps
- `Returns`, `Steps` — what an action that cannot stop returns, and what it does to the state
-/

namespace MotionMidi

variable {ε σ α β : Type}

/-- The state an action leaves, whether it succeeds or stops. -/
def stateAfter (action : EStateM ε σ α) (s : σ) : σ :=
  match action s with
  | .ok _ s => s
  | .error _ s => s

theorem stateAfter_of_ok {action : EStateM ε σ α} {s s' : σ} {a : α}
    (h : action s = .ok a s') : stateAfter action s = s' := by
  rw [stateAfter, h]

theorem stateAfter_of_error {action : EStateM ε σ α} {s s' : σ} {e : ε}
    (h : action s = .error e s') : stateAfter action s = s' := by
  rw [stateAfter, h]

theorem bind_of_ok {action : EStateM ε σ α} {next : α → EStateM ε σ β} {s s' : σ} {a : α}
    (h : action s = .ok a s') : (action >>= next) s = next a s' := by
  change EStateM.bind action next s = next a s'
  rw [EStateM.bind, h]

theorem bind_of_error {action : EStateM ε σ α} {next : α → EStateM ε σ β} {s s' : σ} {e : ε}
    (h : action s = .error e s') : (action >>= next) s = .error e s' := by
  change EStateM.bind action next s = .error e s'
  rw [EStateM.bind, h]

theorem run'_of_ok {action : EStateM ε σ α} {s s' : σ} {a : α}
    (h : action s = .ok a s') : action.run' s = some a := by
  delta EStateM.run' EStateM.run
  rw [h]

theorem run'_of_error {action : EStateM ε σ α} {s s' : σ} {e : ε}
    (h : action s = .error e s') : action.run' s = none := by
  delta EStateM.run' EStateM.run
  rw [h]

theorem get_bind (next : σ → EStateM ε σ β) (s : σ) : (get >>= next) s = next s s := rfl

/-- From a state with `P`, an action succeeds in a state with `Q` or stops in one with `E`. -/
def Leads (P : σ → Prop) (action : EStateM ε σ α) (Q E : σ → Prop) : Prop :=
  ∀ s, P s →
    match action s with
    | .ok _ s' => Q s'
    | .error _ s' => E s'

/-- A property is kept, whether the action succeeds or stops. -/
abbrev Keeps (P : σ → Prop) (action : EStateM ε σ α) : Prop :=
  Leads P action P P

namespace Leads

variable {P Q R E : σ → Prop} {action : EStateM ε σ α}

theorem of_ok (h : Leads P action Q E) {s s' : σ} {a : α} (hs : P s)
    (hok : action s = .ok a s') : Q s' := by
  have hrun := h s hs
  rw [hok] at hrun
  exact hrun

theorem of_error (h : Leads P action Q E) {s s' : σ} {e : ε} (hs : P s)
    (herror : action s = .error e s') : E s' := by
  have hrun := h s hs
  rw [herror] at hrun
  exact hrun

theorem pure (a : α) : Leads P (pure a : EStateM ε σ α) P E :=
  fun _ h => h

theorem throw (e : ε) : Leads P (throw e : EStateM ε σ α) Q P :=
  fun _ h => h

/-- What follows an error is not run. -/
theorem throw_bind (e : ε) (next : α → EStateM ε σ β) :
    Leads P ((MonadExcept.throw e : EStateM ε σ α) >>= next) R P :=
  fun _ h => h

theorem modify {f : σ → σ} (h : ∀ s, P s → Q (f s)) :
    Leads P (modify f : EStateM ε σ PUnit) Q E :=
  h

theorem bind {next : α → EStateM ε σ β} (first : Leads P action Q E)
    (second : ∀ a, Leads Q (next a) R E) : Leads P (action >>= next) R E := by
  intro s hs
  cases h : action s with
  | ok a s' =>
    rw [bind_of_ok h]
    exact second a s' (first.of_ok hs h)
  | error e s' =>
    rw [bind_of_error h]
    exact first.of_error hs h

theorem get_bind {next : σ → EStateM ε σ β} (h : ∀ s, P s → Leads P (next s) Q E) :
    Leads P (get >>= next) Q E :=
  fun s hs => h s hs s hs

theorem forM {action : α → EStateM ε σ PUnit} (h : ∀ a, Leads P (action a) P E) (as : List α) :
    Leads P (as.forM action) P E := by
  induction as with
  | nil => exact pure _
  | cons a as ih => exact bind (h a) fun _ => ih

theorem mono (h : Leads P action Q E) (hQ : ∀ s, Q s → R s) : Leads P action R E := by
  intro s hs
  cases hrun : action s with
  | ok a s' => exact hQ s' (h.of_ok hs hrun)
  | error e s' => exact h.of_error hs hrun

/-- Less may be said of the states in which an action stops. -/
theorem weaken {F : σ → Prop} (h : Leads P action Q E) (hE : ∀ s, E s → F s) :
    Leads P action Q F := by
  intro s hs
  cases hrun : action s with
  | ok a s' => exact h.of_ok hs hrun
  | error e s' => exact hE s' (h.of_error hs hrun)

/-- What holds for each value of a parameter holds where the parameter is not known. -/
theorem exists_left {ι : Type} {P : ι → σ → Prop} (h : ∀ i, Leads (P i) action Q E) :
    Leads (fun s => ∃ i, P i s) action Q E :=
  fun s ⟨i, hs⟩ => h i s hs

end Leads

theorem bind_run (action : StateM σ α) (next : α → StateM σ β) (s : σ) :
    (action >>= next) s = next (action s).1 (action s).2 := rfl

/-- Whatever an action that cannot stop returns has a property. -/
def Returns (P : α → Prop) (action : StateM σ α) : Prop :=
  ∀ s, P (action s).1

namespace Returns

variable {P : α → Prop} {Q : β → Prop}

theorem pure {a : α} (h : P a) : Returns P (pure a : StateM σ α) :=
  fun _ => h

theorem trivial (action : StateM σ α) : Returns (fun _ => True) action :=
  fun _ => True.intro

theorem bind {action : StateM σ α} {next : α → StateM σ β} (first : Returns P action)
    (second : ∀ a, P a → Returns Q (next a)) : Returns Q (action >>= next) := by
  intro s
  exact second (action s).1 (first s) (action s).2

end Returns

/-- The states before and after an action that cannot stop are related. -/
def Steps (R : σ → σ → Prop) (action : StateM σ α) : Prop :=
  ∀ s, R s (action s).2

namespace Steps

variable {R : σ → σ → Prop}

theorem pure (refl : ∀ s, R s s) (a : α) : Steps R (pure a : StateM σ α) :=
  refl

theorem bind (trans : ∀ {r s t}, R r s → R s t → R r t) {action : StateM σ α}
    {next : α → StateM σ β} (first : Steps R action) (second : ∀ a, Steps R (next a)) :
    Steps R (action >>= next) := by
  intro s
  exact trans (first s) (second (action s).1 (action s).2)

end Steps

end MotionMidi
