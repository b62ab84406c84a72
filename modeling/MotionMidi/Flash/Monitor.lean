import MotionMidi.Flash.Medium

/-!
# Monitored media

A medium whose calls are written down, and some of which are made to fail.

## Main definitions

- `Flash.Call`, `Flash.Entry` — a call of a medium, and how it ended
- `Flash.Monitored` — a medium, the calls that are still let through, and the calls so far
-/

namespace MotionMidi.Flash

/-- A call of a medium. -/
inductive Call where
  | read (offset length : Nat)
  | erase (offset length : Nat)
  | program (offset length : Nat)
  deriving DecidableEq, Repr

/-- A call, and why it failed if it did. -/
structure Entry where
  call : Call
  failure : Option Failure
  deriving DecidableEq, Repr

/-- A medium under observation. -/
structure Monitored (σ : Type) where
  medium : σ
  /-- How many reads are let through before all fail, if some will. -/
  readsLeft : Option Nat := none
  /-- How many erases are let through before all fail, if some will. -/
  erasesLeft : Option Nat := none
  /-- The calls so far, the latest one first. -/
  journal : List Entry := []
  deriving DecidableEq, Repr

namespace Monitored

variable {σ α : Type}

/-- An action of the medium itself. -/
def inside (action : Action σ α) : Action (Monitored σ) α := fun monitored =>
  match action monitored.medium with
  | .ok a medium => .ok a { monitored with medium }
  | .error failure medium => .error failure { monitored with medium }

/-- Writes down how a call ends. -/
def journaled (call : Call) (action : Action (Monitored σ) α) : Action (Monitored σ) α :=
  fun monitored =>
    match action monitored with
    | .ok a monitored =>
      .ok a { monitored with journal := { call, failure := none } :: monitored.journal }
    | .error failure monitored =>
      .error failure
        { monitored with journal := { call, failure := some failure } :: monitored.journal }

/-- Lets a read through, if it may pass. -/
def admitRead : Action (Monitored σ) Unit := do
  let monitored ← get
  match monitored.readsLeft with
  | none => return
  | some 0 => throw .injected
  | some (left + 1) => set { monitored with readsLeft := some left }

/-- Lets an erase through, if it may pass. -/
def admitErase : Action (Monitored σ) Unit := do
  let monitored ← get
  match monitored.erasesLeft with
  | none => return
  | some 0 => throw .injected
  | some (left + 1) => set { monitored with erasesLeft := some left }

instance [Medium σ] : Medium (Monitored σ) where
  geometry monitored := Medium.geometry monitored.medium
  read offset length := journaled (.read offset length) do
    admitRead
    inside (Medium.read offset length)
  erase offset length := journaled (.erase offset length) do
    admitErase
    inside (Medium.erase offset length)
  program offset bytes := journaled (.program offset bytes.length) do
    inside (Medium.program offset bytes)

end Monitored

end MotionMidi.Flash
