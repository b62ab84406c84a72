import MotionMidi.Handset.Bus

/-!
# A scripted handset

A bus with one handset that plays reports back, on which chosen transactions fail.

## Main definitions

- `ScriptedBus` — the script, and what happened so far
- `BusEvent` — writes, reads, and pauses, failed ones included
-/

namespace MotionMidi

/-- What happens on a bus. -/
inductive BusEvent where
  | write (address : Nat) (bytes : List UInt8)
  | read (address : Nat) (length : Nat)
  | delay (duration : Nat)
  deriving DecidableEq, Repr

/-- A bus with a handset that serves its calibration block from one register and its reports, one
after the other, from all others. -/
structure ScriptedBus where
  calibration : Vector UInt8 16
  /-- The reports that are still to come; the last one is repeated. -/
  reports : List (Vector UInt8 6)
  /-- The transactions that fail, counted from zero. -/
  failing : List Nat
  /-- The selected register. -/
  register : UInt8 := 0
  /-- The number of transactions so far. -/
  transactions : Nat := 0
  /-- What happened so far, the latest event first. -/
  events : List BusEvent := []
  deriving DecidableEq, Repr

namespace ScriptedBus

/-- Notes an event down. -/
def log (event : BusEvent) : BusAction ScriptedBus Unit :=
  modify fun bus => { bus with events := event :: bus.events }

/-- Begins a transaction, which fails if the script says so. -/
def transact (event : BusEvent) : BusAction ScriptedBus Unit := do
  log event
  let bus ← get
  set { bus with transactions := bus.transactions + 1 }
  if bus.transactions ∈ bus.failing then throw .notAcknowledged

/-- The first `length` of some bytes, filled up with zeros. -/
def serve (bytes : List UInt8) (length : Nat) : Vector UInt8 length :=
  .ofFn fun i => bytes.getD i 0

/-- The reports that are left once the first one was served. -/
def advance : List (Vector UInt8 6) → List (Vector UInt8 6)
  | _ :: next :: reports => next :: reports
  | reports => reports

/-- Takes the bytes of the selected register. -/
def takeSelected : BusAction ScriptedBus (List UInt8) := do
  let bus ← get
  if bus.register = Handset.calibrationRegister then return bus.calibration.toList
  else
    set { bus with reports := advance bus.reports }
    return (bus.reports.head?.map (·.toList)).getD []

instance : Bus ScriptedBus where
  write address bytes := do
    transact (.write address bytes)
    if let some register := bytes.head? then modify fun bus => { bus with register }
  read address length := do
    transact (.read address length)
    return serve (← takeSelected) length
  delay duration := log (.delay duration)

end ScriptedBus

end MotionMidi
