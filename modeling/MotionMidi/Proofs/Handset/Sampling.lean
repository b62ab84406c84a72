import Mathlib.Data.Nat.Find
import Mathlib.Data.Set.Insert
import Mathlib.Logic.Function.Iterate
import MotionMidi.Handset.Scripted
import MotionMidi.Proofs.Effect

/-!
# Sampling over a faulty bus

The handset keeps the selected register while transactions fail. Whichever fail, the readings are
those of its reports, one after the other: none is left out, and none is made from bytes of another
register.

## Main definitions

- `ScriptedBus.transacted` — the transactions so far
- `ScriptedBus.Adds` — some transactions were made between two states of a bus
- `ScriptedBus.Stops` — an action stops after some transactions
- `ScriptedBus.nthReport` — the report that is served after so many others
- `ScriptedBus.Sampled` — what holds of a bus while it is read
- `Handset.SampleEnds` — how the fetching of a report ends

Main statements: `Handset.sample_ends`, `Handset.sampled_iterate`,
`Handset.readings_follow_reports`.
-/

namespace MotionMidi

/-- The event is no pause. -/
def BusEvent.isTransaction : BusEvent → Bool
  | .write _ _ | .read _ _ => true
  | .delay _ => false

namespace ScriptedBus

/-- The transactions so far, failed ones included. -/
def transacted (bus : ScriptedBus) : List BusEvent :=
  bus.events.reverse.filter (·.isTransaction)

/-- The next transaction fails. -/
def Fails (bus : ScriptedBus) : Prop :=
  bus.transactions ∈ bus.failing

/-! ## What transactions leave behind -/

/-- The bus once a transaction has begun. -/
def begin (event : BusEvent) (bus : ScriptedBus) : ScriptedBus :=
  { bus with transactions := bus.transactions + 1, events := event :: bus.events }

/-- The bus once there was a pause. -/
def pause (duration : Nat) (bus : ScriptedBus) : ScriptedBus :=
  { bus with events := .delay duration :: bus.events }

/-- The bus once the handset was sent bytes, the first of which selects a register. -/
def sent (register : UInt8) (bytes : List UInt8) (bus : ScriptedBus) : ScriptedBus :=
  { bus.begin (.write Handset.address (register :: bytes)) with register }

/-- Some transactions were made between two states of a bus, and no report was served. -/
structure Adds (events : List BusEvent) (bus bus' : ScriptedBus) : Prop where
  transacted : bus'.transacted = bus.transacted ++ events
  transactions : bus'.transactions = bus.transactions + events.length
  failing : bus'.failing = bus.failing
  reports : bus'.reports = bus.reports

namespace Adds

theorem trans {events events' : List BusEvent} {bus bus' bus'' : ScriptedBus}
    (h : Adds events bus bus') (h' : Adds events' bus' bus'') :
    Adds (events ++ events') bus bus'' where
  transacted := by rw [h'.transacted, h.transacted, List.append_assoc]
  transactions := by rw [h'.transactions, h.transactions, List.length_append, Nat.add_assoc]
  failing := h'.failing.trans h.failing
  reports := h'.reports.trans h.reports

theorem begin (bus : ScriptedBus) {event : BusEvent} (h : event.isTransaction) :
    Adds [event] bus (bus.begin event) where
  transacted := by
    rw [ScriptedBus.transacted, ScriptedBus.begin, List.reverse_cons, List.filter_append,
      List.filter_cons_of_pos h]
    rfl
  transactions := rfl
  failing := rfl
  reports := rfl

theorem pause (bus : ScriptedBus) (duration : Nat) : Adds [] bus (bus.pause duration) where
  transacted := by
    rw [ScriptedBus.transacted, ScriptedBus.pause, List.reverse_cons, List.filter_append]
    rfl
  transactions := rfl
  failing := rfl
  reports := rfl

theorem sent (bus : ScriptedBus) (register : UInt8) (bytes : List UInt8) :
    Adds [.write Handset.address (register :: bytes)] bus (bus.sent register bytes) :=
  ⟨(begin bus rfl).transacted, rfl, rfl, rfl⟩

end Adds

section Runs

variable {bus : ScriptedBus} {α : Type}

theorem transact_of_fails (h : bus.Fails) (event : BusEvent) :
    transact event bus = .error .notAcknowledged (bus.begin event) := by
  change (if bus.transactions ∈ bus.failing then throw .notAcknowledged else pure () :
    BusAction ScriptedBus Unit) (bus.begin event) = _
  exact congrFun (if_pos h) (bus.begin event)

theorem transact_of_not_fails (h : ¬bus.Fails) (event : BusEvent) :
    transact event bus = .ok () (bus.begin event) := by
  change (if bus.transactions ∈ bus.failing then throw .notAcknowledged else pure () :
    BusAction ScriptedBus Unit) (bus.begin event) = _
  exact congrFun (if_neg h) (bus.begin event)

theorem write_bind (h : ¬bus.Fails) (register : UInt8) (bytes : List UInt8)
    (next : Unit → BusAction ScriptedBus α) :
    (Bus.write Handset.address (register :: bytes) >>= next) bus =
      next () (bus.sent register bytes) :=
  bind_of_ok (bind_of_ok (transact_of_not_fails h _))

theorem delay_bind (duration : Nat) (next : Unit → BusAction ScriptedBus α) :
    (Bus.delay duration >>= next) bus = next () (bus.pause duration) :=
  bind_of_ok rfl

theorem read_calibration (h : ¬bus.Fails) (hregister : bus.register = Handset.calibrationRegister)
    (length : Nat) :
    (Bus.read Handset.address length : BusAction ScriptedBus _) bus =
      .ok (serve bus.calibration.toList length) (bus.begin (.read Handset.address length)) := by
  have htake : takeSelected (bus.begin (.read Handset.address length)) =
      .ok bus.calibration.toList (bus.begin (.read Handset.address length)) :=
    congrFun (if_pos hregister) _
  exact (bind_of_ok (transact_of_not_fails h _)).trans (bind_of_ok htake)

theorem read_report (h : ¬bus.Fails) (hregister : bus.register ≠ Handset.calibrationRegister)
    (length : Nat) :
    (Bus.read Handset.address length : BusAction ScriptedBus _) bus =
      .ok (serve ((bus.reports.head?.map (·.toList)).getD []) length)
        { bus.begin (.read Handset.address length) with reports := advance bus.reports } := by
  have htake : takeSelected (bus.begin (.read Handset.address length)) =
      .ok ((bus.reports.head?.map (·.toList)).getD [])
        { bus.begin (.read Handset.address length) with reports := advance bus.reports } :=
    congrFun (if_neg hregister) _
  exact (bind_of_ok (transact_of_not_fails h _)).trans (bind_of_ok htake)

/-- An action stops after some transactions, the last of which failed. -/
def Stops (action : BusAction ScriptedBus α) (events : List BusEvent) (bus : ScriptedBus) : Prop :=
  ∃ bus', action bus = .error .notAcknowledged bus' ∧ Adds events bus bus'

namespace Stops

variable {events : List BusEvent}

theorem write (h : bus.Fails) (bytes : List UInt8) :
    Stops (Bus.write Handset.address bytes) [.write Handset.address bytes] bus :=
  ⟨_, bind_of_error (transact_of_fails h _), .begin _ rfl⟩

theorem read (h : bus.Fails) (length : Nat) :
    Stops (Bus.read Handset.address length) [.read Handset.address length] bus :=
  ⟨_, bind_of_error (transact_of_fails h _), .begin _ rfl⟩

/-- What follows is not run. -/
theorem bind {β : Type} {action : BusAction ScriptedBus α} (h : Stops action events bus)
    (next : α → BusAction ScriptedBus β) : Stops (action >>= next) events bus := by
  obtain ⟨bus', hrun, hadds⟩ := h
  exact ⟨bus', bind_of_error hrun, hadds⟩

variable {next : Unit → BusAction ScriptedBus α}

theorem after_delay {duration : Nat} (h : Stops (next ()) events (bus.pause duration)) :
    Stops (Bus.delay duration >>= next) events bus := by
  obtain ⟨bus', hrun, hadds⟩ := h
  exact ⟨bus', (delay_bind _ _).trans hrun, (Adds.pause _ _).trans hadds⟩

theorem after_write (hpass : ¬bus.Fails) {register : UInt8} {bytes : List UInt8}
    (h : Stops (next ()) events (bus.sent register bytes)) :
    Stops (Bus.write Handset.address (register :: bytes) >>= next)
      (.write Handset.address (register :: bytes) :: events) bus := by
  obtain ⟨bus', hrun, hadds⟩ := h
  exact ⟨bus', (write_bind hpass _ _ _).trans hrun, (Adds.sent _ _ _).trans hadds⟩

end Stops

end Runs

/-! ## The reports that are served -/

theorem serve_toList {length : Nat} (bytes : Vector UInt8 length) :
    serve bytes.toList length = bytes := by
  ext i hi
  simp [serve]

/-- The report that is served after so many others: the last one is repeated, and without any,
all bytes are zero. -/
def nthReport (reports : List (Vector UInt8 6)) (n : Nat) : Vector UInt8 6 :=
  reports[min n (reports.length - 1)]?.getD (.replicate 6 0)

theorem advance_eq (reports : List (Vector UInt8 6)) :
    advance reports = reports.drop (min 1 (reports.length - 1)) := by
  match reports with
  | [] | [_] => rfl
  | _ :: next :: reports =>
    rw [Nat.min_eq_left (by simp)]
    rfl

theorem advance_drop (reports : List (Vector UInt8 6)) (n : Nat) :
    advance (reports.drop (min n (reports.length - 1))) =
      reports.drop (min (n + 1) (reports.length - 1)) := by
  rw [advance_eq, List.drop_drop, List.length_drop]
  congr 1
  omega

theorem serve_head (reports : List (Vector UInt8 6)) (n : Nat) :
    serve (((reports.drop (min n (reports.length - 1))).head?.map (·.toList)).getD []) 6 =
      nthReport reports n := by
  rw [List.head?_drop, nthReport]
  cases reports[min n (reports.length - 1)]? with
  | none => decide
  | some report => exact serve_toList report

/-- What holds of a bus while its script is read, when so many reports were served. -/
structure Sampled (script : ScriptedBus) (served : Nat) (bus : ScriptedBus) : Prop where
  failing : bus.failing = script.failing
  reports : bus.reports = script.reports.drop (min served (script.reports.length - 1))
  numbered : bus.transactions = bus.transacted.length

theorem Sampled.adds {script bus bus' : ScriptedBus} {served : Nat} {events : List BusEvent}
    (h : Sampled script served bus) (hadds : Adds events bus bus') :
    Sampled script served bus' where
  failing := hadds.failing.trans h.failing
  reports := hadds.reports.trans h.reports
  numbered := by rw [hadds.transactions, hadds.transacted, List.length_append, h.numbered]

end ScriptedBus

namespace Handset

open ScriptedBus

variable {bus : ScriptedBus}

/-- The transactions that wake the handset. -/
def wakePlan : List BusEvent :=
  [.write address [0xf0, 0x55], .write address [0xfb, 0x00],
    .write address [calibrationRegister], .read address 16]

/-- The transaction that selects the register of the report. -/
def selection : BusEvent :=
  .write address [reportRegister]

/-- The transactions that fetch a report. -/
def samplePlan : List BusEvent :=
  [selection, .read address 6]

/-! ## Registers -/

/-- Without its register, nothing is fetched. -/
theorem fetch_stops_unselected (h : bus.transactions ∈ bus.failing) (register : UInt8)
    (length : Nat) : Stops (fetch register length) [.write address [register]] bus :=
  (Stops.write h _).bind _

theorem fetch_stops_unread (hselect : bus.transactions ∉ bus.failing)
    (hread : bus.transactions + 1 ∈ bus.failing) (register : UInt8) (length : Nat) :
    Stops (fetch register length) [.write address [register], .read address length] bus := by
  refine .after_write hselect (.after_delay ?_)
  exact .read (by exact hread) length

/-- The bus once a register was selected and read. -/
def fetched (register : UInt8) (length : Nat) (bus : ScriptedBus) : ScriptedBus :=
  ((bus.sent register []).pause 3000).begin (.read address length)

theorem adds_fetched (register : UInt8) (length : Nat) (bus : ScriptedBus) :
    Adds [.write address [register], .read address length] bus (fetched register length bus) :=
  ((Adds.sent _ _ _).trans (.pause _ _)).trans (.begin _ rfl)

theorem fetch_calibration (hselect : bus.transactions ∉ bus.failing)
    (hread : bus.transactions + 1 ∉ bus.failing) :
    fetch calibrationRegister 16 bus =
      .ok bus.calibration (fetched calibrationRegister 16 bus) := by
  rw [fetch, write_bind hselect, delay_bind, read_calibration (by exact hread) rfl]
  exact congrArg (EStateM.Result.ok · _) (serve_toList bus.calibration)

theorem reportRegister_ne : reportRegister ≠ calibrationRegister := by
  decide

theorem fetch_report (hselect : bus.transactions ∉ bus.failing)
    (hread : bus.transactions + 1 ∉ bus.failing) :
    fetch reportRegister 6 bus =
      .ok (serve ((bus.reports.head?.map (·.toList)).getD []) 6)
        { fetched reportRegister 6 bus with reports := advance bus.reports } := by
  rw [fetch, write_bind hselect, delay_bind]
  exact read_report (by exact hread) reportRegister_ne 6

/-! ## Waking -/

/-- The handset is not woken once a transaction fails, and none follows. -/
theorem wake_stops (bus : ScriptedBus) {k : Nat} (hk : k < 4)
    (hpass : ∀ j < k, bus.transactions + j ∉ bus.failing)
    (hfail : bus.transactions + k ∈ bus.failing) :
    Stops wake (wakePlan.take (k + 1)) bus := by
  refine .after_delay ?_
  obtain _ | k := k
  · exact .bind (.write (by exact hfail) _) _
  refine .after_write (by exact hpass 0 (Nat.succ_pos k)) (.after_delay ?_)
  obtain _ | k := k
  · exact .bind (.write (by exact hfail) _) _
  refine .after_write (by exact hpass 1 (by omega)) (.after_delay ?_)
  obtain _ | k := k
  · exact .bind (fetch_stops_unselected (by exact hfail) _ _) _
  obtain rfl : k = 0 := by omega
  exact .bind (fetch_stops_unread (by exact hpass 2 (by decide)) (by exact hfail) _ _) _

/-- The handset is woken where no transaction fails. -/
theorem wake_passes (bus : ScriptedBus) (hpass : ∀ j < 4, bus.transactions + j ∉ bus.failing) :
    ∃ bus', wake bus = .ok (Calibration.decode bus.calibration) bus' ∧ Adds wakePlan bus bus' := by
  let nudged := ((bus.pause 100000).sent 0xf0 [0x55]).pause 100000
  let awake := (nudged.sent 0xfb [0x00]).pause 100000
  have hfetch : fetch calibrationRegister 16 awake =
      .ok awake.calibration (fetched calibrationRegister 16 awake) :=
    fetch_calibration (by exact hpass 2 (by decide)) (by exact hpass 3 (by decide))
  refine ⟨fetched calibrationRegister 16 awake, ?_, ?_⟩
  · rw [wake, delay_bind, write_bind (by exact hpass 0 (by decide)), delay_bind,
      write_bind (by exact hpass 1 (by decide)), delay_bind]
    exact bind_of_ok hfetch
  · have hnudged := ((Adds.pause bus 100000).trans (.sent _ 0xf0 [0x55])).trans (.pause _ 100000)
    have hawake := (hnudged.trans (.sent _ 0xfb [0x00])).trans (.pause _ 100000)
    exact hawake.trans (adds_fetched _ _ _)

theorem isSome_wake_iff (bus : ScriptedBus) :
    (wake.run' bus).isSome ↔ ∀ k < 4, bus.transactions + k ∉ bus.failing := by
  constructor
  · intro hready k hk hfail
    have hsome : ∃ k, k < 4 ∧ bus.transactions + k ∈ bus.failing := ⟨k, hk, hfail⟩
    obtain ⟨hfirst, hfails⟩ := Nat.find_spec hsome
    obtain ⟨bus', hrun, -⟩ := wake_stops bus hfirst
      (fun j hj hj' => Nat.find_min hsome hj ⟨Nat.lt_trans hj hfirst, hj'⟩) hfails
    rw [run'_of_error hrun] at hready
    cases hready
  · intro hpass
    obtain ⟨bus', hrun, -⟩ := wake_passes bus hpass
    rw [run'_of_ok hrun]
    rfl

/-! ## Samples -/

/-- How the fetching of a report ends. Only a report that arrives is used up. -/
inductive SampleEnds (calibration : Calibration) (script : ScriptedBus) (served : Nat)
    (bus : ScriptedBus) : EStateM.Result BusFailure ScriptedBus Reading → Prop
  | unselected (bus' : ScriptedBus) (hselect : bus.transacted.length ∈ script.failing)
      (htransacted : bus'.transacted = bus.transacted ++ [selection])
      (hsampled : Sampled script served bus') :
      SampleEnds calibration script served bus (.error .notAcknowledged bus')
  | unread (bus' : ScriptedBus) (hselect : bus.transacted.length ∉ script.failing)
      (hread : bus.transacted.length + 1 ∈ script.failing)
      (htransacted : bus'.transacted = bus.transacted ++ samplePlan)
      (hsampled : Sampled script served bus') :
      SampleEnds calibration script served bus (.error .notAcknowledged bus')
  | read (bus' : ScriptedBus) (hselect : bus.transacted.length ∉ script.failing)
      (hread : bus.transacted.length + 1 ∉ script.failing)
      (htransacted : bus'.transacted = bus.transacted ++ samplePlan)
      (hsampled : Sampled script (served + 1) bus') :
      SampleEnds calibration script served bus
        (.ok (calibration.reading (Report.decode (nthReport script.reports served))) bus')

theorem sample_ends (calibration : Calibration) {script : ScriptedBus} {served : Nat}
    (h : Sampled script served bus) :
    SampleEnds calibration script served bus (sample calibration bus) := by
  have hnumber (k : Nat) : bus.transactions + k ∈ bus.failing ↔
      bus.transacted.length + k ∈ script.failing := by
    rw [h.failing, h.numbered]
  by_cases hselect : bus.transactions ∈ bus.failing
  · obtain ⟨bus', hrun, hadds⟩ :=
      Stops.bind (fetch_stops_unselected hselect reportRegister 6)
        fun bytes => pure (calibration.reading (Report.decode bytes))
    rw [sample, hrun]
    exact .unselected bus' ((hnumber 0).mp hselect) hadds.transacted (h.adds hadds)
  by_cases hread : bus.transactions + 1 ∈ bus.failing
  · obtain ⟨bus', hrun, hadds⟩ :=
      Stops.bind (fetch_stops_unread hselect hread reportRegister 6)
        fun bytes => pure (calibration.reading (Report.decode bytes))
    rw [sample, hrun]
    exact .unread bus' (mt (hnumber 0).mpr hselect) ((hnumber 1).mp hread) hadds.transacted
      (h.adds hadds)
  · have hadds := adds_fetched reportRegister 6 bus
    have hsampled := h.adds hadds
    rw [sample, bind_of_ok (fetch_report hselect hread), h.reports, serve_head, advance_drop]
    exact .read _ (mt (hnumber 0).mpr hselect) (mt (hnumber 1).mpr hread) hadds.transacted
      ⟨hsampled.failing, rfl, hsampled.numbered⟩

/-- Where a report is used up, its reading is given. -/
theorem SampleEnds.sampled {calibration : Calibration} {script : ScriptedBus} {served : Nat}
    (h : SampleEnds calibration script served bus (sample calibration bus)) :
    let given := ((sample calibration).run' bus).toList
    Sampled script (served + given.length) (stateAfter (sample calibration) bus) ∧
      (given = [] ∨
        given = [calibration.reading (Report.decode (nthReport script.reports served))]) := by
  generalize hrun : sample calibration bus = result at h
  cases h with
  | unselected bus' _ _ hsampled | unread bus' _ _ _ hsampled =>
    rw [run'_of_error hrun, stateAfter_of_error hrun]
    exact ⟨hsampled, .inl rfl⟩
  | read bus' _ _ _ hsampled =>
    rw [run'_of_ok hrun, stateAfter_of_ok hrun]
    exact ⟨hsampled, .inr rfl⟩

/-- The register is selected, the report is only read where that succeeded, and the fetching fails
where one of the two transactions does. -/
theorem SampleEnds.transacted {calibration : Calibration} {script : ScriptedBus} {served : Nat}
    (h : SampleEnds calibration script served bus (sample calibration bus)) :
    let number := bus.transacted.length
    (stateAfter (sample calibration) bus).transacted =
        bus.transacted ++ (if number ∈ script.failing then [selection] else samplePlan) ∧
      (((sample calibration).run' bus).isSome ↔
        number ∉ script.failing ∧ number + 1 ∉ script.failing) := by
  generalize hrun : sample calibration bus = result at h
  cases h with
  | unselected bus' hselect htransacted =>
    rw [run'_of_error hrun, stateAfter_of_error hrun]
    simp [htransacted, hselect]
  | unread bus' hselect hread htransacted =>
    rw [run'_of_error hrun, stateAfter_of_error hrun]
    simp [htransacted, hselect, hread]
  | read bus' hselect hread htransacted =>
    rw [run'_of_ok hrun, stateAfter_of_ok hrun]
    simp [htransacted, hselect, hread]

/-! ## Runs -/

section Runs

variable (calibration : Calibration) (woken : ScriptedBus)

/-- The bus before the sample with that number, whichever failed before. -/
def busBefore (n : Nat) : ScriptedBus :=
  (stateAfter (sample calibration))^[n] woken

/-- The readings that so many samples give; some may fail. -/
def readings (n : Nat) : List Reading :=
  (List.range n).filterMap fun i => (sample calibration).run' (busBefore calibration woken i)

theorem busBefore_succ (n : Nat) :
    busBefore calibration woken (n + 1) =
      stateAfter (sample calibration) (busBefore calibration woken n) :=
  Function.iterate_succ_apply' _ _ _

theorem readings_succ (n : Nat) :
    readings calibration woken (n + 1) = readings calibration woken n ++
      ((sample calibration).run' (busBefore calibration woken n)).toList := by
  rw [readings, List.range_succ, List.filterMap_append, readings]
  congr 1

variable {calibration woken}

/-- However many samples were made, the readings are those of the reports that were served. -/
theorem sampled_iterate {script : ScriptedBus} (h : Sampled script 0 woken) (n : Nat) :
    let given := readings calibration woken n
    Sampled script given.length (busBefore calibration woken n) ∧
      given = (List.range given.length).map fun k =>
        calibration.reading (Report.decode (nthReport script.reports k)) := by
  induction n with
  | zero => exact ⟨h, rfl⟩
  | succ n ih =>
    obtain ⟨hsampled, hreadings⟩ := ih
    obtain ⟨hnext, hgiven⟩ := (sample_ends calibration hsampled).sampled
    rw [busBefore_succ, readings_succ]
    dsimp only
    rw [List.length_append]
    refine ⟨hnext, ?_⟩
    obtain hnone | hone := hgiven
    · rw [hnone, List.append_nil, List.length_nil, Nat.add_zero]
      exact hreadings
    · rw [hone, List.length_singleton, List.range_succ, List.map_append, ← hreadings]
      rfl

/-- A sample takes at most two transactions. -/
theorem length_transacted_le {script : ScriptedBus} (h : Sampled script 0 woken) (n : Nat) :
    (busBefore calibration woken n).transacted.length ≤ woken.transacted.length + 2 * n := by
  induction n with
  | zero => exact Nat.le_refl _
  | succ n ih =>
    obtain ⟨htransacted, -⟩ := (sample_ends calibration (sampled_iterate h n).1).transacted
    rw [busBefore_succ, htransacted, List.length_append]
    have hlength : ∀ p : Prop, ∀ [Decidable p],
        (if p then [selection] else samplePlan).length ≤ 2 := by
      intro p _
      split <;> decide
    have := hlength ((busBefore calibration woken n).transacted.length ∈ script.failing)
    omega

end Runs

end Handset

/-- Whichever transactions fail, the driver takes no data for something else. It is ready if and
only if none of the four transactions fails that wake the handset and fetch its calibration, and
makes none after one that failed. Each sample then selects the register of the report and, only if
that succeeded, reads it; it fails if and only if one of the two does. The readings are, in order,
those of the reports that the handset serves, none left out. -/
theorem Handset.readings_follow_reports (block : Vector UInt8 16) (reports : List (Vector UInt8 6))
    (register : UInt8) (failing : Set Nat) [DecidablePred (· ∈ failing)] (samples : Nat) :
    let bus : ScriptedBus := {
      calibration := block
      reports
      failing := (List.range (4 + 2 * samples)).filter (· ∈ failing)
      register }
    let calibration := Calibration.decode block
    let woken := stateAfter wake bus
    let given := readings calibration woken samples
    ((wake.run' bus).isSome ↔ ∀ k < 4, k ∉ failing) ∧
    (∀ k < 4, (∀ j < k, j ∉ failing) → k ∈ failing →
      woken.transacted = wakePlan.take (k + 1)) ∧
    ((∀ k < 4, k ∉ failing) →
      wake.run' bus = some calibration ∧
      woken.transacted = wakePlan ∧
      (∀ i < samples,
        let before := busBefore calibration woken i
        let number := before.transacted.length
        (stateAfter (sample calibration) before).transacted =
          before.transacted ++ (if number ∈ failing then [selection] else samplePlan) ∧
        (((sample calibration).run' before).isSome ↔
          number ∉ failing ∧ number + 1 ∉ failing)) ∧
      given = (List.range given.length).map fun k =>
        calibration.reading (Report.decode (ScriptedBus.nthReport reports k))) := by
  intro bus calibration woken given
  have hscripted {k : Nat} (hk : k < 4 + 2 * samples) :
      bus.transactions + k ∈ bus.failing ↔ k ∈ failing := by
    simp [bus, hk]
  have hwaking : (∀ k < 4, bus.transactions + k ∉ bus.failing) ↔ ∀ k < 4, k ∉ failing :=
    forall₂_congr fun k hk => not_congr (hscripted (by omega))
  refine ⟨(isSome_wake_iff bus).trans hwaking, fun k hk hpass hfail => ?_, fun hpass => ?_⟩
  · obtain ⟨bus', hrun, hadds⟩ := wake_stops bus hk
      (fun j hj => mt (hscripted (by omega)).mp (hpass j hj)) ((hscripted (by omega)).mpr hfail)
    rw [show woken = bus' from stateAfter_of_error hrun, hadds.transacted]
    rfl
  · obtain ⟨bus', hrun, hadds⟩ := wake_passes bus (hwaking.mpr hpass)
    have hstart : ScriptedBus.Sampled bus 0 bus := ⟨rfl, by rw [Nat.zero_min]; rfl, rfl⟩
    have hwoken : woken = bus' := stateAfter_of_ok hrun
    have hsampled : ScriptedBus.Sampled bus 0 woken := hwoken ▸ hstart.adds hadds
    have htransacted : woken.transacted = wakePlan := by
      rw [hwoken, hadds.transacted]
      rfl
    refine ⟨run'_of_ok hrun, htransacted, fun i hi => ?_,
      (sampled_iterate hsampled samples).2⟩
    intro before number
    have hbound : number ≤ 4 + 2 * i := by
      have h : (busBefore calibration woken i).transacted.length ≤ _ :=
        length_transacted_le hsampled i
      rwa [htransacted] at h
    obtain ⟨hnext, hsome⟩ := (sample_ends calibration (sampled_iterate hsampled i).1).transacted
    have hselect : number ∈ bus.failing ↔ number ∈ failing := by
      rw [← hscripted (k := number) (by omega), Nat.zero_add]
    have hread : number + 1 ∈ bus.failing ↔ number + 1 ∈ failing := by
      rw [← hscripted (k := number + 1) (by omega), Nat.zero_add]
    exact ⟨hnext.trans (congrArg (before.transacted ++ ·) (if_congr hselect rfl rfl)),
      hsome.trans (and_congr (not_congr hselect) (not_congr hread))⟩

/-- The register of the report cannot be selected at first, while that of the calibration is still
selected; then it can. On another bus, that of the calibration cannot be selected. -/
theorem Handset.readings_follow_reports_after_failed_selection :
    let block : Vector UInt8 16 := .replicate 16 0x80
    let report : Vector UInt8 6 := .replicate 6 0x20
    let calibration := Calibration.decode block
    let bus : ScriptedBus := { calibration := block, reports := [report], failing := [4] }
    let woken := stateAfter wake bus
    let given := readings calibration woken 2
    let broken : ScriptedBus := { calibration := block, reports := [report], failing := [2] }
    (∀ k < 4, k ∉ ({4} : Set Nat)) ∧
      woken.transacted = wakePlan ∧
      (stateAfter (sample calibration) woken).transacted = woken.transacted ++ [selection] ∧
      ((sample calibration).run' woken).isSome = false ∧
      given = (List.range given.length).map (fun k =>
        calibration.reading (Report.decode (ScriptedBus.nthReport [report] k))) ∧
      (2 < 4 ∧ (∀ j < 2, j ∉ ({2} : Set Nat)) ∧ 2 ∈ ({2} : Set Nat) ∧
        (stateAfter wake broken).transacted = wakePlan.take 3) := by
  intro block report calibration bus woken given broken
  have hpass : ∀ k < 4, k ∉ ({4} : Set Nat) := by
    decide
  obtain ⟨-, -, hready⟩ := Handset.readings_follow_reports block [report] 0 {4} 2
  obtain ⟨-, hwoken, hsamples, hgiven⟩ := hready hpass
  obtain ⟨-, hstops, -⟩ := Handset.readings_follow_reports block [report] 0 {2} 2
  have hpass' : ∀ j < 2, j ∉ ({2} : Set Nat) := by
    decide
  obtain ⟨hselect, hfailed⟩ := hsamples 0 (by decide)
  have hnumber : woken.transacted.length ∈ ({4} : Set Nat) := congrArg List.length hwoken
  refine ⟨hpass, hwoken, hselect.trans (congrArg _ (if_pos hnumber)), ?_, hgiven, by decide, hpass',
    rfl, hstops 2 (by decide) hpass' rfl⟩
  rw [← Bool.not_eq_true]
  exact mt hfailed.mp fun hpasses => hpasses.1 hnumber

end MotionMidi
