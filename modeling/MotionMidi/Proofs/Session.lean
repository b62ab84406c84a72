import MotionMidi.Performer.Console
import MotionMidi.Performer.Tick

/-!
# Sessions

The instrument in use: a performer with its handset, its save slot and its MIDI link, from power-on
through whatever happens to it.

## Main definitions

- `Midi.Tapped` — a link, and the messages that went through it
- `Session` — the instrument in use
- `Event`, `Response` — what can happen to it, and what comes of it
- `Session.start`, `handle`, `run` — power-on, one event, and several
- `Session.handedOver` — the configuration texts that some events complete

## Design notes

The medium and the link are whatever implements `Flash.Medium` and `Midi.Link`, so a statement about
all sessions covers every pattern of failures.
-/

namespace MotionMidi

open Flash Midi

namespace Midi

/-- A link, and the messages that went through it, in order. -/
structure Tapped (κ : Type) where
  link : κ
  wire : List Message := []
  deriving DecidableEq, Repr

/-- Sends a message on the link; only one that goes through is on the wire. -/
def Tapped.send {κ : Type} [Link κ] (message : Message) :
    EStateM LinkFailure (Tapped κ) Unit := fun tapped =>
  match Link.send message tapped.link with
  | .ok _ link => .ok () { link, wire := tapped.wire ++ [message] }
  | .error failure link => .error failure { tapped with link }

instance {κ : Type} [Link κ] : Link (Tapped κ) where
  send := Tapped.send

end Midi

/-- The instrument in use. -/
structure Session (μ κ : Type) where
  performer : Performer
  sensor : Sensor := {}
  medium : μ
  link : Tapped κ

/-- What can happen to the instrument. -/
inductive Event where
  /-- The handset is read. -/
  | sense (reading : Reading)
  /-- The latest reading is played, at a time in microseconds. -/
  | tick (now : Nat)
  /-- A line comes in from the console. -/
  | line (text : String)
  /-- A whole configuration is handed over. -/
  | reconfigure (text : String)
  | raiseFault
  | silence
  deriving DecidableEq, Repr

/-- What comes of an event. -/
inductive Response where
  | noted
  | replied (reply : Reply)
  | played (result : Except LinkFailure Bool)
  | silenced (result : Except LinkFailure Unit)

/-- The configuration text that a line completes, if it does. -/
def Performer.completed? (performer : Performer) (line : String) : Option String :=
  let text := performer.pending ++ line
  if performer.pending.isEmpty &&
      (startsWith dumpCommand line || startsWith hexdumpCommand line) then
    none
  else if longestPending < text.utf8ByteSize then none
  else if endsConfig line then some text
  else none

namespace Session

variable {μ κ α : Type}

/-- What the performer plays on. -/
def stage (session : Session μ κ) : Stage (Tapped κ) :=
  ⟨session.performer, session.link⟩

/-- Plays on the link. -/
def play (session : Session μ κ) (action : Playing (Tapped κ) α) :
    Except LinkFailure α × Session μ κ :=
  match action session.stage with
  | .ok a stage => (.ok a, { session with performer := stage.performer, link := stage.link })
  | .error failure stage =>
    (.error failure, { session with performer := stage.performer, link := stage.link })

/-- Replies on the console. -/
def answer (session : Session μ κ) (reply : StateM μ Reply) : Response × Session μ κ :=
  let (reply, medium) := reply session.medium
  (.replied reply, { session with performer := reply.performer, medium })

variable [Medium μ] [Link κ]

/-- The instrument after power is switched on. -/
def start (medium : μ) (link : κ) : Session μ κ :=
  let (performer, medium) := Performer.boot medium
  { performer, medium, link := { link } }

/-- One event. -/
def handle (session : Session μ κ) : Event → Response × Session μ κ
  | .sense reading => (.noted, { session with sensor := session.sensor.update reading })
  | .tick now =>
    let (result, session) := session.play (Performer.tick now session.sensor)
    (.played result, session)
  | .line text => session.answer (session.performer.receiveLine text)
  | .reconfigure text => session.answer (session.performer.reconfigure text)
  | .raiseFault => (.noted, { session with performer := session.performer.raiseFault })
  | .silence =>
    let (result, session) := session.play Performer.silence
    (.silenced result, session)

/-- Several events, one after the other. -/
def run (session : Session μ κ) (events : List Event) : Session μ κ :=
  events.foldl (fun session event => (session.handle event).2) session

/-- The configuration text that an event hands over, if it does. -/
def handed? (session : Session μ κ) : Event → Option String
  | .line text => session.performer.completed? text
  | .reconfigure text => some text
  | _ => none

/-- The configuration texts that some events hand over, in order. -/
def handedOver (session : Session μ κ) : List Event → List String
  | [] => []
  | event :: events =>
    (session.handed? event).toList ++ (session.handle event).2.handedOver events

@[simp] theorem run_nil (session : Session μ κ) : session.run [] = session := rfl

@[simp] theorem run_cons (session : Session μ κ) (event : Event) (events : List Event) :
    session.run (event :: events) = (session.handle event).2.run events := rfl

@[simp] theorem run_append (session : Session μ κ) (front back : List Event) :
    session.run (front ++ back) = (session.run front).run back :=
  List.foldl_append

/-- What every event keeps is kept by a run. -/
theorem keeps_run {P : Session μ κ → Prop} {session : Session μ κ} {events : List Event}
    (h : ∀ session, P session → ∀ event ∈ events, P (session.handle event).2)
    (hstart : P session) : P (session.run events) := by
  induction events generalizing session with
  | nil => exact hstart
  | cons event events ih =>
    refine ih (fun session hsession event hevent => ?_) ?_
    · exact h session hsession event (List.mem_cons_of_mem _ hevent)
    · exact h session hstart event (List.mem_cons_self ..)

@[simp] theorem handedOver_append (session : Session μ κ) (front back : List Event) :
    session.handedOver (front ++ back) =
      session.handedOver front ++ (session.run front).handedOver back := by
  induction front generalizing session with
  | nil => rfl
  | cons event front ih => simp [handedOver, ih]

end Session

end MotionMidi
