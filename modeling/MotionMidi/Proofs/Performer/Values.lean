import MotionMidi.Proofs.Performer.Attempts
import MotionMidi.Proofs.Performer.Deliveries
import MotionMidi.Proofs.Performer.Notes
import MotionMidi.Proofs.Performer.Replies

/-!
# Values on the wire

The value of a mapping is sent whenever it is not the one that went through last, so nothing is lost
for good and nothing is repeated, whatever messages are lost on the way.

## Main definitions

- `Session.noteAttempts`, `Session.valueAttempts` — what a tick hands to the link
- `Session.deliveries` — what went through since the active configuration was adopted
- `Session.SendsDue` — a tick sends the values that are due, up to the first loss
- `Session.LosesNote`, `Session.Tells` — the two ways in which a tick goes

Main statement: `values_delivered`.
-/

namespace MotionMidi

open Flash Midi Performer

/-! ## Sessions -/

namespace Session

variable {μ κ : Type} [Medium μ] [Link κ]

/-- What a tick hands to the link about notes. -/
def noteAttempts (session : Session μ (Logged κ)) (now : Nat) : List Attempt :=
  (session.attempted (.tick now)).filter (·.message.isNote)

/-- What a tick hands to the link about values. -/
def valueAttempts (session : Session μ (Logged κ)) (now : Nat) : List Attempt :=
  (session.attempted (.tick now)).filter (!·.message.isNote)

/-- The values that are due after some deliveries. -/
def due (session : Session μ (Logged κ)) (deliveries : List Delivery) : List (Mapping × Nat) :=
  session.performer.config.due session.sensor.current deliveries

/-- What went through since the active configuration was adopted, after one more event. The messages
of a tick belong to the values that are due, in their order. -/
def deliveriesAfter (session : Session μ (Logged κ)) (deliveries : List Delivery) :
    Event → List Delivery
  | .tick now => deliveries ++
    (((session.due deliveries).zip (session.valueAttempts now)).filter (·.2.sent)).map
      (delivery session.sensor.current ·.1)
  | event => if (session.handed? event).isSome then [] else deliveries

/-- What went through since the active configuration was adopted, after some events. -/
def deliveries (session : Session μ (Logged κ)) (earlier : List Delivery) :
    List Event → List Delivery
  | [] => earlier
  | event :: events =>
    (session.handle event).2.deliveries (session.deliveriesAfter earlier event) events

/-- A tick sees to notes first. Unless a message about notes is lost, the values that are due
follow, in the order of their mappings, one message for each, up to the first one that is lost. -/
structure SendsDue (session : Session μ (Logged κ)) (deliveries : List Delivery) (now : Nat) :
    Prop where
  order : session.attempted (.tick now) = session.noteAttempts now ++ session.valueAttempts now
  values : (∀ attempt ∈ session.noteAttempts now, attempt.sent) → ∃ messages,
    (session.due deliveries).map
        (session.performer.config.valueMessage? session.sensor.current) = messages.map some ∧
      UpToLoss messages (session.valueAttempts now)
  stopped : (∃ attempt ∈ session.noteAttempts now, ¬attempt.sent) → session.valueAttempts now = []

/-- Nothing is played, and no configuration is adopted. -/
def Quiet (session : Session μ (Logged κ)) (events : List Event) : Prop :=
  (∀ now, .tick now ∉ events) ∧ session.handedOver events = []

end Session

/-! ## The cues of a tick -/

/-- The cue is about a note. -/
def Cue.SeesToNote : Cue → Prop
  | .release _ => True
  | .start .. => True
  | _ => False

theorem Cue.SeesToNote.isNote_of_message? {cue : Cue} (h : cue.SeesToNote) {message : Message}
    (hmessage : cue.message? = some message) : message.isNote := by
  cases cue with
  | release note =>
    cases hmessage
    rfl
  | start note now =>
    cases hmessage
    rfl
  | tell channel destination index value => cases h
  | hush channel note => cases h
  | forget => cases h

/-- What is done about notes changes neither the configuration nor the values that were sent. -/
theorem Cue.effects_of_seesToNote {cues : List Cue} (h : ∀ cue ∈ cues, cue.SeesToNote)
    (performer : Performer) :
    (effects cues performer).config = performer.config ∧
      (effects cues performer).lastValues = performer.lastValues := by
  let P (other : Performer) : Prop :=
    other.config = performer.config ∧ other.lastValues = performer.lastValues
  refine effects_keep (P := P) (fun cue hcue other hother => ?_) ⟨rfl, rfl⟩
  have hsees := h cue hcue
  cases cue with
  | release note => exact hother
  | start note now => exact hother
  | tell channel destination index value => cases hsees
  | hush channel note => cases hsees
  | forget => cases hsees

namespace Performer

variable {performer : Performer} {reading : Reading}

theorem seesToNote_of_mem_noteCues {now : Nat} {sensor : Sensor} {cue : Cue}
    (h : cue ∈ performer.noteCues now sensor) : cue.SeesToNote := by
  rcases cases_of_mem_noteCues h with ⟨note, -, rfl⟩ | ⟨note, -, rfl⟩
  · trivial
  · trivial

theorem filterMap_message?_tell (performer : Performer) (reading : Reading)
    (items : List (Mapping × Nat)) :
    (items.map (performer.tell reading)).filterMap Cue.message? =
      items.filterMap (performer.config.valueMessage? reading) :=
  List.filterMap_map

end Performer

/-! ## Ticks -/

namespace Session

variable {μ κ : Type} {session : Session μ (Logged κ)} {now : Nat} {deliveries : List Delivery}

/-- The mappings that do not have the values that were sent last. -/
def stale (session : Session μ (Logged κ)) : List (Mapping × Nat) :=
  session.performer.config.mappings.zipIdx.filter
    (session.performer.Stale session.sensor.current)

/-- What a tick sends is what is due. -/
theorem due_eq (h : session.performer.Remembers deliveries) :
    session.due deliveries = spoken session.stale :=
  h.due_eq session.sensor.current

/-- Nothing is due where everything is up to date. -/
theorem due_eq_nil (h : session.performer.config.UpToDate session.sensor.current deliveries) :
    session.due deliveries = [] := by
  refine List.filter_eq_nil_iff.mpr ?_
  rintro ⟨mapping, index⟩ hitem
  obtain ⟨hmem, hnote⟩ := List.mem_filter.mp hitem
  have hlast := h mapping index (List.mk_mem_zipIdx_iff_getElem?.mp hmem) (of_decide_eq_true hnote)
  simp [hlast]

variable [Medium μ] [Link κ]

/-- A tick ends with a message about notes that is lost. -/
structure LosesNote (session : Session μ (Logged κ)) (now : Nat) : Prop where
  failed : ∀ started, (session.handle (.tick now)).1 ≠ .played (.ok started)
  notes : session.noteAttempts now = session.attempted (.tick now)
  values : session.valueAttempts now = []
  lost : ∃ attempt ∈ session.noteAttempts now, ¬attempt.sent
  config : (session.handle (.tick now)).2.performer.config = session.performer.config
  lastValues : (session.handle (.tick now)).2.performer.lastValues = session.performer.lastValues

/-- A tick sees to notes and sends the values of the mappings in `front`; then the message of the
next one is lost, if any. -/
structure Tells (session : Session μ (Logged κ)) (now : Nat) (front : List (Mapping × Nat))
    (lost : Option Message) : Prop where
  cut : lost = none ∧ front = session.stale ∨ ∃ item rest, session.stale = front ++ item :: rest ∧
    session.performer.config.valueMessage? session.sensor.current item = lost ∧ lost.isSome
  failed : lost.isSome → ∀ started, (session.handle (.tick now)).1 ≠ .played (.ok started)
  order : session.attempted (.tick now) = session.noteAttempts now ++ session.valueAttempts now
  sent : ∀ attempt ∈ session.noteAttempts now, attempt.sent
  values : session.valueAttempts now =
    outcomes (front.filterMap (session.performer.config.valueMessage? session.sensor.current)) lost
  performer : (session.handle (.tick now)).2.performer =
    Cue.effects (front.map (session.performer.tell session.sensor.current))
      (Cue.effects (session.performer.noteCues now session.sensor) session.performer)

/-- A tick that is cut off among the cues for notes sends nothing else. -/
theorem losesNote_of_played {done rest : List Cue} {cue : Cue} {lost : Option Message}
    (h : Played (session.cues (.tick now)) session.stage (session.handle (.tick now)).2.stage
      done lost)
    (hcut : session.performer.noteCues now session.sensor = done ++ cue :: rest)
    (hmessage : cue.message? = lost) (hlost : lost.isSome)
    (hfailed : ∀ started, (session.handle (.tick now)).1 ≠ .played (.ok started)) :
    session.LosesNote now := by
  have hattempted := attempted_of_played h
  have hperformer : (session.handle (.tick now)).2.performer =
      Cue.effects done session.performer := h.performer
  have hsees {other : Cue} (hother : other ∈ done ++ cue :: rest) : other.SeesToNote :=
    seesToNote_of_mem_noteCues (hcut ▸ hother)
  have hnote : ∀ attempt ∈ session.attempted (.tick now), attempt.message.isNote := by
    rw [hattempted]
    intro attempt hattempt
    rcases mem_outcomes hattempt with ⟨hthrough, -⟩ | ⟨hnext, -⟩
    · obtain ⟨other, hother, hsome⟩ := List.mem_filterMap.mp hthrough
      exact (hsees (List.mem_append_left _ hother)).isNote_of_message? hsome
    · have hcue : cue.SeesToNote := hsees (List.mem_append_right _ (List.mem_cons_self ..))
      exact hcue.isNote_of_message? (hmessage.trans hnext)
  have hall : session.noteAttempts now = session.attempted (.tick now) :=
    List.filter_eq_self.mpr hnote
  obtain ⟨hconfig, hvalues⟩ := Cue.effects_of_seesToNote
    (fun other hother => hsees (List.mem_append_left _ hother)) session.performer
  refine ⟨hfailed, hall, ?_, ?_, by rw [hperformer, hconfig], by rw [hperformer, hvalues]⟩
  · exact List.filter_eq_nil_iff.mpr fun attempt hattempt => by simp [hnote attempt hattempt]
  · obtain ⟨message, rfl⟩ := Option.isSome_iff_exists.mp hlost
    refine ⟨⟨message, false⟩, ?_, Bool.false_ne_true⟩
    rw [hall, hattempted]
    exact List.mem_append_right _ (List.mem_singleton.mpr rfl)

/-- A tick that is not cut off among the cues for notes goes on with values. -/
theorem tells_of_played {front : List (Mapping × Nat)} {lost : Option Message}
    (h : Played (session.cues (.tick now)) session.stage (session.handle (.tick now)).2.stage
      (session.performer.noteCues now session.sensor ++
        front.map (session.performer.tell session.sensor.current)) lost)
    (hcut : lost = none ∧ front = session.stale ∨ ∃ item rest,
      session.stale = front ++ item :: rest ∧
        session.performer.config.valueMessage? session.sensor.current item = lost ∧ lost.isSome)
    (hfailed : lost.isSome → ∀ started, (session.handle (.tick now)).1 ≠ .played (.ok started)) :
    session.Tells now front lost := by
  have hattempted := attempted_of_played h
  have hperformer : (session.handle (.tick now)).2.performer =
      Cue.effects (_ ++ front.map _) session.performer := h.performer
  rw [List.filterMap_append, filterMap_message?_tell, outcomes_append] at hattempted
  have hnote : ∀ attempt ∈ outcomes ((session.performer.noteCues now session.sensor).filterMap
      Cue.message?) none, attempt.message.isNote ∧ attempt.sent := by
    intro attempt hattempt
    rcases mem_outcomes hattempt with ⟨hthrough, hsent⟩ | ⟨⟨⟩, -⟩
    obtain ⟨cue, hcue, hsome⟩ := List.mem_filterMap.mp hthrough
    exact ⟨(seesToNote_of_mem_noteCues hcue).isNote_of_message? hsome, hsent⟩
  have hvalue : ∀ attempt ∈ outcomes (front.filterMap (session.performer.config.valueMessage?
      session.sensor.current)) lost, attempt.message.isNote = false := by
    intro attempt hattempt
    rcases mem_outcomes hattempt with ⟨hthrough, -⟩ | ⟨hnext, -⟩
    · obtain ⟨item, -, hsome⟩ := List.mem_filterMap.mp hthrough
      exact isNote_of_message? hsome
    · rcases hcut with ⟨rfl, -⟩ | ⟨item, rest, -, hmessage, -⟩
      · cases hnext
      · exact isNote_of_message? (hmessage.trans hnext)
  have hnotes : session.noteAttempts now = outcomes
      ((session.performer.noteCues now session.sensor).filterMap Cue.message?) none := by
    rw [noteAttempts, hattempted, List.filter_append,
      List.filter_eq_self.mpr fun attempt hattempt => (hnote attempt hattempt).1,
      List.filter_eq_nil_iff.mpr fun attempt hattempt => by simp [hvalue attempt hattempt],
      List.append_nil]
  have hvalues : session.valueAttempts now = outcomes (front.filterMap
      (session.performer.config.valueMessage? session.sensor.current)) lost := by
    rw [valueAttempts, hattempted, List.filter_append,
      List.filter_eq_nil_iff.mpr fun attempt hattempt => by simp [(hnote attempt hattempt).1],
      List.filter_eq_self.mpr fun attempt hattempt => by simp [hvalue attempt hattempt],
      List.nil_append]
  refine ⟨hcut, hfailed, ?_, ?_, hvalues, ?_⟩
  · rw [hattempted, hnotes, hvalues]
  · rw [hnotes]
    exact fun attempt hattempt => (hnote attempt hattempt).2
  · rw [hperformer, Cue.effects_append]

/-- A tick loses a message about notes, or it goes on with values. -/
theorem tick_cases (session : Session μ (Logged κ)) (now : Nat) :
    session.LosesNote now ∨ ∃ front lost, session.Tells now front lost := by
  have hcases {done : List Cue} {lost : Option Message}
      (hplayed : Played (session.cues (.tick now)) session.stage
        (session.handle (.tick now)).2.stage done lost)
      (hfailed : lost.isSome →
        ∀ started, (session.handle (.tick now)).1 ≠ .played (.ok started)) :
      session.LosesNote now ∨ ∃ front lost, session.Tells now front lost := by
    rcases hplayed.split.of_append with ⟨cue, rest, hcut, hmessage, hlost⟩ | ⟨told, rfl, hcut⟩
    · exact .inl (losesNote_of_played hplayed hcut hmessage hlost (hfailed hlost))
    · obtain ⟨front, rfl, hfront⟩ := hcut.of_map
      exact .inr ⟨front, lost, tells_of_played hplayed hfront hfailed⟩
  rcases session.played_tick now with
    ⟨-, hplayed⟩ | ⟨failure, done, message, hresult, hplayed⟩
  · exact hcases hplayed fun hlost => by cases hlost
  · refine hcases hplayed fun _ started hok => ?_
    rw [hresult] at hok
    cases hok

variable {front : List (Mapping × Nat)} {lost : Option Message}

theorem Tells.mem_zipIdx (h : session.Tells now front lost) {item : Mapping × Nat}
    (hitem : item ∈ front) : item ∈ session.performer.config.mappings.zipIdx := by
  have hstale : item ∈ session.stale := by
    rcases h.cut with ⟨-, rfl⟩ | ⟨next, rest, hsplit, -⟩
    · exact hitem
    · rw [hsplit]
      exact List.mem_append_left _ hitem
  exact List.mem_of_mem_filter hstale

/-- The deliveries of a tick are the values that it sent. -/
theorem Tells.deliveriesAfter (h : session.Tells now front lost)
    (hremembers : session.performer.Remembers deliveries) :
    session.deliveriesAfter deliveries (.tick now) =
      deliveries ++ (spoken front).map (delivery session.sensor.current) := by
  obtain ⟨rest, hrest⟩ : ∃ rest, session.due deliveries = spoken front ++ rest := by
    rw [due_eq hremembers]
    rcases h.cut with ⟨-, rfl⟩ | ⟨next, rest, hsplit, -⟩
    · exact ⟨[], (List.append_nil _).symm⟩
    · rw [hsplit]
      exact ⟨_, List.filter_append ..⟩
  have hzip := filter_sent_zip (session.performer.config.length_spoken session.sensor.current front)
    rest lost
  rw [Session.deliveriesAfter, hrest, h.values, ← Function.comp_def, ← List.map_map, hzip]

/-! ## Runs -/

omit [Link κ] in
theorem remembers_start (medium : μ) (link : κ) :
    (start medium link).performer.Remembers [] := by
  change (boot medium).1.Remembers []
  rw [boot, bind_run]
  generalize Saved.lookup medium = found
  obtain ⟨saved, medium'⟩ := found
  cases saved with
  | nothing => exact (remembers_adopt {} Config.factory).congr rfl rfl
  | unusable => exact (remembers_adopt {} Config.factory).congr rfl rfl
  | usable parsed => exact (remembers_adopt {} parsed.config).congr rfl rfl

theorem remembers_reconfigure (performer : Performer) (text : String) (medium : μ) :
    (performer.reconfigure text medium).1.performer.Remembers [] := by
  cases hparse : Config.parse text with
  | ok parsed =>
    rw [performer_of_parsed hparse]
    exact (remembers_adopt performer parsed.config).congr rfl rfl
  | error error =>
    rw [performer_of_rejected hparse]
    exact (remembers_adopt performer _).congr rfl rfl

theorem remembers_tick (h : session.performer.Remembers deliveries) (now : Nat) :
    (session.handle (.tick now)).2.performer.Remembers
      (session.deliveriesAfter deliveries (.tick now)) := by
  rcases session.tick_cases now with hloses | ⟨front, lost, htells⟩
  · have hnone : session.deliveriesAfter deliveries (.tick now) = deliveries := by
      rw [deliveriesAfter, hloses.values, List.zip_nil_right, List.filter_nil, List.map_nil,
        List.append_nil]
    rw [hnone]
    exact h.congr hloses.config hloses.lastValues
  · have hnotes : ∀ cue ∈ session.performer.noteCues now session.sensor, cue.SeesToNote :=
      fun _ => seesToNote_of_mem_noteCues
    obtain ⟨hconfig, hvalues⟩ := Cue.effects_of_seesToNote hnotes session.performer
    have htell : (Cue.effects (session.performer.noteCues now session.sensor)
        session.performer).tell = session.performer.tell := by
      funext reading item
      rw [Performer.tell, hconfig, Performer.tell]
    rw [htells.performer, htells.deliveriesAfter h, ← htell]
    refine (h.congr hconfig hvalues).effects session.sensor.current fun item hitem => ?_
    rw [hconfig]
    exact htells.mem_zipIdx hitem

@[simp] theorem lastValues_silence (session : Session μ (Logged κ)) :
    (session.handle .silence).2.performer.lastValues = session.performer.lastValues := by
  let P (performer : Performer) : Prop := performer.lastValues = session.performer.lastValues
  refine performer_play (P := P) (keeps_silence_of_cues fun stage _ cue hcue => ?_) rfl
  refine keeps_play fun performer h => ?_
  rcases cases_of_mem_silenceCues hcue with ⟨note, -, -, rfl⟩ | rfl
  · exact h
  · exact h

theorem deliveriesAfter_of_handed {event : Event} {text : String}
    (h : session.handed? event = some text) : session.deliveriesAfter deliveries event = [] := by
  cases event with
  | tick now => cases h
  | sense reading => cases h
  | line line =>
    refine if_pos ?_
    rw [h]
    rfl
  | reconfigure text => rfl
  | raiseFault => cases h
  | silence => cases h

theorem deliveriesAfter_of_not_handed {event : Event} (h : session.handed? event = none)
    (htick : ∀ now, event ≠ .tick now) : session.deliveriesAfter deliveries event = deliveries := by
  cases event with
  | tick now => exact absurd rfl (htick now)
  | sense reading => rfl
  | line line =>
    refine if_neg ?_
    rw [h]
    exact Bool.false_ne_true
  | reconfigure text => cases h
  | raiseFault => rfl
  | silence => rfl

/-- An event that neither plays nor hands a text over leaves the values alone. -/
theorem lastValues_of_not_handed {event : Event} (h : session.handed? event = none)
    (htick : ∀ now, event ≠ .tick now) :
    (session.handle event).2.performer.lastValues = session.performer.lastValues := by
  cases event with
  | tick now => exact absurd rfl (htick now)
  | sense reading => rfl
  | reconfigure text => cases h
  | raiseFault => rfl
  | silence => exact lastValues_silence session
  | line line =>
    change (session.performer.receiveLine line session.medium).1.performer.lastValues = _
    rcases performer_of_not_completed h session.medium with ⟨-, hline⟩ | ⟨-, _, hline⟩
    · rw [hline]
      rfl
    · rw [hline]

/-- What went through last is known at any time. -/
theorem remembers_handle (h : session.performer.Remembers deliveries) (event : Event) :
    (session.handle event).2.performer.Remembers (session.deliveriesAfter deliveries event) := by
  cases hhanded : session.handed? event with
  | some text =>
    obtain ⟨performer, -, hperformer⟩ := handle_of_handed hhanded
    rw [deliveriesAfter_of_handed hhanded, hperformer]
    exact remembers_reconfigure performer text session.medium
  | none =>
    by_cases htick : ∃ now, event = .tick now
    case pos =>
      obtain ⟨now, rfl⟩ := htick
      exact remembers_tick h now
    case neg =>
      rw [not_exists] at htick
      rw [deliveriesAfter_of_not_handed hhanded htick]
      exact h.congr (config_of_not_handed hhanded) (lastValues_of_not_handed hhanded htick)

theorem remembers_run (h : session.performer.Remembers deliveries) (events : List Event) :
    (session.run events).performer.Remembers (session.deliveries deliveries events) := by
  induction events generalizing session deliveries with
  | nil => exact h
  | cons event events ih => exact ih (remembers_handle h event)

theorem sendsDue (h : session.performer.Remembers deliveries) (now : Nat) :
    session.SendsDue deliveries now := by
  rcases session.tick_cases now with hloses | ⟨front, lost, htells⟩
  · refine ⟨?_, fun hsent => ?_, fun _ => hloses.values⟩
    · rw [hloses.values, List.append_nil, hloses.notes]
    · obtain ⟨attempt, hattempt, hlost⟩ := hloses.lost
      exact absurd (hsent attempt hattempt) hlost
  · refine ⟨htells.order, fun _ => ?_, ?_⟩
    · refine ⟨session.stale.filterMap
        (session.performer.config.valueMessage? session.sensor.current), ?_, ?_⟩
      · rw [due_eq h, Config.map_valueMessage?_spoken]
      rw [htells.values]
      rcases htells.cut with ⟨rfl, rfl⟩ | ⟨item, rest, hsplit, hmessage, hlost⟩
      · exact .inl rfl
      · obtain ⟨message, rfl⟩ := Option.isSome_iff_exists.mp hlost
        right
        rw [hsplit, List.filterMap_append, List.filterMap_cons, hmessage]
        exact ⟨_, message, _, rfl, rfl⟩
    · rintro ⟨attempt, hattempt, hlost⟩
      exact absurd (htells.sent attempt hattempt) hlost

/-- After a tick that succeeds, the current values went through last. -/
theorem upToDate_of_ok (h : session.performer.Remembers deliveries) {started : Bool}
    (hok : (session.handle (.tick now)).1 = .played (.ok started)) :
    session.performer.config.UpToDate session.sensor.current
      (session.deliveriesAfter deliveries (.tick now)) := by
  rcases session.tick_cases now with hloses | ⟨front, lost, htells⟩
  · exact absurd hok (hloses.failed started)
  have hall : front = session.stale := by
    rcases htells.cut with ⟨-, hall⟩ | ⟨item, rest, -, -, hlost⟩
    · exact hall
    · exact absurd hok (htells.failed hlost started)
  intro mapping index hmapping hnote
  have hitem : (mapping, index) ∈ session.performer.config.mappings.zipIdx :=
    List.mk_mem_zipIdx_iff_getElem?.mpr hmapping
  have hdue : ∀ item ∈ session.due deliveries,
      item ∈ session.performer.config.mappings.zipIdx :=
    fun item hitem => List.mem_of_mem_filter (List.mem_of_mem_filter hitem)
  rw [htells.deliveriesAfter h, hall, ← due_eq h, lastDelivered_append]
  by_cases hmem : (mapping, index) ∈ session.due deliveries
  case pos =>
    rw [lastDelivered_of_mem hdue hmem]
    rfl
  case neg =>
    rw [lastDelivered_of_not_mem hdue hitem hmem, Option.none_or]
    by_contra hlast
    refine hmem (List.mem_filter.mpr ⟨List.mem_filter.mpr ⟨hitem, ?_⟩, ?_⟩)
    · exact decide_eq_true hnote
    · exact decide_eq_true hlast

/-- A message that is lost leaves the value that went through before as the last one. -/
theorem lastDelivered_of_lost (h : session.performer.Remembers deliveries) {item : Mapping × Nat}
    {attempt : Attempt} (hitem : (item, attempt) ∈ (session.due deliveries).zip
      (session.valueAttempts now)) (hlost : ¬attempt.sent) :
    lastDelivered (session.deliveriesAfter deliveries (.tick now)) item.2 =
      lastDelivered deliveries item.2 := by
  rcases session.tick_cases now with hloses | ⟨front, lost, htells⟩
  · rw [hloses.values, List.zip_nil_right] at hitem
    cases hitem
  rcases htells.cut with ⟨rfl, -⟩ | ⟨next, rest, hsplit, -, -⟩
  · rw [htells.values] at hitem
    exact absurd (sent_of_mem_zip hitem) hlost
  have hdue : session.due deliveries = spoken front ++ spoken (next :: rest) := by
    rw [due_eq h, hsplit]
    exact List.filter_append ..
  -- The mapping whose message is lost comes after all those whose messages went through.
  have hrest : item ∈ next :: rest := by
    rw [htells.values, hdue, zip_outcomes (Config.length_spoken _ _ front)] at hitem
    rcases List.mem_append.mp hitem with hsent | hnext
    · exact absurd (sent_of_mem_zip hsent) hlost
    · exact List.mem_of_mem_filter (List.of_mem_zip hnext).1
  have hfront : item ∉ spoken front := by
    have hnodup : session.stale.Nodup := by
      refine List.Nodup.filter _ (List.Nodup.of_map (·.2) ?_)
      rw [List.zipIdx_map_snd]
      exact List.nodup_range'
    rw [hsplit] at hnodup
    exact fun hmem => List.disjoint_of_nodup_append hnodup (List.mem_of_mem_filter hmem) hrest
  have hitems : ∀ other ∈ spoken front, other ∈ session.performer.config.mappings.zipIdx :=
    fun other hother => htells.mem_zipIdx (List.mem_of_mem_filter hother)
  have hmem : item ∈ session.performer.config.mappings.zipIdx := by
    have hstale : item ∈ session.stale := by
      rw [hsplit]
      exact List.mem_append_right _ hrest
    exact List.mem_of_mem_filter hstale
  rw [htells.deliveriesAfter h, lastDelivered_append, lastDelivered_of_not_mem hitems hmem hfront,
    Option.none_or]

/-! ## The next tick -/

theorem deliveries_of_quiet (deliveries : List Delivery) {events : List Event}
    (h : session.Quiet events) :
    session.deliveries deliveries events = deliveries ∧
      (session.run events).performer.config = session.performer.config := by
  induction events generalizing session with
  | nil => exact ⟨rfl, rfl⟩
  | cons event events ih =>
    obtain ⟨hticks, hhanded⟩ := h
    rw [handedOver, List.append_eq_nil_iff, Option.toList_eq_nil_iff] at hhanded
    have htick : ∀ now, event ≠ .tick now := fun now hevent =>
      hticks now (hevent ▸ List.mem_cons_self ..)
    have hquiet : (session.handle event).2.Quiet events :=
      ⟨fun now hnow => hticks now (List.mem_cons_of_mem _ hnow), hhanded.2⟩
    obtain ⟨hmore, hconfig⟩ := ih hquiet
    rw [Session.deliveries, deliveriesAfter_of_not_handed hhanded.1 htick, hmore, run_cons, hconfig,
      config_of_not_handed hhanded.1]
    exact ⟨rfl, rfl⟩

theorem SendsDue.valueAttempts_eq_nil (h : session.SendsDue deliveries now)
    (hdue : session.due deliveries = []) : session.valueAttempts now = [] := by
  by_cases hsent : ∀ attempt ∈ session.noteAttempts now, attempt.sent
  case neg =>
    refine h.stopped ?_
    simpa only [not_forall, exists_prop] using hsent
  case pos =>
    obtain ⟨messages, hmessages, hvalues⟩ := h.values hsent
    rw [hdue, List.map_nil, eq_comm, List.map_eq_nil_iff] at hmessages
    subst hmessages
    rcases hvalues with hall | ⟨front, message, back, hsplit, -⟩
    · exact hall
    · simp at hsplit

end Session

/-- In every tick of every session, the values that are due are sent as far as messages go through,
and no others. So after a tick that succeeds every mapping is up to date, a message that was lost is
due again in the next tick unless its mapping is back at the value that went through before, and the
next tick has nothing to send if the reading is the same. -/
theorem values_delivered {μ κ : Type} [Medium μ] [Link κ] (medium : μ) (link : κ)
    (events between : List Event) (now next : Nat) :
    let start := Session.start medium (Logged.mk link [])
    let session := start.run events
    let before := start.deliveries [] events
    let ticked := session.handle (.tick now)
    let after := session.deliveriesAfter before (.tick now)
    let later := ticked.2.run between
    session.SendsDue before now ∧
      (∀ started, ticked.1 = .played (.ok started) →
        session.performer.config.UpToDate session.sensor.current after) ∧
      (ticked.2.Quiet between →
        later.SendsDue after next ∧
        (∀ item attempt, (item, attempt) ∈ (session.due before).zip (session.valueAttempts now) →
          attempt.sent = false →
            (item ∈ later.due after ↔
              lastDelivered before item.2 ≠ some (item.1.value later.sensor.current))) ∧
        (∀ started, ticked.1 = .played (.ok started) →
          later.sensor.current = session.sensor.current → later.valueAttempts next = [])) := by
  intro start session before ticked after later
  have hbefore : session.performer.Remembers before :=
    Session.remembers_run (Session.remembers_start medium _) events
  have hafter : ticked.2.performer.Remembers after := Session.remembers_handle hbefore (.tick now)
  refine ⟨Session.sendsDue hbefore now, fun _ => Session.upToDate_of_ok hbefore, fun hquiet => ?_⟩
  obtain ⟨hdeliveries, hconfig⟩ := Session.deliveries_of_quiet after hquiet
  have hconfig' : later.performer.config = session.performer.config :=
    hconfig.trans (Session.config_of_not_handed rfl)
  have hlater : later.performer.Remembers after := by
    have hrun := Session.remembers_run hafter between
    rwa [hdeliveries] at hrun
  have hsends := Session.sendsDue hlater next
  refine ⟨hsends, ?_, ?_⟩
  · intro item attempt hitem hlost
    have hlast := Session.lastDelivered_of_lost hbefore hitem (by simp [hlost])
    have hspoken : item ∈ spoken later.performer.config.mappings.zipIdx := by
      rw [hconfig']
      exact List.mem_of_mem_filter (List.of_mem_zip hitem).1
    rw [← hlast]
    exact List.mem_filter.trans ((and_iff_right hspoken).trans decide_eq_true_iff)
  · intro started hok hreading
    refine hsends.valueAttempts_eq_nil (Session.due_eq_nil ?_)
    rw [hconfig', hreading]
    exact Session.upToDate_of_ok hbefore hok

/-- The bend is lost in the first tick, and due again in the next one. -/
theorem values_delivered_after_loss :
    let start := Session.start (Region.erased ⟨32, 16, 64⟩)
      (Logged.mk ({ left := some 1 } : Recorder) [])
    let events := [.reconfigure "MAP jx cc 16 MAP jy pb"]
    let session := start.run events
    let before := start.deliveries [] events
    let later := (session.handle (.tick 0)).2
    let after := session.deliveriesAfter before (.tick 0)
    (session.valueAttempts 0).map (·.sent) = [true, false] ∧
      after.map (·.index) = [0] ∧ (later.due after).map (·.2) = [1] ∧ later.SendsDue after 1 := by
  intro start events session before later after
  refine ⟨by decide +kernel, by decide +kernel, by decide +kernel, ?_⟩
  obtain ⟨-, -, hnext⟩ := values_delivered (Region.erased ⟨32, 16, 64⟩)
    ({ left := some 1 } : Recorder) events [] 0 1
  exact (hnext ⟨nofun, rfl⟩).1

end MotionMidi
