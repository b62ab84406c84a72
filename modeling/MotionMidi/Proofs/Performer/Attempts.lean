import MotionMidi.Proofs.Performer.Cues
import MotionMidi.Proofs.Session

/-!
# Attempts to send

Which messages are handed to the link, and which of them go through.

## Main definitions

- `Midi.Logged` — a link, and everything that was handed to it
- `Midi.UpToLoss` — messages are handed over one after the other until one is lost
- `Cue.Cut` — some cues are cut off where a message is lost
- `Played` — cues were played until the message of one was lost
- `Session.cues` — the cues of an event
- `Session.attempted` — what an event hands to the link

Main statements: `Session.played_tick`, `Session.played_silence`, `Session.wire_handle`,
`Session.exists_cue_of_attempted`.
-/

namespace MotionMidi

open Flash Midi

namespace Midi

/-- A message that was handed to a link. -/
structure Attempt where
  message : Message
  /-- The message went through. -/
  sent : Bool
  deriving DecidableEq, Repr

/-- A link, and everything that was handed to it, in order. -/
structure Logged (κ : Type) where
  link : κ
  attempts : List Attempt := []
  deriving DecidableEq, Repr

/-- Sends a message on the link, and logs how it went. -/
def Logged.send {κ : Type} [Link κ] (message : Message) :
    EStateM LinkFailure (Logged κ) Unit := fun logged =>
  match Link.send message logged.link with
  | .ok _ link => .ok () { link, attempts := logged.attempts ++ [⟨message, true⟩] }
  | .error failure link =>
    .error failure { link, attempts := logged.attempts ++ [⟨message, false⟩] }

instance {κ : Type} [Link κ] : Link (Logged κ) where
  send := Logged.send

/-- What is handed to a link of which some go through and at most one, the last, is lost. -/
def outcomes (through : List Message) (lost : Option Message) : List Attempt :=
  through.map (⟨·, true⟩) ++ lost.toList.map (⟨·, false⟩)

/-- Messages are handed over one after the other until one is lost. -/
def UpToLoss (messages : List Message) (attempts : List Attempt) : Prop :=
  attempts = outcomes messages none ∨
    ∃ front message back, messages = front ++ message :: back ∧
      attempts = outcomes front (some message)

theorem outcomes_append (front back : List Message) (lost : Option Message) :
    outcomes (front ++ back) lost = outcomes front none ++ outcomes back lost := by
  simp [outcomes]

theorem mem_outcomes {through : List Message} {lost : Option Message} {attempt : Attempt}
    (h : attempt ∈ outcomes through lost) :
    attempt.message ∈ through ∧ attempt.sent ∨ attempt.message ∈ lost ∧ ¬attempt.sent := by
  rcases List.mem_append.mp h with hsent | hlost
  · obtain ⟨message, hmessage, rfl⟩ := List.mem_map.mp hsent
    exact .inl ⟨hmessage, rfl⟩
  · obtain ⟨message, hmessage, rfl⟩ := List.mem_map.mp hlost
    exact .inr ⟨Option.mem_toList.mp hmessage, Bool.false_ne_true⟩

/-- Of the items whose messages are handed over, the first ones belong to messages that go
through. -/
theorem zip_outcomes {α : Type} {front : List α} {through : List Message}
    (h : front.length = through.length) (rest : List α) (lost : Option Message) :
    (front ++ rest).zip (outcomes through lost) =
      front.zip (outcomes through none) ++ rest.zip (outcomes [] lost) := by
  have hlength : front.length = (through.map fun message => Attempt.mk message true).length := by
    rw [List.length_map, h]
  rw [outcomes, List.zip_append hlength]
  simp [outcomes]

theorem sent_of_mem_zip {α : Type} {items : List α} {through : List Message} {pair : α × Attempt}
    (h : pair ∈ items.zip (outcomes through none)) : pair.2.sent := by
  rcases mem_outcomes (List.of_mem_zip h).2 with ⟨-, hsent⟩ | ⟨⟨⟩, -⟩
  exact hsent

theorem not_sent_of_mem_zip {α : Type} {items : List α} {lost : Option Message}
    {pair : α × Attempt} (h : pair ∈ items.zip (outcomes [] lost)) : ¬pair.2.sent := by
  rcases mem_outcomes (List.of_mem_zip h).2 with ⟨⟨⟩, -⟩ | ⟨-, hlost⟩
  exact hlost

/-- The items whose messages go through are the first ones. -/
theorem filter_sent_zip {α : Type} {front : List α} {through : List Message}
    (h : front.length = through.length) (rest : List α) (lost : Option Message) :
    (((front ++ rest).zip (outcomes through lost)).filter (·.2.sent)).map (·.1) = front := by
  have hlength : front.length ≤ (outcomes through none).length := by
    simp [outcomes, h]
  rw [zip_outcomes h, List.filter_append, List.filter_eq_self.mpr fun _ => sent_of_mem_zip,
    List.filter_eq_nil_iff.mpr fun _ => not_sent_of_mem_zip, List.append_nil,
    List.map_fst_zip hlength]

end Midi

namespace Cue

/-- Some cues are all done, or up to the one whose message is lost. -/
def Cut (cues done : List Cue) (lost : Option Message) : Prop :=
  lost = none ∧ done = cues ∨
    ∃ cue back, cues = done ++ cue :: back ∧ cue.message? = lost ∧ lost.isSome

variable {cues done front back : List Cue} {lost : Option Message}

theorem Cut.cons (h : Cut cues done lost) (cue : Cue) : Cut (cue :: cues) (cue :: done) lost := by
  rcases h with ⟨hlost, rfl⟩ | ⟨next, back, rfl, hmessage⟩
  · exact .inl ⟨hlost, rfl⟩
  · exact .inr ⟨next, back, rfl, hmessage⟩

/-- The cues that are done are the first ones. -/
theorem Cut.isPrefix (h : Cut cues done lost) : done <+: cues := by
  rcases h with ⟨-, rfl⟩ | ⟨cue, back, rfl, -⟩
  · exact List.prefix_rfl
  · exact List.prefix_append _ _

theorem Cut.subset (h : Cut cues done lost) : done ⊆ cues :=
  h.isPrefix.subset

/-- The message is lost in the first part, or the first part is all done. -/
theorem Cut.of_append (h : Cut (front ++ back) done lost) :
    (∃ cue rest, front = done ++ cue :: rest ∧ cue.message? = lost ∧ lost.isSome) ∨
      ∃ more, done = front ++ more ∧ Cut back more lost := by
  rcases h with ⟨hlost, rfl⟩ | ⟨cue, rest, hsplit, hmessage⟩
  · exact .inr ⟨back, rfl, .inl ⟨hlost, rfl⟩⟩
  · rcases List.append_eq_append_iff.mp hsplit with ⟨more, rfl, hback⟩ | ⟨more, hfront, hrest⟩
    · exact .inr ⟨more, rfl, .inr ⟨cue, rest, hback, hmessage⟩⟩
    · cases more with
      | nil =>
        refine .inr ⟨[], ?_, .inr ⟨cue, rest, hrest.symm, hmessage⟩⟩
        rw [hfront, List.append_nil, List.append_nil]
      | cons other more =>
        cases hrest
        exact .inl ⟨cue, more, hfront, hmessage⟩

/-- The cues that are done stem from the first ones of a list. -/
theorem Cut.of_map {α : Type} {items : List α} {cue : α → Cue}
    (h : Cut (items.map cue) done lost) :
    ∃ front, done = front.map cue ∧
      (lost = none ∧ front = items ∨
        ∃ item rest, items = front ++ item :: rest ∧ (cue item).message? = lost ∧ lost.isSome) := by
  rcases h with ⟨hlost, rfl⟩ | ⟨next, back, hsplit, hmessage⟩
  · exact ⟨items, rfl, .inl ⟨hlost, rfl⟩⟩
  · obtain ⟨front, others, rfl, rfl, hothers⟩ := List.map_eq_append_iff.mp hsplit
    obtain ⟨item, rest, rfl, rfl, -⟩ := List.map_eq_cons_iff.mp hothers
    exact ⟨front, rfl, .inr ⟨item, rest, rfl, hmessage⟩⟩

end Cue

variable {κ : Type}

/-- From a stage on, the cues that are `done` were played, and then the message of the next one was
lost, if any. -/
structure Played (cues : List Cue) (before after : Stage (Tapped (Logged κ))) (done : List Cue)
    (lost : Option Message) : Prop where
  split : Cue.Cut cues done lost
  performer : after.performer = Cue.effects done before.performer
  wire : after.link.wire = before.link.wire ++ done.filterMap Cue.message?
  attempts : after.link.link.attempts =
    before.link.link.attempts ++ outcomes (done.filterMap Cue.message?) lost

namespace Played

variable {before after : Stage (Tapped (Logged κ))} {cues done : List Cue} {lost : Option Message}

theorem nil (stage : Stage (Tapped (Logged κ))) : Played [] stage stage [] none := by
  refine ⟨.inl ⟨rfl, rfl⟩, rfl, ?_, ?_⟩
  · rw [List.filterMap_nil, List.append_nil]
  · rw [List.filterMap_nil]
    exact (List.append_nil _).symm

theorem cons {cue : Cue} {middle : Stage (Tapped (Logged κ))}
    (first : Played [cue] before middle [cue] none) (others : Played cues middle after done lost) :
    Played (cue :: cues) before after (cue :: done) lost := by
  refine ⟨?_, ?_, ?_, ?_⟩
  · exact others.split.cons cue
  · rw [others.performer, first.performer]
    rfl
  · rw [others.wire, first.wire, List.append_assoc, ← List.filterMap_append]
    rfl
  · rw [others.attempts, first.attempts, outcomes, outcomes, outcomes, List.append_assoc]
    simp only [Option.toList_none, List.map_nil, List.append_nil]
    rw [← List.append_assoc (List.map _ _), ← List.map_append, ← List.filterMap_append]
    rfl

end Played

namespace Performer

variable [Link κ]

/-- A message goes through, or it is lost. -/
theorem send_logged (message : Message) (stage : Stage (Tapped (Logged κ))) :
    (∃ link, send message stage = .ok () ⟨stage.performer, link⟩ ∧
        link.wire = stage.link.wire ++ [message] ∧
        link.link.attempts = stage.link.link.attempts ++ [⟨message, true⟩]) ∨
      ∃ failure link, send message stage = .error failure ⟨stage.performer, link⟩ ∧
        link.wire = stage.link.wire ∧
        link.link.attempts = stage.link.link.attempts ++ [⟨message, false⟩] := by
  cases h : Link.send message stage.link.link.link with
  | ok a link =>
    refine .inl ⟨⟨⟨link, stage.link.link.attempts ++ [⟨message, true⟩]⟩,
      stage.link.wire ++ [message]⟩, ?_, rfl, rfl⟩
    simp only [send, Link.send, Tapped.send, Logged.send, h]
  | error failure link =>
    refine .inr ⟨failure, ⟨⟨link, stage.link.link.attempts ++ [⟨message, false⟩]⟩,
      stage.link.wire⟩, ?_, rfl, rfl⟩
    simp only [send, Link.send, Tapped.send, Logged.send, h]

theorem play_logged (cue : Cue) (stage : Stage (Tapped (Logged κ))) :
    (∃ stage', play cue stage = .ok () stage' ∧ Played [cue] stage stage' [cue] none) ∨
      ∃ failure stage' message, play cue stage = .error failure stage' ∧
        Played [cue] stage stage' [] (some message) := by
  cases hmessage : cue.message? with
  | none =>
    refine .inl ⟨⟨cue.effect stage.performer, stage.link⟩, ?_, .inl ⟨rfl, rfl⟩, rfl, ?_, ?_⟩
    · rw [play_of_silent hmessage]
      rfl
    · simp [hmessage]
    · simp [hmessage, outcomes]
  | some message =>
    rcases send_logged message stage with
      ⟨link, hsend, hwire, hattempts⟩ | ⟨failure, link, hsend, hwire, hattempts⟩
    · refine .inl ⟨⟨cue.effect stage.performer, link⟩, ?_, .inl ⟨rfl, rfl⟩, rfl, ?_, ?_⟩
      · rw [play_of_message hmessage, bind_of_ok hsend]
        rfl
      · simp [hmessage, hwire]
      · simp [hmessage, hattempts, outcomes]
    · refine .inr ⟨failure, ⟨stage.performer, link⟩, message, ?_,
        .inr ⟨cue, [], rfl, hmessage, rfl⟩, rfl, ?_, ?_⟩
      · rw [play_of_message hmessage, bind_of_error hsend]
      · simp [hwire]
      · simp [hattempts, outcomes]

/-- Cues are played up to the first message that is lost. -/
theorem perform_logged (cues : List Cue) (stage : Stage (Tapped (Logged κ))) :
    (∃ stage', perform cues stage = .ok () stage' ∧ Played cues stage stage' cues none) ∨
      ∃ failure stage' done message, perform cues stage = .error failure stage' ∧
        Played cues stage stage' done (some message) := by
  induction cues generalizing stage with
  | nil => exact .inl ⟨stage, rfl, .nil stage⟩
  | cons cue cues ih =>
    rw [perform_cons]
    rcases play_logged cue stage with
      ⟨middle, hplay, hfirst⟩ | ⟨failure, stage', message, hplay, hlost⟩
    · rw [bind_of_ok hplay]
      rcases ih middle with
        ⟨stage', hrun, hothers⟩ | ⟨failure, stage', done, message, hrun, hothers⟩
      · exact .inl ⟨stage', hrun, hfirst.cons hothers⟩
      · exact .inr ⟨failure, stage', cue :: done, message, hrun, hfirst.cons hothers⟩
    · rw [bind_of_error hplay]
      refine .inr ⟨failure, stage', [], message, rfl, ?_, hlost.performer, hlost.wire,
        hlost.attempts⟩
      rcases hlost.split with ⟨hnone, -⟩ | ⟨other, back, hsplit, hmessage⟩
      · cases hnone
      · cases hsplit
        exact .inr ⟨cue, cues, rfl, hmessage⟩

end Performer

/-! ## Sessions -/

/-- The messages that are handed over belong to the cues. -/
theorem Played.mem_cues {before after : Stage (Tapped (Logged κ))} {cues done : List Cue}
    {lost : Option Message} (h : Played cues before after done lost) {attempt : Attempt}
    (hattempt : attempt ∈ outcomes (done.filterMap Cue.message?) lost) :
    ∃ cue ∈ cues, cue.message? = some attempt.message := by
  rcases List.mem_append.mp hattempt with hsent | hlost
  · obtain ⟨message, hmessage, rfl⟩ := List.mem_map.mp hsent
    obtain ⟨cue, hcue, hsome⟩ := List.mem_filterMap.mp hmessage
    exact ⟨cue, h.split.subset hcue, hsome⟩
  · obtain ⟨message, hmessage, rfl⟩ := List.mem_map.mp hlost
    rw [Option.mem_toList] at hmessage
    rcases h.split with ⟨rfl, -⟩ | ⟨next, back, rfl, hnext, -⟩
    · cases hmessage
    · exact ⟨next, List.mem_append_right _ (List.mem_cons_self ..), hnext.trans hmessage⟩

namespace Session

variable {μ α : Type}

/-- Everything that was handed to the link. -/
def attempts (session : Session μ (Logged κ)) : List Attempt :=
  session.link.link.attempts

theorem play_of_ok {session : Session μ (Logged κ)} {action : Playing (Tapped (Logged κ)) α}
    {a : α} {stage : Stage (Tapped (Logged κ))} (h : action session.stage = .ok a stage) :
    session.play action =
      (.ok a, { session with performer := stage.performer, link := stage.link }) := by
  rw [play, h]

theorem play_of_error {session : Session μ (Logged κ)} {action : Playing (Tapped (Logged κ)) α}
    {failure : LinkFailure} {stage : Stage (Tapped (Logged κ))}
    (h : action session.stage = .error failure stage) :
    session.play action =
      (.error failure, { session with performer := stage.performer, link := stage.link }) := by
  rw [play, h]

variable [Medium μ] [Link κ]

/-- The cues of an event. -/
def cues (session : Session μ (Logged κ)) : Event → List Cue
  | .tick now => session.performer.cues now session.sensor
  | .silence => session.performer.silenceCues
  | _ => []

/-- What an event hands to the link. -/
def attempted (session : Session μ (Logged κ)) (event : Event) : List Attempt :=
  (session.handle event).2.attempts.drop session.attempts.length

theorem attempted_of_played {session : Session μ (Logged κ)} {event : Event} {cues done : List Cue}
    {lost : Option Message}
    (h : Played cues session.stage (session.handle event).2.stage done lost) :
    session.attempted event = outcomes (done.filterMap Cue.message?) lost := by
  have hattempts : (session.handle event).2.attempts =
      session.attempts ++ outcomes (done.filterMap Cue.message?) lost := h.attempts
  rw [attempted, hattempts, List.drop_left]

variable (session : Session μ (Logged κ))

/-- A tick plays its cues and tells whether it started a note, or it fails with the first message
that is lost. -/
theorem played_tick (now : Nat) :
    (session.handle (.tick now)).1 =
          .played (.ok (session.performer.noteToStart? now session.sensor).isSome) ∧
        Played (session.cues (.tick now)) session.stage (session.handle (.tick now)).2.stage
          (session.cues (.tick now)) none ∨
      ∃ failure done message, (session.handle (.tick now)).1 = .played (.error failure) ∧
        Played (session.cues (.tick now)) session.stage (session.handle (.tick now)).2.stage
          done (some message) := by
  have htick := Performer.tick_eq_perform now session.sensor session.stage
  rw [handle]
  rcases Performer.perform_logged (session.stage.performer.cues now session.sensor)
      session.stage with
    ⟨stage, hrun, hplayed⟩ | ⟨failure, stage, done, message, hrun, hplayed⟩
  · rw [bind_of_ok hrun] at htick
    rw [play_of_ok htick]
    exact .inl ⟨rfl, hplayed⟩
  · rw [bind_of_error hrun] at htick
    rw [play_of_error htick]
    exact .inr ⟨failure, done, message, rfl, hplayed⟩

/-- Silencing plays its cues, and fails with the first message that is lost. -/
theorem played_silence :
    (session.handle .silence).1 = .silenced (.ok ()) ∧
        Played (session.cues .silence) session.stage (session.handle .silence).2.stage
          (session.cues .silence) none ∨
      ∃ failure done message, (session.handle .silence).1 = .silenced (.error failure) ∧
        Played (session.cues .silence) session.stage (session.handle .silence).2.stage
          done (some message) := by
  have hsilence := Performer.silence_eq_perform session.stage
  rw [handle]
  rcases Performer.perform_logged session.stage.performer.silenceCues session.stage with
    ⟨stage, hrun, hplayed⟩ | ⟨failure, stage, done, message, hrun, hplayed⟩
  · rw [play_of_ok (hsilence.trans hrun)]
    exact .inl ⟨rfl, hplayed⟩
  · rw [play_of_error (hsilence.trans hrun)]
    exact .inr ⟨failure, done, message, rfl, hplayed⟩

theorem exists_played_tick (now : Nat) : ∃ done lost,
    Played (session.cues (.tick now)) session.stage (session.handle (.tick now)).2.stage done
      lost := by
  rcases session.played_tick now with ⟨-, hplayed⟩ | ⟨_, done, message, -, hplayed⟩
  · exact ⟨_, none, hplayed⟩
  · exact ⟨done, some message, hplayed⟩

theorem exists_played_silence : ∃ done lost,
    Played (session.cues .silence) session.stage (session.handle .silence).2.stage done lost := by
  rcases session.played_silence with ⟨-, hplayed⟩ | ⟨_, done, message, -, hplayed⟩
  · exact ⟨_, none, hplayed⟩
  · exact ⟨done, some message, hplayed⟩

/-- The messages that an event puts on the wire are those of its first cues. -/
theorem wire_handle (event : Event) : ∃ done, done <+: session.cues event ∧
    (session.handle event).2.link.wire =
      session.link.wire ++ done.filterMap Cue.message? := by
  have hidle (hsame : (session.handle event).2.link.wire = session.link.wire) :
      ∃ done, done <+: session.cues event ∧ (session.handle event).2.link.wire =
        session.link.wire ++ done.filterMap Cue.message? := by
    refine ⟨[], List.nil_prefix, ?_⟩
    rw [hsame, List.filterMap_nil, List.append_nil]
  cases event with
  | sense reading => exact hidle rfl
  | tick now =>
    obtain ⟨done, lost, hplayed⟩ := session.exists_played_tick now
    exact ⟨done, hplayed.split.isPrefix, hplayed.wire⟩
  | line text => exact hidle rfl
  | reconfigure text => exact hidle rfl
  | raiseFault => exact hidle rfl
  | silence =>
    obtain ⟨done, lost, hplayed⟩ := session.exists_played_silence
    exact ⟨done, hplayed.split.isPrefix, hplayed.wire⟩

theorem attempted_of_idle {session : Session μ (Logged κ)} {event : Event}
    (h : (session.handle event).2.attempts = session.attempts) : session.attempted event = [] := by
  rw [attempted, h, List.drop_length]

/-- Whatever an event hands to the link is the message of one of its cues. -/
theorem exists_cue_of_attempted {event : Event} {attempt : Attempt}
    (h : attempt ∈ session.attempted event) :
    ∃ cue ∈ session.cues event, cue.message? = some attempt.message := by
  have hidle (hsame : (session.handle event).2.attempts = session.attempts) :
      ∃ cue ∈ session.cues event, cue.message? = some attempt.message := by
    rw [attempted_of_idle hsame] at h
    cases h
  have hplays {done : List Cue} {lost : Option Message}
      (hplayed : Played (session.cues event) session.stage (session.handle event).2.stage done
        lost) : ∃ cue ∈ session.cues event, cue.message? = some attempt.message := by
    rw [attempted_of_played hplayed] at h
    exact hplayed.mem_cues h
  cases event with
  | sense reading => exact hidle rfl
  | tick now =>
    obtain ⟨done, lost, hplayed⟩ := session.exists_played_tick now
    exact hplays hplayed
  | line text => exact hidle rfl
  | reconfigure text => exact hidle rfl
  | raiseFault => exact hidle rfl
  | silence =>
    obtain ⟨done, lost, hplayed⟩ := session.exists_played_silence
    exact hplays hplayed

end Session

end MotionMidi
