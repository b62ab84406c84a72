import MotionMidi.Proofs.Config.Clamping

/-!
# Building a configuration

A configuration is built command by command. Integers are brought into range as they come, and the
first one that has to be is recorded. What is derived from the settings is computed once, at the
end, and only then note mappings whose range was left out are given the range of the playable notes.

## Main definitions

- `Draft` — a configuration with its derived fields, the mappings that wait for a range, and the
  first problem that was recorded
- `Draft.store` — brings one integer into range, stage by stage
- `Draft.step`, `Draft.close` — takes one command, and completes the configuration
- `Draft.build` — takes all commands and completes the configuration
- `Draft.after` — the draft that some commands lead to

Main statements: `Draft.step_after`, one command leads from draft to draft; `Draft.build_eq`, what
is built is what the commands describe; `Config.built_of_parse`.

## Design notes

A step fails where the output range of a mapping is reversed, and completing fails where a place is
beyond the end of the mappings. Neither happens, which is part of the statements here.
-/

namespace MotionMidi

/-- A configuration that is being built. -/
structure Draft where
  /-- The settings, and the mappings so far. -/
  config : Config := {}
  /-- The playable notes. -/
  notes : NoteTable := Config.validNotes {}
  /-- The time between repeated notes, in microseconds. -/
  autoRepeat : Nat := Config.autoRepeat {}
  /-- The place of the mapping that chooses notes. -/
  notesMapping : Option Nat := none
  /-- The places of the note mappings that wait for a range. -/
  spanning : List Nat := []
  /-- The first problem that was recorded. -/
  warning : Option Error := none
  deriving DecidableEq, Repr

/-- The output range of a mapping, unless that would be reversed. -/
def Mapping.setRange (lowest highest : Nat) (mapping : Mapping) : Mapping :=
  if ordered : lowest ≤ highest then { mapping with toLo := lowest, toHi := highest, ordered }
  else mapping

/-- The place of the last element that passes a test, found from the end. -/
def lastPlace? {α : Type} (test : α → Bool) (as : List α) : Option Nat :=
  (as.reverse.findIdx? test).map (as.length - 1 - ·)

namespace Draft

/-! ## Integers -/

/-- Records a problem. Only the first is kept. -/
def recover (draft : Draft) (position : Nat) : Draft :=
  match draft.warning with
  | none => { draft with warning := some (.outOfRange position) }
  | some _ => draft

/-- Brings an integer into range, first that of a machine integer and then that of its field. What
changes it is recorded. -/
def store (draft : Draft) (literal : Literal) : Nat × Draft :=
  let written := Numeral.saturate literal.value
  let converted := literal.field.convert written
  let draft := if converted = written then draft else draft.recover literal.position
  let narrowed := literal.field.narrow converted
  let draft := if narrowed = converted then draft else draft.recover literal.position
  (narrowed.toNat, draft)

/-- Brings some integers into range, one after the other. -/
def storeAll (draft : Draft) : List Literal → List Nat × Draft
  | [] => ([], draft)
  | literal :: literals =>
    let (n, draft) := draft.store literal
    let (ns, draft) := draft.storeAll literals
    (n :: ns, draft)

/-! ## Commands -/

/-- The output range of a mapping, as far as it is known when the mapping is read. -/
def storeRange (draft : Draft) : Option Window → (Nat × Nat) × Draft
  | some window =>
    let (lowest, draft) := draft.store window.toLo
    let (highest, draft) := draft.store window.toHi
    ((lowest, highest), draft)
  | none => ((0, 127), draft)

/-- The destination of a mapping. The pitch bend has a range of its own where none is written. -/
def storeTarget (draft : Draft) (window : Option Window) (range : Nat × Nat) :
    Target → Destination × (Nat × Nat) × Draft
  | .controlChange controller =>
    let (controller, draft) := draft.store controller
    (.controlChange controller, range, draft)
  | .pitchBend => (.pitchBend, if window.isSome then range else (0, Midi.highestBend), draft)
  | .note => (.note, range, draft)

/-- Adds a mapping, unless its output range is reversed. -/
def declare (draft : Draft) (declaration : Declaration) : Option Draft :=
  let (range, draft) := draft.storeRange declaration.window
  let (destination, range, draft) := draft.storeTarget declaration.window range declaration.target
  let domain := match declaration.window with
    | some window => (window.fromLo, window.fromHi)
    | none => declaration.input.defaultDomain
  (Mapping.make? declaration.input domain range destination).map fun mapping =>
    { draft with
      spanning :=
        if mapping.destination = .note ∧ declaration.window = none then
          draft.spanning ++ [draft.config.mappings.length]
        else draft.spanning
      config := { draft.config with mappings := draft.config.mappings ++ [mapping] } }

/-- Takes one command. -/
def step (draft : Draft) : Command → Option Draft
  | .channel index =>
    let (channel, draft) := draft.store index
    some { draft with config := { draft.config with channel } }
  | .root key => some { draft with config := { draft.config with root := key } }
  | .scale intervals =>
    let (intervals, draft) := draft.storeAll intervals
    some { draft with config := { draft.config with intervals } }
  | .octaves first last =>
    let (firstOctave, draft) := draft.store first
    let (lastOctave, draft) := draft.store last
    some { draft with config := { draft.config with firstOctave, lastOctave } }
  | .tempo bpm =>
    let (tempo, draft) := draft.store bpm
    some { draft with config := { draft.config with tempo } }
  | .division beats => some { draft with config := { draft.config with division := beats } }
  | .map declaration => draft.declare declaration
  | .finish => some draft

/-! ## The end -/

/-- Derives what depends on the settings and the mappings. -/
def refresh (draft : Draft) : Draft :=
  let config := draft.config
  { draft with
    notes := .build config.root config.intervals config.firstOctave config.lastOctave
    autoRepeat := (60000 / Binary32.ofNat (max config.tempo 1) * config.division).truncate
      Config.longestAutoRepeat * 1000
    notesMapping := lastPlace? (·.destination = .note) config.mappings }

/-- Gives a range to the mapping at a place. -/
def setRangeAt (lowest highest : Nat) (mappings : List Mapping) (place : Nat) :
    Option (List Mapping) :=
  if place < mappings.length then some (mappings.modify place (Mapping.setRange lowest highest))
  else none

/-- Completes the configuration: derives what depends on it, and gives the mappings that wait for it
the range of the playable notes. -/
def close (draft : Draft) : Option Draft :=
  let draft := draft.refresh
  match draft.notes.bounds? with
  | some (lowest, highest) =>
    (draft.spanning.foldlM (setRangeAt lowest highest) draft.config.mappings).map fun mappings =>
      { draft with config := { draft.config with mappings } }
  | none => some draft

/-- Takes all commands and completes the configuration. -/
def build (commands : List Command) : Option Draft :=
  (commands.foldlM step {}).bind close

/-! ## What is recorded -/

/-- The problem of the first integer out of range. -/
def problem? (literals : List Literal) : Option Error :=
  (literals.find? (¬ ·.InRange)).map fun literal => .outOfRange literal.position

/-- Records the problem of the first integer out of range. -/
def noting (draft : Draft) (literals : List Literal) : Draft :=
  { draft with warning := draft.warning.or (problem? literals) }

variable {draft : Draft} {literal : Literal}

@[simp] theorem problem?_nil : problem? [] = none :=
  rfl

theorem problem?_append (front back : List Literal) :
    problem? (front ++ back) = (problem? front).or (problem? back) := by
  rw [problem?, List.find?_append, Option.map_or]
  rfl

@[simp] theorem noting_nil (draft : Draft) : draft.noting [] = draft := by
  cases hwarning : draft.warning <;> simp [noting, ← hwarning]

theorem noting_noting (front back : List Literal) :
    (draft.noting front).noting back = draft.noting (front ++ back) := by
  simp only [noting, problem?_append, Option.or_assoc]

theorem noting_inRange (h : literal.InRange) : draft.noting [literal] = draft := by
  have hnone : problem? [literal] = problem? [] := by
    simp [problem?, h]
  rw [noting, hnone]
  exact noting_nil draft

theorem recover_eq (h : ¬literal.InRange) :
    draft.recover literal.position = draft.noting [literal] := by
  have hsome : problem? [literal] = some (.outOfRange literal.position) := by
    simp [problem?, h]
  rw [noting, hsome]
  obtain ⟨_, _, _, _, _, warning⟩ := draft
  cases warning <;> rfl

/-- Both stages may change an integer, and the second of them records nothing new then. -/
theorem recover_recover (draft : Draft) (position : Nat) :
    (draft.recover position).recover position = draft.recover position := by
  obtain ⟨_, _, _, _, _, warning⟩ := draft
  cases warning <;> rfl

/-- The stages give the nearest value, and record the integer exactly if it is out of range. -/
theorem store_eq (draft : Draft) (literal : Literal) :
    draft.store literal = (literal.clamped, draft.noting [literal]) := by
  obtain ⟨hclamped, hstages⟩ := literal.stages
  unfold store
  dsimp only
  rw [hclamped] at hstages ⊢
  rw [Int.toNat_natCast, Prod.mk.injEq, and_iff_right rfl]
  by_cases hrange : literal.InRange
  · rw [if_pos (hstages.mp hrange).1, if_pos (hstages.mp hrange).2, noting_inRange hrange]
  · rw [← recover_eq hrange]
    rw [hstages, not_and_or] at hrange
    split <;> split <;> simp_all [recover_recover]

theorem storeAll_eq (draft : Draft) (literals : List Literal) :
    draft.storeAll literals = (literals.map Literal.clamped, draft.noting literals) := by
  induction literals generalizing draft with
  | nil => rw [storeAll, noting_nil, List.map_nil]
  | cons literal literals ih =>
    rw [storeAll, store_eq]
    dsimp only
    rw [ih, noting_noting]
    rfl

/-! ## One command -/

/-- The places of the declarations of notes whose range is left out, counted from a start. -/
def places (start : Nat) (declarations : List Declaration) : List Nat :=
  ((declarations.zipIdx start).filter fun (declaration, _) =>
    Progress.SpansNotes declaration).map (·.2)

/-- What is built from some commands, as long as more may come: a mapping is built as if there were
no playable notes, and what is derived has its default. -/
def after (commands : List Command) : Draft where
  config := { Config.settings commands with
    mappings := (Progress.declared commands).map (Declaration.mapping {}) }
  spanning := places 0 (Progress.declared commands)
  warning := Config.warning? commands

theorem declare_eq (draft : Draft) (declaration : Declaration) :
    draft.declare declaration = some { draft.noting (Command.literals (.map declaration)) with
      spanning :=
        if Progress.SpansNotes declaration then draft.spanning ++ [draft.config.mappings.length]
        else draft.spanning
      config := { draft.config with
        mappings := draft.config.mappings ++ [declaration.mapping {}] } } := by
  obtain ⟨input, window, target, ordered⟩ := declaration
  cases window with
  | none =>
    cases target with
    | controlChange controller =>
      simp only [declare, storeRange, storeTarget, store_eq]
      rfl
    | pitchBend =>
      rw [show Command.literals (.map ⟨input, none, .pitchBend, ordered⟩) = [] from rfl, noting_nil]
      rfl
    | note =>
      rw [show Command.literals (.map ⟨input, none, .note, ordered⟩) = [] from rfl, noting_nil]
      rfl
  | some window =>
    have hordered : window.toLo.clamped ≤ window.toHi.clamped := ordered window rfl
    cases target <;>
      simp only [declare, storeRange, storeTarget, store_eq, noting_noting, Mapping.make?,
        Option.isSome_some, if_true, dif_pos hordered] <;> rfl

theorem places_append (declarations : List Declaration) (declaration : Declaration) :
    places 0 (declarations ++ [declaration]) =
      if Progress.SpansNotes declaration then places 0 declarations ++ [declarations.length]
      else places 0 declarations := by
  rw [places, List.zipIdx_append, Nat.zero_add, List.filter_append, List.map_append]
  by_cases h : Progress.SpansNotes declaration <;> simp [places, h]

theorem warning?_append (commands : List Command) (command : Command) :
    Config.warning? (commands ++ [command]) =
      (Config.warning? commands).or (problem? command.literals) := by
  change problem? _ = _
  rw [List.flatMap_append, problem?_append, List.flatMap_singleton]
  rfl

/-- One command leads from the draft of some commands to that of one more. -/
theorem step_after (commands : List Command) (command : Command) :
    (after commands).step command = some (after (commands ++ [command])) := by
  have hsettings : Config.settings (commands ++ [command]) =
      (Config.settings commands).set command := by
    rw [Config.settings, List.foldl_append]
    rfl
  have hdeclared : Progress.declared (commands ++ [command]) =
      Progress.declared commands ++ command.declaration?.toList := by
    rw [Progress.declared, List.filterMap_append, Progress.declared]
    cases h : command.declaration? <;> simp [h]
  cases command with
  | map declaration =>
    rw [step, declare_eq]
    simp only [after, hsettings, hdeclared, warning?_append, noting]
    simp [Command.declaration?, places_append, Config.set]
  | _ =>
    simp only [step, store_eq, storeAll_eq, noting_noting]
    simp only [after, hsettings, hdeclared, warning?_append, noting]
    simp [Command.declaration?, Command.literals, Config.set]

theorem foldlM_after (commands : List Command) :
    commands.foldlM step {} = some (after commands) := by
  induction commands using List.reverseRecOn with
  | nil => rfl
  | append_singleton commands command ih =>
    rw [List.foldlM_append, ih]
    exact (bind_pure _).trans (step_after commands command)

/-! ## Completing -/

theorem lastPlace?_map {α β : Type} (test : β → Bool) (f : α → β) (as : List α) :
    lastPlace? test (as.map f) = lastPlace? (test ∘ f) as := by
  rw [lastPlace?, ← List.map_reverse, List.findIdx?_map, List.length_map, lastPlace?]

/-- Found from the end, the last place is the end of those that pass the test. -/
theorem lastPlace?_eq {α : Type} (test : α → Bool) (as : List α) :
    lastPlace? test as = (as.zipIdx.filter fun (a, _) => test a).getLast?.map (·.2) := by
  induction as using List.reverseRecOn with
  | nil => rfl
  | append_singleton as a ih =>
    rw [lastPlace?, List.reverse_append, List.reverse_singleton, List.singleton_append,
      List.findIdx?_cons, List.zipIdx_append, List.filter_append, List.getLast?_append,
      Nat.zero_add]
    by_cases ha : test a
    · simp [ha]
    · have hshift : (as.length + 1 - 1 - ·) ∘ (· + 1) = (as.length - 1 - · : Nat → Nat) := by
        funext back
        dsimp only [Function.comp]
        omega
      have hlast : ([a].zipIdx as.length).filter (fun (a, _) => test a) = [] := by simp [ha]
      rw [if_neg ha, hlast, List.getLast?_nil, Option.none_or, ← ih, Option.map_map,
        List.length_append, List.length_singleton, hshift, lastPlace?]

/-- The mapping that chooses notes is found before its range is known. -/
theorem lastPlace?_declared (notes : NoteTable) (declarations : List Declaration) :
    lastPlace? (·.destination = .note) (declarations.map (Declaration.mapping notes)) =
      lastPlace? (·.target.destination = .note) declarations := by
  rw [lastPlace?_map]
  simp only [Function.comp_def, Declaration.destination_mapping]

theorem modify_append_cons {α : Type} (f : α → α) (front : List α) (a : α) (back : List α) :
    (front ++ a :: back).modify front.length f = front ++ f a :: back := by
  induction front with
  | nil => rfl
  | cons b front ih => exact congrArg (b :: ·) ih

/-- The mappings that wait for a range get it, behind others that do not. -/
theorem foldlM_setRangeAt (lowest highest : Nat) (front : List Mapping)
    (declarations : List Declaration) :
    (places front.length declarations).foldlM (setRangeAt lowest highest)
        (front ++ declarations.map (Declaration.mapping {})) =
      some (front ++ declarations.map fun declaration =>
        if Progress.SpansNotes declaration then
          (declaration.mapping {}).setRange lowest highest
        else declaration.mapping {}) := by
  induction declarations generalizing front with
  | nil => rfl
  | cons declaration declarations ih =>
    rw [places, List.zipIdx_cons, List.map_cons, List.map_cons]
    -- Once the first mapping has its range, it stands among those in front.
    have hnext (mapping : Mapping) := ih (front ++ [mapping])
    simp only [List.length_append, List.length_singleton, List.append_assoc,
      List.singleton_append] at hnext
    by_cases h : Progress.SpansNotes declaration
    · have hset : setRangeAt lowest highest
          (front ++ declaration.mapping {} :: declarations.map (Declaration.mapping {}))
            front.length = some (front ++ (declaration.mapping {}).setRange lowest highest ::
              declarations.map (Declaration.mapping {})) := by
        rw [setRangeAt, if_pos (by simp), modify_append_cons]
      rw [List.filter_cons_of_pos (by simpa using h), List.map_cons, List.foldlM_cons, hset,
        if_pos h]
      exact hnext _
    · rw [List.filter_cons_of_neg (by simpa using h), if_neg h]
      exact hnext _

/-- Without playable notes a mapping has the range that it was read with. -/
theorem mapping_of_empty {notes : NoteTable} (hbounds : notes.bounds? = none) :
    Declaration.mapping {} = Declaration.mapping notes := by
  have hrange (destination : Destination) :
      notes.defaultRange destination = NoteTable.defaultRange {} destination := by
    cases destination with
    | note => rw [Config.defaultRange_of_empty hbounds, Config.defaultRange_of_empty rfl]
    | _ => rfl
  funext ⟨input, window, target, ordered⟩
  cases window
  · simp only [Declaration.mapping, hrange]
  · rfl

/-- A mapping that waited for its range has the one that it would have been given at once. -/
theorem mapping_of_bounds {notes : NoteTable} {lowest highest : Nat}
    (hbounds : notes.bounds? = some (lowest, highest)) (declaration : Declaration) :
    (if Progress.SpansNotes declaration then (declaration.mapping {}).setRange lowest highest
      else declaration.mapping {}) = declaration.mapping notes := by
  obtain ⟨input, _ | window, target, ordered⟩ := declaration
  · have hspans : Progress.SpansNotes ⟨input, none, target, ordered⟩ ↔ target = .note :=
      and_iff_right rfl
    cases target with
    | note =>
      rw [if_pos (hspans.mpr rfl)]
      simp only [Mapping.setRange, Declaration.mapping, NoteTable.defaultRange, Target.destination,
        hbounds]
      split <;> rfl
    | _ =>
      rw [if_neg (by simp [hspans])]
      rfl
  · exact if_neg (by simp [Progress.SpansNotes])

/-- Deriving at the end gives what belongs to the configuration that the commands describe. -/
theorem refresh_after {commands : List Command} (htempo : 1 ≤ (Config.settings commands).tempo) :
    (after commands).refresh = { after commands with
      notes := (Config.settings commands).validNotes
      autoRepeat := (Config.ofCommands commands).autoRepeat
      notesMapping := (Config.ofCommands commands).noteMappingIndex? } := by
  have hplace : lastPlace? (·.destination = .note) (after commands).config.mappings =
      (Config.ofCommands commands).noteMappingIndex? := by
    refine (lastPlace?_declared _ _).trans ?_
    rw [← lastPlace?_declared (Config.settings commands).validNotes]
    exact lastPlace?_eq _ _
  have htempo' : max (after commands).config.tempo 1 = (Config.ofCommands commands).tempo :=
    Nat.max_eq_left htempo
  rw [refresh, hplace, htempo']
  rfl

/-- The mappings that wait for a range are given that of the playable notes. -/
theorem close_after {commands : List Command} (htempo : 1 ≤ (Config.settings commands).tempo) :
    (after commands).close = some {
      config := .ofCommands commands
      notes := (Config.ofCommands commands).validNotes
      autoRepeat := (Config.ofCommands commands).autoRepeat
      notesMapping := (Config.ofCommands commands).noteMappingIndex?
      spanning := places 0 (Progress.declared commands)
      warning := Config.warning? commands } := by
  rw [close, refresh_after htempo]
  dsimp only
  cases hbounds : (Config.settings commands).validNotes.bounds? with
  | none =>
    rw [after, mapping_of_empty hbounds]
    rfl
  | some bounds =>
    have hranges := foldlM_setRangeAt bounds.1 bounds.2 [] (Progress.declared commands)
    simp only [mapping_of_bounds hbounds] at hranges
    exact (congrArg (Option.map _) hranges).trans rfl

/-- What is built is what the commands describe, and what is derived belongs to it. -/
theorem build_eq {commands : List Command} (htempo : 1 ≤ (Config.settings commands).tempo) :
    build commands = some {
      config := .ofCommands commands
      notes := (Config.ofCommands commands).validNotes
      autoRepeat := (Config.ofCommands commands).autoRepeat
      notesMapping := (Config.ofCommands commands).noteMappingIndex?
      spanning := places 0 (Progress.declared commands)
      warning := Config.warning? commands } := by
  rw [build, foldlM_after, Option.bind_some, close_after htempo]

end Draft

namespace Config

/-- Building the commands of an accepted text succeeds, and it comes to the configuration and the
warning that the text is read as, together with what is derived from this configuration. -/
theorem built_of_parse {text : String} {parsed : Parsed} (h : parse text = .ok parsed) :
    ∃ commands draft, Command.parse text.toList = .ok commands ∧
      Draft.build commands = some draft ∧ parsed = ⟨draft.config, draft.warning⟩ ∧
      draft.notes = parsed.config.validNotes ∧ draft.autoRepeat = parsed.config.autoRepeat ∧
      draft.notesMapping = parsed.config.noteMappingIndex? := by
  have htempo := (writable_of_parse h).tempo.1
  unfold parse at h
  cases hread : Command.parse text.toList with
  | error error =>
    rw [hread] at h
    cases h
  | ok commands =>
    rw [hread] at h
    cases h
    exact ⟨commands, _, rfl, Draft.build_eq htempo, rfl, rfl, rfl, rfl⟩

end Config

end MotionMidi
