import Mathlib.Data.List.Induction
import Mathlib.Data.List.Forall2
import MotionMidi.Config.Text
import MotionMidi.Proofs.Config.Progress

/-!
# Well-formed configurations

Every number of a configuration that was read lies within its bounds, what is derived from the
settings fits them, and note mappings whose range was left out span the notes of the final scale.

## Main definitions

- `Config.Accepted` — a configuration was read from a text
- `Config.LastNote` — the place of the last mapping that plays notes
- `Config.WellFormed` — the bounds of a configuration and what is derived from it
- `Config.Follows` — the mappings are those that some commands declare
- `Config.DescribedBy` — a configuration is the one that a text describes

Main statements: `Config.lastNote_iff`, `Config.Writable.wellFormed`, `Config.follows_ofCommands`,
`Config.describedBy_of_parse`.
-/

namespace MotionMidi

theorem Binary32.truncate_le (bound : Nat) (x : Binary32) : x.truncate bound ≤ bound := by
  unfold Binary32.truncate
  split
  · exact Nat.zero_le _
  · exact Nat.zero_le _
  · exact Nat.min_le_right _ _

namespace Config

/-- A configuration was read from a text. -/
def Accepted (config : Config) : Prop :=
  ∃ text parsed, parse text = .ok parsed ∧ parsed.config = config

/-! ## The mapping that chooses notes -/

/-- The place of the last mapping that plays notes. -/
def LastNote (config : Config) (index : Nat) : Prop :=
  (∃ mapping, config.mappings[index]? = some mapping ∧ mapping.destination = .note) ∧
    ∀ later, index < later → ∀ mapping, config.mappings[later]? = some mapping →
      mapping.destination ≠ .note

theorem getElem?_concat_eq_some {α : Type} {as : List α} {b c : α} {index : Nat} :
    (as ++ [b])[index]? = some c ↔ as[index]? = some c ∨ index = as.length ∧ b = c := by
  rcases Nat.lt_trichotomy index as.length with hlt | rfl | hgt
  · rw [List.getElem?_append_left hlt]
    simp [Nat.ne_of_lt hlt]
  · simp
  · rw [List.getElem?_eq_none (by simpa using Nat.succ_le_of_lt hgt),
      List.getElem?_eq_none (Nat.le_of_lt hgt)]
    simp [Nat.ne_of_gt hgt]

/-- The last place of a list where something holds. -/
theorem getLast?_filter_zipIdx {α : Type} (p : α → Bool) (as : List α) (a : α) (index : Nat) :
    (as.zipIdx.filter fun (a, _) => p a).getLast? = some (a, index) ↔
      as[index]? = some a ∧ p a ∧
        ∀ later, index < later → ∀ b, as[later]? = some b → p b = false := by
  induction as using List.reverseRecOn with
  | nil => simp
  | append_singleton as b ih =>
    have hzip : (as ++ [b]).zipIdx = as.zipIdx ++ [(b, as.length)] := by
      rw [List.zipIdx_append, Nat.zero_add]
      rfl
    have hbound {index : Nat} {c : α} (h : as[index]? = some c) : index < as.length :=
      (List.getElem?_eq_some_iff.mp h).1
    rw [hzip, List.filter_append, List.getLast?_append]
    simp only [getElem?_concat_eq_some]
    by_cases hb : p b = true
    case pos =>
      -- The element at the end is the last one, so no other place will do.
      rw [List.filter_cons_of_pos (by simpa using hb), List.filter_nil, List.getLast?_singleton,
        Option.some_or, Option.some_inj, Prod.mk.injEq]
      constructor
      · rintro ⟨rfl, rfl⟩
        refine ⟨.inr ⟨rfl, rfl⟩, hb, ?_⟩
        rintro later hlater c (hc | ⟨rfl, -⟩)
        · exact absurd (hbound hc) (Nat.lt_asymm hlater)
        · exact absurd hlater (Nat.lt_irrefl _)
      · rintro ⟨hold | ⟨rfl, rfl⟩, -, hlater⟩
        · rw [hlater as.length (hbound hold) b (.inr ⟨rfl, rfl⟩)] at hb
          cases hb
        · exact ⟨rfl, rfl⟩
    case neg =>
      rw [List.filter_cons_of_neg (by simpa using hb), List.filter_nil, List.getLast?_nil,
        Option.none_or, ih]
      constructor
      · rintro ⟨ha, hp, hlater⟩
        refine ⟨.inl ha, hp, ?_⟩
        rintro later hafter c (hc | ⟨-, rfl⟩)
        · exact hlater later hafter c hc
        · exact Bool.eq_false_iff.mpr hb
      · rintro ⟨ha | ⟨-, rfl⟩, hp, hlater⟩
        · exact ⟨ha, hp, fun later hafter c hc => hlater later hafter c (.inl hc)⟩
        · exact absurd hp hb

variable {config : Config}

theorem lastNote_iff (config : Config) (index : Nat) :
    config.noteMappingIndex? = some index ↔ config.LastNote index := by
  unfold noteMappingIndex? lastNoteMapping? LastNote
  rw [Option.map_eq_some_iff]
  constructor
  · rintro ⟨⟨mapping, index⟩, hlast, rfl⟩
    obtain ⟨hmapping, hnote, hlater⟩ :=
      (getLast?_filter_zipIdx (fun mapping : Mapping => mapping.destination = .note) _ _ _).mp hlast
    exact ⟨⟨mapping, hmapping, of_decide_eq_true hnote⟩, fun later hafter other hother =>
      of_decide_eq_false (hlater later hafter other hother)⟩
  · rintro ⟨⟨mapping, hmapping, hnote⟩, hlater⟩
    refine ⟨(mapping, index), ?_, rfl⟩
    apply (getLast?_filter_zipIdx (fun mapping : Mapping => mapping.destination = .note) _ _ _).mpr
    exact ⟨hmapping, decide_eq_true hnote, fun later hafter other hother =>
      decide_eq_false (hlater later hafter other hother)⟩

theorem noteMappingIndex?_eq_none (config : Config) :
    config.noteMappingIndex? = none ↔ ∀ mapping ∈ config.mappings, mapping.destination ≠ .note := by
  unfold noteMappingIndex? lastNoteMapping?
  rw [Option.map_eq_none_iff, List.getLast?_eq_none_iff, List.filter_eq_nil_iff]
  constructor
  · intro h mapping hmapping
    obtain ⟨index, hindex⟩ := List.mem_iff_getElem?.mp hmapping
    have hzip : (mapping, index) ∈ config.mappings.zipIdx := by
      rwa [List.mk_mem_zipIdx_iff_getElem?]
    simpa using h (mapping, index) hzip
  · rintro h ⟨mapping, index⟩ hzip
    simpa using h mapping (List.fst_mem_of_mem_zipIdx hzip)

/-! ## Bounds -/

/-- The bounds of a configuration, and what is derived from it. -/
structure WellFormed (config : Config) : Prop where
  channel : config.channel ≤ 15
  intervals : config.intervals.length ≤ 16
  mappings : config.mappings.length ≤ 10
  tempo : 1 ≤ config.tempo
  division : config.division.isFinite
  domain : ∀ mapping ∈ config.mappings, mapping.fromLo.isFinite ∧ mapping.fromHi.isFinite
  range : ∀ mapping ∈ config.mappings, mapping.toLo ≤ mapping.toHi
  controller : ∀ mapping ∈ config.mappings, ∀ controller,
    mapping.destination = .controlChange controller → controller ≤ 127
  validNotes : config.validNotes =
    .build config.root config.intervals config.firstOctave config.lastOctave
  /-- No playable note of the scale is left out for want of room. -/
  complete : config.validNotes.notes = NoteTable.scaleNotes config.root config.intervals
    (NoteTable.octaves config.firstOctave config.lastOctave)
  capacity : config.validNotes.notes.length ≤ 16 * 9
  notes : ∀ note ∈ config.validNotes.notes, note ≤ 127
  autoRepeat : config.autoRepeat ≤ (2 ^ 32 - 1) * 1000
  noteMapping : ∀ index, config.noteMappingIndex? = some index ↔ config.LastNote index
  noNoteMapping : config.noteMappingIndex? = none ↔
    ∀ mapping ∈ config.mappings, mapping.destination ≠ .note

theorem Writable.wellFormed (h : config.Writable) : config.WellFormed where
  channel := h.channel.2
  intervals := h.scale
  mappings := h.mappings
  tempo := h.tempo.1
  division := h.division
  domain mapping hmapping :=
    ⟨(h.mapping mapping hmapping).fromLo, (h.mapping mapping hmapping).fromHi⟩
  range mapping _ := mapping.ordered
  controller mapping hmapping controller hcontroller :=
    ((h.mapping mapping hmapping).controller controller hcontroller).2
  validNotes := rfl
  complete := by
    rw [validNotes, NoteTable.notes_build]
    exact List.take_of_length_le (NoteTable.length_scaleNotes_le _ h.scale _ _)
  capacity := by
    rw [validNotes, NoteTable.notes_build]
    exact List.length_take_le _ _
  notes := NoteTable.playable_build _ _ _ _
  autoRepeat := Nat.mul_le_mul_right _ (Binary32.truncate_le _ _)
  noteMapping := config.lastNote_iff
  noNoteMapping := config.noteMappingIndex?_eq_none

theorem Accepted.writable (h : config.Accepted) : config.Writable := by
  obtain ⟨text, parsed, hparse, rfl⟩ := h
  exact writable_of_parse hparse

/-! ## Mappings -/

/-- The range of a note mapping that comes without one: from the first to the last playable note,
where these ascend. -/
def Spans (config : Config) (mapping : Mapping) : Prop :=
  (∀ first last, config.validNotes.notes.head? = some first →
      config.validNotes.notes.getLast? = some last → first ≤ last →
        mapping.toLo = first ∧ mapping.toHi = last) ∧
    ((∀ first last, config.validNotes.notes.head? = some first →
      config.validNotes.notes.getLast? = some last → last < first) →
        mapping.toLo = 0 ∧ mapping.toHi = 127)

/-- A mapping is the one that was declared: with the range that was written, or, if it plays notes
and its range was left out, from the first to the last playable note. -/
structure Declares (config : Config) (declaration : Declaration) (mapping : Mapping) : Prop where
  input : mapping.input = declaration.input
  destination : mapping.destination = declaration.target.destination
  written : ∀ window, declaration.window = some window →
    mapping.toLo = window.toLo.clamped ∧ mapping.toHi = window.toHi.clamped
  spans : Progress.SpansNotes declaration → config.Spans mapping

/-- The mappings are those that some commands declare, in order. -/
def Follows (config : Config) (commands : List Command) : Prop :=
  List.Forall₂ config.Declares (Progress.declared commands) config.mappings

theorem defaultRange_of_bounds {notes : NoteTable} {first last : Nat}
    (h : notes.bounds? = some (first, last)) :
    notes.defaultRange .note = if first ≤ last then (first, last) else (0, 127) := by
  unfold NoteTable.defaultRange
  rw [h]
  rfl

theorem defaultRange_of_empty {notes : NoteTable} (h : notes.bounds? = none) :
    notes.defaultRange .note = (0, 127) := by
  unfold NoteTable.defaultRange
  rw [h]
  rfl

theorem spans_mapping {declaration : Declaration} (h : Progress.SpansNotes declaration) :
    config.Spans (declaration.mapping config.validNotes) := by
  obtain ⟨input, window, target, ordered⟩ := declaration
  obtain ⟨rfl, rfl⟩ := h
  have htoLo : (Declaration.mapping config.validNotes ⟨input, none, .note, ordered⟩).toLo =
      (config.validNotes.defaultRange .note).1 := rfl
  have htoHi : (Declaration.mapping config.validNotes ⟨input, none, .note, ordered⟩).toHi =
      (config.validNotes.defaultRange .note).2 := rfl
  rw [Spans, htoLo, htoHi]
  constructor
  · intro first last hfirst hlast hle
    have hbounds := NoteTable.bounds?_eq_some_iff.mpr ⟨hfirst, hlast⟩
    rw [defaultRange_of_bounds hbounds, if_pos hle]
    exact ⟨rfl, rfl⟩
  · intro hreversed
    cases hbounds : config.validNotes.bounds? with
    | none =>
      rw [defaultRange_of_empty hbounds]
      exact ⟨rfl, rfl⟩
    | some bounds =>
      obtain ⟨hfirst, hlast⟩ := NoteTable.bounds?_eq_some_iff.mp hbounds
      have hlt := hreversed _ _ hfirst hlast
      rw [defaultRange_of_bounds hbounds, if_neg (Nat.not_le.mpr hlt)]
      exact ⟨rfl, rfl⟩

theorem declares_mapping (declaration : Declaration) :
    config.Declares declaration (declaration.mapping config.validNotes) := by
  refine ⟨?_, ?_, ?_, spans_mapping⟩
  · obtain ⟨input, _ | window, target, ordered⟩ := declaration <;> rfl
  · obtain ⟨input, _ | window, target, ordered⟩ := declaration <;> rfl
  · obtain ⟨input, _ | window, target, ordered⟩ := declaration
    · exact nofun
    · rintro _ ⟨⟩
      exact ⟨rfl, rfl⟩

theorem follows_ofCommands (commands : List Command) :
    (ofCommands commands).Follows commands := by
  rw [Follows, ofCommands, List.forall₂_map_right_iff]
  exact List.forall₂_same.mpr fun declaration _ => declares_mapping declaration

/-- A configuration is well-formed, and its mappings are those that the commands of a text
declare. -/
def DescribedBy (config : Config) (text : String) : Prop :=
  config.WellFormed ∧ ∃ commands,
    Relation.ReflTransGen Progress.Step (Progress.start text) ⟨commands, none, []⟩ ∧
      config.Follows commands

theorem describedBy_of_parse {text : String} {parsed : Parsed} (h : parse text = .ok parsed) :
    parsed.config.DescribedBy text := by
  refine ⟨(writable_of_parse h).wellFormed, ?_⟩
  unfold parse Command.parse at h
  cases hread : Command.readAll 0 (Token.scan text.toList) with
  | error fault =>
    rw [hread] at h
    cases h
  | ok commands =>
    rw [hread] at h
    cases h
    exact ⟨commands, Progress.readAll_eq_ok_iff.mp hread, follows_ofCommands commands⟩

end Config

end MotionMidi
