import MotionMidi.Proofs.Config.WellFormed
import MotionMidi.Proofs.Mapping.Coverage
import MotionMidi.Proofs.Pitch.Quantizing

/-!
# Playable notes

A note mapping whose range is left out spans the scale, wherever a text sets the scale. So every
note of the scale can be played, and no other note.

Main statements: `Config.noteMapping?_ofCommands`, `Config.notes_playable`.
-/

namespace MotionMidi

namespace Config

/-! ## The mapping that chooses notes -/

theorem noteMapping?_eq (config : Config) :
    config.noteMapping? = (config.mappings.filter (·.destination = .note)).getLast? := by
  rw [noteMapping?, lastNoteMapping?, ← List.getLast?_map]
  conv_rhs => rw [← List.zipIdx_map_fst 0 config.mappings, List.filter_map]
  rfl

theorem destination_eq_note {target : Target} : target.destination = .note ↔ target = .note := by
  cases target <;> simp [Target.destination]

/-- Notes are chosen by the mapping that is declared last among those that play notes. -/
theorem noteMapping?_ofCommands (commands : List Command) :
    (ofCommands commands).noteMapping? =
      ((Progress.declared commands).filter (·.target = .note)).getLast?.map
        (Declaration.mapping (ofCommands commands).validNotes) := by
  have hmappings : (ofCommands commands).mappings =
      (Progress.declared commands).map (Declaration.mapping (ofCommands commands).validNotes) := rfl
  rw [noteMapping?_eq, hmappings, List.filter_map, List.getLast?_map]
  congr 2
  refine List.filter_congr fun declaration _ => ?_
  simp only [Function.comp_apply, Declaration.destination_mapping, destination_eq_note]

theorem value_mapping {notes : NoteTable} {declaration : Declaration}
    (h : declaration.window = none) (reading : Reading) :
    (declaration.mapping notes).value reading =
      remap (declaration.input.raw reading) declaration.input.defaultDomain.1
        declaration.input.defaultDomain.2 (declaration.mapping notes).toLo
        (declaration.mapping notes).toHi := by
  obtain ⟨input, window, target, ordered⟩ := declaration
  subst h
  rfl

/-! ## The notes that are played -/

section Spans

variable {config : Config} {mapping : Mapping}

/-- A mapping that spans the scale goes from its first note to its last one. -/
theorem Spans.ends (h : config.Spans mapping) (hascending : config.validNotes.Ascending)
    (hnotes : config.validNotes.notes ≠ []) :
    mapping.toLo = config.validNotes.notes.head hnotes ∧
      mapping.toHi = config.validNotes.notes.getLast hnotes :=
  h.1 _ _ (List.head?_eq_some_head hnotes) (List.getLast?_eq_some_getLast hnotes)
    (List.Pairwise.rel_head hascending (List.getLast_mem hnotes))

theorem Spans.le_of_mem (h : config.Spans mapping) (hascending : config.validNotes.Ascending)
    {note : Nat} (hnote : note ∈ config.validNotes.notes) :
    mapping.toLo ≤ note ∧ note ≤ mapping.toHi := by
  obtain ⟨hfirst, hlast⟩ := h.ends hascending (List.ne_nil_of_mem hnote)
  rw [hfirst, hlast]
  exact ⟨List.Pairwise.rel_head hascending hnote, List.Pairwise.rel_getLast hascending hnote⟩

/-- The range is one of MIDI notes. -/
theorem Spans.toHi_le (h : config.Spans mapping) (hascending : config.validNotes.Ascending)
    (hnotes : config.validNotes.notes ≠ []) : mapping.toHi ≤ NoteTable.highestNote := by
  rw [(h.ends hascending hnotes).2]
  exact NoteTable.playable_build _ _ _ _ _ (List.getLast_mem hnotes)

end Spans

/-- Where the mapping that chooses notes was written without a range, every note of an ascending
scale can be played within the default domain of its channel, whatever the order of the commands.
Each reading plays some note of the scale: the first one from the lower end of the domain downwards,
the last one from its upper end upwards. -/
theorem notes_playable {text : String} {parsed : Parsed} {commands : List Command}
    {declaration : Declaration} (hparse : parse text = .ok parsed)
    (hcommands : Command.parse text.toList = .ok commands)
    (hlast : ((Progress.declared commands).filter (·.target = .note)).getLast? = some declaration)
    (hwindow : declaration.window = none) (hascending : parsed.config.validNotes.Ascending)
    (hnotes : parsed.config.validNotes.notes ≠ []) :
    let config := parsed.config
    let notes := config.validNotes.notes
    let channel := declaration.input
    let domain := channel.defaultDomain
    config.noteMapping? = some (declaration.mapping config.validNotes) ∧
      (∀ note ∈ notes, ∃ reading, domain.1 ≤ channel.raw reading ∧
        channel.raw reading ≤ domain.2 ∧ config.mappedNote reading = .ok note) ∧
      (∀ reading, ∃ note ∈ notes, config.mappedNote reading = .ok note) ∧
      (∀ reading, channel.raw reading ≤ domain.1 →
        config.mappedNote reading = .ok (notes.head hnotes)) ∧
      ∀ reading, domain.2 ≤ channel.raw reading →
        config.mappedNote reading = .ok (notes.getLast hnotes) := by
  intro config notes channel domain
  obtain rfl : parsed = ⟨ofCommands commands, warning? commands⟩ := by
    rw [parse, hcommands] at hparse
    exact (Except.ok.inj hparse).symm
  have hmapping : config.noteMapping? = some (declaration.mapping config.validNotes) := by
    rw [noteMapping?_ofCommands, hlast, Option.map_some]
  have htarget : declaration.target = .note := by
    simpa using (List.mem_filter.mp (List.mem_of_getLast? hlast)).2
  have hspans : config.Spans (declaration.mapping config.validNotes) :=
    spans_mapping ⟨hwindow, htarget⟩
  have hmapped (reading : Reading) : config.mappedNote reading =
      config.validNotes.quantize ((declaration.mapping config.validNotes).value reading) := by
    rw [mappedNote, hmapping]
  have hvalue (reading : Reading) : (declaration.mapping config.validNotes).value reading = _ :=
    value_mapping hwindow reading
  have hordered := (declaration.mapping config.validNotes).ordered
  generalize declaration.mapping config.validNotes = mapping at *
  obtain ⟨hfirst, hfinal⟩ := hspans.ends hascending hnotes
  have hhighest : mapping.toHi ≤ 127 := hspans.toHi_le hascending hnotes
  obtain ⟨-, -, hlo, -⟩ := channel.value_defaultDomain
  have hextent := channel.isFinite_extent
  have hwide := channel.wide_defaultDomain
  refine ⟨hmapping, fun note hnote => ?_, fun reading => ?_, fun reading hlow => ?_,
    fun reading hhigh => ?_⟩
  · obtain ⟨hle, hge⟩ := hspans.le_of_mem hascending hnote
    obtain ⟨reading, hlow, hhigh, hremap⟩ :=
      channel.exists_remap hle hge (by omega) (by omega)
    refine ⟨reading, hlow, hhigh, ?_⟩
    rw [hmapped, hvalue, hremap]
    exact NoteTable.quantize_of_mem hascending hnote
  · obtain ⟨note, hnote⟩ := NoteTable.exists_quantize hnotes (mapping.value reading)
    exact ⟨note, NoteTable.mem_of_quantize hnote, (hmapped reading).trans hnote⟩
  · rw [hmapped, hvalue, Remap.remap_of_le (by omega) (by omega) hordered hlo hextent hwide hlow,
      hfirst]
    exact NoteTable.quantize_of_mem hascending (List.head_mem hnotes)
  · rw [hmapped, hvalue, Remap.remap_of_ge (by omega) (by omega) hordered hlo hextent hwide hhigh,
      hfinal]
    exact NoteTable.quantize_of_mem hascending (List.getLast_mem hnotes)

/-- A note mapping in front of the scale that it spans. -/
theorem notes_playable_of_early_mapping :
    let text := "MAP jx- note ROOT D OCTAVES 3 3 SCALE 0 7"
    let declaration : Declaration :=
      { input := .joystick .x (some .negative), window := none, target := .note, ordered := nofun }
    let commands : List Command := [.map declaration, .root .d,
      .octaves ⟨.octave, 28, 3⟩ ⟨.octave, 30, 3⟩, .scale [⟨.interval, 38, 0⟩, ⟨.interval, 40, 7⟩]]
    ∃ parsed, parse text = .ok parsed ∧ Command.parse text.toList = .ok commands ∧
      ((Progress.declared commands).filter (·.target = .note)).getLast? = some declaration ∧
      declaration.window = none ∧
      parsed.config.validNotes.Ascending ∧ parsed.config.validNotes.notes = [62, 69] ∧
      (∃ reading, 0 ≤ (-reading.joyX).max 0 ∧ (-reading.joyX).max 0 ≤ 1 ∧
        parsed.config.mappedNote reading = .ok 69) ∧
      parsed.config.mappedNote { joyX := 0.5 } = .ok 62 := by
  intro text declaration commands
  have hcommands : Command.parse text.toList = .ok commands := by
    decide +kernel
  have hparse : parse text = .ok ⟨ofCommands commands, warning? commands⟩ := by
    rw [parse, hcommands]
    rfl
  have hlast : ((Progress.declared commands).filter (·.target = .note)).getLast? =
      some declaration := rfl
  have hvalid : (ofCommands commands).validNotes.notes = [62, 69] := by
    decide +kernel
  have hascending : (ofCommands commands).validNotes.Ascending := by
    rw [NoteTable.Ascending, hvalid]
    decide
  have hnotes : (ofCommands commands).validNotes.notes ≠ [] := by
    rw [hvalid]
    exact List.cons_ne_nil _ _
  obtain ⟨-, hplayed, -, hfirst, -⟩ :=
    notes_playable hparse hcommands hlast rfl hascending hnotes
  have hlow : Input.raw (.joystick .x (some .negative)) { joyX := 0.5 } ≤ 0 := by
    decide +kernel
  have hmapped := hfirst _ hlow
  refine ⟨_, hparse, hcommands, hlast, rfl, hascending, hvalid, hplayed 69 ?_, hmapped.trans ?_⟩
  · rw [hvalid]
    decide
  · simp only [hvalid, List.head_cons]

end Config

end MotionMidi
