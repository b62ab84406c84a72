import MotionMidi.Config.Text
import MotionMidi.Proofs.Config.Sentences
import MotionMidi.Proofs.Pitch.NoteTable

/-!
# What accepted texts describe

Whatever text is read, every setting that comes out of it lies in the range of its field, every
number is finite, and the lists are no longer than they may be.

## Main definitions

- `Command.Typed` — the arguments of a command were read for their places
- `Config.Writable` — every part of a configuration has a written form that can be read

Main statement: `Config.writable_of_parse`.
-/

namespace MotionMidi

/-! ## Fields -/

/-- The values that a field admits. -/
def Field.Admits (field : Field) (n : Nat) : Prop :=
  field.lowest ≤ n ∧ n ≤ field.highest

instance (field : Field) (n : Nat) : Decidable (field.Admits n) :=
  inferInstanceAs (Decidable (_ ∧ _))

theorem Field.lowest_le_highest (field : Field) : field.lowest ≤ field.highest := by
  cases field <;> decide

theorem Literal.admits_clamped (literal : Literal) : literal.field.Admits literal.clamped := by
  have := literal.field.lowest_le_highest
  unfold Field.Admits Literal.clamped
  omega

/-- What a field admits is left as it is. -/
theorem Field.Admits.clamped {field : Field} {n : Nat} (h : field.Admits n) (position : Nat) :
    (Literal.mk field position n).clamped = n := by
  obtain ⟨hlow, hhigh⟩ := h
  simp only [Literal.clamped, Int.toNat_natCast]
  omega

theorem Field.Admits.inRange {field : Field} {n : Nat} (h : field.Admits n) (position : Nat) :
    (Literal.mk field position n).InRange := by
  obtain ⟨hlow, hhigh⟩ := h
  simp only [Literal.InRange]
  omega

/-! ## Commands -/

/-- The bounds of the output range were read as such, and the domain is finite. -/
structure Window.Typed (window : Window) : Prop where
  fromLo : window.fromLo.isFinite
  fromHi : window.fromHi.isFinite
  toLo : window.toLo.field = .output
  toHi : window.toHi.field = .output

/-- The number of a controller was read as such. -/
def Target.Typed (target : Target) : Prop :=
  ∀ controller, target = .controlChange controller → controller.field = .controller

/-- The arguments of a mapping were read for their places. -/
structure Declaration.Typed (declaration : Declaration) : Prop where
  window : ∀ window ∈ declaration.window, window.Typed
  target : declaration.target.Typed

/-- The arguments of a command were read for their places. -/
def Command.Typed : Command → Prop
  | .channel index => index.field = .channel
  | .root _ => True
  | .scale intervals =>
    intervals.length ≤ maxScaleNotes ∧ ∀ interval ∈ intervals, interval.field = .interval
  | .octaves first last => first.field = .octave ∧ last.field = .octave
  | .tempo bpm => bpm.field = .tempo
  | .division beats => beats.isFinite
  | .map declaration => declaration.Typed
  | .finish => True

/-- What is read from a word that is an integer. -/
theorem Reader.field_of_literal? {field : Field} {token : Token} {literal : Literal}
    (h : literal? field token = some literal) : literal.field = field := by
  obtain ⟨value, -, rfl⟩ := Option.map_eq_some_iff.mp h
  rfl

theorem Binary32.isFinite_of_parse? {chars : List Char} {x : Binary32}
    (h : parse? chars = some x) : x.isFinite :=
  (Option.filter_eq_some_iff.mp h).2

open Reader Binary32 in
theorem Window.Spelled.typed {words : List Token} {window? : Option Window}
    (h : Window.Spelled words window?) : ∀ window ∈ window?, window.Typed := by
  cases h with
  | absent => exact nofun
  | present other fromLo fromHi toLo toHi =>
    rintro _ ⟨⟩
    exact ⟨isFinite_of_parse? fromLo, isFinite_of_parse? fromHi, field_of_literal? toLo,
      field_of_literal? toHi⟩

theorem Target.Spelled.typed {words : List Token} {target : Target}
    (h : Target.Spelled words target) : target.Typed := by
  cases h with
  | controlChange letter integer =>
    rintro _ ⟨⟩
    exact Reader.field_of_literal? integer
  | pitchBend letter => exact nofun
  | note letter => exact nofun

open Reader in
/-- A command comes with its own arguments. -/
theorem Command.Spelled.typed {letter : Char} {words : List Token} {command : Command}
    (h : Command.Spelled letter words command) : command.Typed := by
  cases h with
  | channel integer => exact field_of_literal? integer
  | root pitch => exact trivial
  | scale integers digits few =>
    have hfields : List.Forall₂ (fun literal token => literal.field = .interval ∧
        literal? .interval token = some literal) _ words :=
      integers.flip.imp fun _ _ hread => ⟨field_of_literal? hread, hread⟩
    exact ⟨integers.length_eq ▸ few, ((List.forall₂_and_left _ _).mp hfields).1⟩
  | octaves integer integer' => exact ⟨field_of_literal? integer, field_of_literal? integer'⟩
  | tempo integer => exact field_of_literal? integer
  | division number => exact Binary32.isFinite_of_parse? number
  | map input window target => exact ⟨window.typed, target.typed⟩
  | finish => exact trivial

theorem Sentence.forall_typed (sentences : List Sentence) :
    ∀ command ∈ sentences.map Sentence.command, command.Typed := by
  rw [List.forall_mem_map]
  exact fun sentence _ => sentence.spelled.typed

/-! ## Configurations -/

/-- The domain is finite, and every integer lies in the range of its field. -/
structure Mapping.Writable (mapping : Mapping) : Prop where
  fromLo : mapping.fromLo.isFinite
  fromHi : mapping.fromHi.isFinite
  toLo : Field.output.Admits mapping.toLo
  toHi : Field.output.Admits mapping.toHi
  controller : ∀ controller, mapping.destination = .controlChange controller →
    Field.controller.Admits controller

/-- The division is finite, every integer lies in the range of its field, and the lists are no
longer than they may be. -/
structure Config.Writable (config : Config) : Prop where
  channel : Field.channel.Admits config.channel
  intervals : ∀ interval ∈ config.intervals, Field.interval.Admits interval
  scale : config.intervals.length ≤ maxScaleNotes
  firstOctave : Field.octave.Admits config.firstOctave
  lastOctave : Field.octave.Admits config.lastOctave
  tempo : Field.tempo.Admits config.tempo
  division : config.division.isFinite
  mapping : ∀ mapping ∈ config.mappings, mapping.Writable
  mappings : config.mappings.length ≤ maxMappings

theorem Target.Typed.writable {target : Target} (h : target.Typed) {controller : Nat}
    (hcontroller : target.destination = .controlChange controller) :
    Field.controller.Admits controller := by
  cases target with
  | controlChange literal =>
    cases hcontroller
    rw [← h literal rfl]
    exact literal.admits_clamped
  | pitchBend => cases hcontroller
  | note => cases hcontroller

/-- Ranges that are left out are those of the output. -/
theorem NoteTable.Playable.admits_defaultRange {notes : NoteTable} (h : notes.Playable)
    (destination : Destination) :
    Field.output.Admits (notes.defaultRange destination).1 ∧
      Field.output.Admits (notes.defaultRange destination).2 := by
  have hdefault (destination : Destination) :
      Field.output.Admits destination.defaultRange.1 ∧
        Field.output.Admits destination.defaultRange.2 := by
    cases destination <;> simp [Destination.defaultRange, Field.Admits, Field.lowest,
      Field.highest, Midi.highestBend]
  have hnote {note : Nat} (hnote : note ∈ notes.notes) : Field.output.Admits note :=
    ⟨Nat.zero_le _, Nat.le_trans (h note hnote) (by decide)⟩
  unfold NoteTable.defaultRange
  split
  case h_1 lowest highest hbounds =>
    obtain ⟨hlowest, hhighest⟩ := mem_of_bounds? hbounds
    split
    · exact ⟨hnote hlowest, hnote hhighest⟩
    · exact hdefault _
  case h_2 => exact hdefault _

theorem Input.isFinite_defaultDomain (input : Input) :
    input.defaultDomain.1.isFinite ∧ input.defaultDomain.2.isFinite := by
  have hunit : (-1 : Binary32).isFinite ∧ (0 : Binary32).isFinite ∧ (1 : Binary32).isFinite := by
    decide +kernel
  unfold Input.defaultDomain
  split
  · exact hunit.2
  · exact ⟨hunit.1, hunit.2.2⟩

theorem Declaration.Typed.writable {declaration : Declaration} (h : declaration.Typed)
    {notes : NoteTable} (hnotes : notes.Playable) : (declaration.mapping notes).Writable := by
  obtain ⟨input, window?, target, ordered⟩ := declaration
  cases window? with
  | none =>
    obtain ⟨hlo, hhi⟩ := input.isFinite_defaultDomain
    obtain ⟨hlowest, hhighest⟩ := hnotes.admits_defaultRange target.destination
    exact ⟨hlo, hhi, hlowest, hhighest, fun _ => h.target.writable⟩
  | some window =>
    obtain ⟨hlo, hhi, htoLo, htoHi⟩ := h.window window rfl
    refine ⟨hlo, hhi, ?_, ?_, fun _ => h.target.writable⟩
    · rw [← htoLo]
      exact window.toLo.admits_clamped
    · rw [← htoHi]
      exact window.toHi.admits_clamped

namespace Config

/-- What is set when no command was read. -/
theorem writable_default : Writable {} := by
  refine ⟨?_, ?_, ?_, ?_, ?_, ?_, ?_, ?_, ?_⟩
  · decide
  · decide
  · decide
  · decide
  · decide
  · decide
  · decide +kernel
  · simp
  · simp

variable {config : Config}

theorem Writable.set (h : config.Writable) {command : Command} (hcommand : command.Typed) :
    (config.set command).Writable := by
  have hclamped {literal : Literal} {field : Field} (hfield : literal.field = field) :
      field.Admits literal.clamped := by
    subst hfield
    exact literal.admits_clamped
  cases command with
  | channel index => exact { h with channel := hclamped hcommand }
  | root key => exact { h with }
  | scale intervals =>
    obtain ⟨hlength, hfields⟩ := hcommand
    refine { h with intervals := ?_, scale := ?_ }
    · intro interval hinterval
      obtain ⟨literal, hliteral, rfl⟩ := List.mem_map.mp hinterval
      exact hclamped (hfields literal hliteral)
    · exact Nat.le_trans (Nat.le_of_eq (List.length_map _)) hlength
  | octaves first last =>
    exact { h with firstOctave := hclamped hcommand.1, lastOctave := hclamped hcommand.2 }
  | tempo bpm => exact { h with tempo := hclamped hcommand }
  | division beats => exact { h with division := hcommand }
  | map declaration => exact h
  | finish => exact h

theorem Writable.foldl (h : config.Writable) {commands : List Command}
    (hcommands : ∀ command ∈ commands, command.Typed) :
    (commands.foldl Config.set config).Writable := by
  induction commands generalizing config with
  | nil => exact h
  | cons command commands ih =>
    exact ih (h.set (hcommands command (List.mem_cons_self ..)))
      fun other hother => hcommands other (List.mem_cons_of_mem _ hother)

/-- Every part of a configuration that was read can be written. -/
theorem writable_of_parse {text : String} {parsed : Parsed} (h : parse text = .ok parsed) :
    parsed.config.Writable := by
  obtain ⟨sentences, -, hcount, rfl⟩ := parse_eq_ok_iff.mp h
  have htyped := Sentence.forall_typed sentences
  generalize sentences.map Sentence.command = commands at hcount htyped
  have hsettings : (settings commands).Writable := writable_default.foldl htyped
  refine { hsettings with mapping := ?_, mappings := ?_ }
  · intro mapping hmapping
    obtain ⟨declaration, hdeclaration, rfl⟩ := List.mem_map.mp hmapping
    obtain ⟨command, hcommand, hsome⟩ := List.mem_filterMap.mp hdeclaration
    -- Only a command that declares a mapping has a declaration.
    have htyped : declaration.Typed := by
      cases command <;> cases hsome
      exact htyped _ hcommand
    have hplayable : (settings commands).validNotes.Playable :=
      NoteTable.playable_build _ _ _ _
    exact htyped.writable hplayable
  · show (ofCommands commands).mappings.length ≤ maxMappings
    have hlength : (ofCommands commands).mappings.length =
        (commands.filterMap Command.declaration?).length := List.length_map _
    omega

end Config

end MotionMidi
