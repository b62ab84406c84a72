import MotionMidi.Proofs.Config.Acceptance
import MotionMidi.Proofs.Config.Mending

/-!
# Integers out of range

An integer that lies outside the range of its field stands for the nearest one that does not, and
the warning tells of the first one in the text.

## Main definitions

- `Numeral.saturated`, `Field.convert`, `Field.narrow` — an integer brought into range step by step
- `Config.Clamps` — what becomes of the integers of a text

Main statements: `Reader.stages_of_literal?`, `Literal.find?_eq_some_iff`, `Config.parse_clamps`.
-/

namespace MotionMidi

open Grammar

/-! ## Stages -/

namespace Numeral

/-- The number that digits stand for, added up in a signed 64-bit integer that stops at its upper
bound. -/
def saturated (digits : List Char) : Int :=
  digits.foldl (fun total c => min (min (10 * total) (2 ^ 63 - 1) + digitValue c) (2 ^ 63 - 1)) 0

theorem saturated_eq (digits : List Char) :
    saturated digits = min (value digits : Int) (2 ^ 63 - 1) := by
  induction digits using List.reverseRecOn with
  | nil => decide
  | append_singleton digits c ih =>
    have hstep : saturated (digits ++ [c]) =
        min (min (10 * saturated digits) (2 ^ 63 - 1) + digitValue c) (2 ^ 63 - 1) := by
      rw [saturated, List.foldl_append]
      rfl
    rw [hstep, ih, value_append_digit]
    omega

/-- The integer that a word stands for, as far as 64 bits hold it. -/
def saturatedInteger (word : List Char) : Int :=
  let (negative, digits) := splitSign word
  if negative then -saturated digits else saturated digits

/-- The nearest integer that adding up digits can come to. -/
def saturate (n : Int) : Int :=
  max (-(2 ^ 63 - 1)) (min n (2 ^ 63 - 1))

theorem saturatedInteger_eq {word : List Char} {n : Int} (h : integer? word = some n) :
    saturatedInteger word = saturate n := by
  unfold integer? at h
  unfold saturatedInteger saturate
  generalize splitSign word = sign at h ⊢
  obtain ⟨negative, digits⟩ := sign
  dsimp only at h ⊢
  split at h
  case isTrue =>
    cases h
    rw [saturated_eq]
    split <;> omega
  case isFalse => cases h

end Numeral

namespace Field

/-- The largest value of the machine integer that is read for a field. -/
def widest : Field → Nat
  | .tempo => 65535
  | .output => 65535
  | _ => 255

/-- The nearest value of the machine integer. -/
def convert (field : Field) (n : Int) : Int :=
  max 0 (min n field.widest)

/-- The nearest value in the range of the field. -/
def narrow (field : Field) (n : Int) : Int :=
  max (field.lowest : Int) (min n field.highest)

end Field

/-- An integer is brought into range in three stages, and it is the nearest value that comes out.
None of them changes anything exactly if the integer lies in range. -/
theorem Literal.stages (literal : Literal) :
    literal.field.narrow (literal.field.convert (Numeral.saturate literal.value)) =
        literal.clamped ∧
      (literal.InRange ↔
        literal.field.convert (Numeral.saturate literal.value) = Numeral.saturate literal.value ∧
          literal.field.narrow (literal.field.convert (Numeral.saturate literal.value)) =
            literal.field.convert (Numeral.saturate literal.value)) := by
  rw [literal.clamped_eq]
  obtain ⟨field, position, value⟩ := literal
  cases field <;>
    simp only [Numeral.saturate, Field.narrow, Field.convert, Field.widest, Field.lowest,
      Field.highest, InRange] <;> omega

/-- So is the integer that a word stands for. -/
theorem Reader.stages_of_literal? {field : Field} {token : Token} {literal : Literal}
    (h : literal? field token = some literal) :
    field.narrow (field.convert (Numeral.saturatedInteger token.chars)) = literal.clamped ∧
      (literal.InRange ↔
        field.convert (Numeral.saturatedInteger token.chars) =
            Numeral.saturatedInteger token.chars ∧
          field.narrow (field.convert (Numeral.saturatedInteger token.chars)) =
            field.convert (Numeral.saturatedInteger token.chars)) := by
  obtain ⟨value, hvalue, rfl⟩ := Option.map_eq_some_iff.mp h
  rw [Numeral.saturatedInteger_eq hvalue]
  exact Literal.stages ⟨field, token.position, value⟩

/-! ## Texts -/

namespace Literal

/-- The first literal out of range is the one in front of which all are in range. -/
theorem find?_eq_some_iff {literals : List Literal}
    (hascending : (literals.map position).Pairwise (· < ·)) {literal : Literal} :
    literals.find? (¬ ·.InRange) = some literal ↔ literal ∈ literals ∧ ¬literal.InRange ∧
      ∀ earlier ∈ literals, earlier.position < literal.position → earlier.InRange := by
  rw [List.pairwise_map] at hascending
  rw [List.find?_eq_some_iff_append]
  constructor
  · rintro ⟨hout, front, back, rfl, hfront⟩
    refine ⟨List.mem_append_right _ (List.mem_cons_self ..), by simpa using hout, ?_⟩
    intro earlier hearlier hlt
    have hback := (List.pairwise_cons.mp (List.pairwise_append.mp hascending).2.1).1
    rcases List.mem_append.mp hearlier with hmem | hmem
    · simpa using hfront earlier hmem
    · rcases List.mem_cons.mp hmem with rfl | hmem
      · exact absurd hlt (Nat.lt_irrefl _)
      · exact absurd hlt (Nat.lt_asymm (hback earlier hmem))
  · rintro ⟨hmem, hout, hearlier⟩
    obtain ⟨front, back, rfl⟩ := List.append_of_mem hmem
    refine ⟨by simpa using hout, front, back, rfl, ?_⟩
    intro other hother
    have hlt := (List.pairwise_append.mp hascending).2.2 other hother literal
      (List.mem_cons_self ..)
    simpa using hearlier other (List.mem_append_left _ hother) hlt

end Literal

namespace Config

/-- What becomes of the integers of a text. -/
structure Clamps (text : String) (parsed : Parsed) (commands : List Command) : Prop where
  /-- Integers are stored as the values that are nearest in the range of their field. -/
  settled : parsed.config.Settled commands
  typed : ∀ command ∈ commands, command.Typed
  nearest : ∀ literal ∈ commands.flatMap Command.literals, ∃ word,
    StandsAt text.toList literal.position word ∧ IsInteger word literal.value ∧
      (literal.clamped : Int) =
        max (literal.field.lowest : Int) (min literal.value literal.field.highest) ∧
      literal.field.narrow (literal.field.convert (Numeral.saturatedInteger word)) =
          literal.clamped ∧
        (literal.InRange ↔
          literal.field.convert (Numeral.saturatedInteger word) = Numeral.saturatedInteger word ∧
            literal.field.narrow (literal.field.convert (Numeral.saturatedInteger word)) =
              literal.field.convert (Numeral.saturatedInteger word))
  /-- The integers are taken in the order of the text. -/
  ascending : ((commands.flatMap Command.literals).map Literal.position).Pairwise (· < ·)
  noWarning : parsed.warning = none ↔
    ∀ literal ∈ commands.flatMap Command.literals, literal.InRange
  warning : ∀ error, parsed.warning = some error ↔
    ∃ literal ∈ commands.flatMap Command.literals, ¬literal.InRange ∧
      error = .outOfRange literal.position ∧
      ∀ earlier ∈ commands.flatMap Command.literals,
        earlier.position < literal.position → earlier.InRange
  mended : parse (mend (commands.flatMap Command.literals) text) =
    .ok { config := parsed.config, warning := none }

/-- Integers out of range are brought into range, and the warning tells of the first one. -/
theorem parse_clamps :
    (∀ {text parsed}, parse text = .ok parsed → ∃ sentences,
      Composed (Token.scan text.toList) sentences ∧
        Clamps text parsed (sentences.map Sentence.command)) ∧
      ∀ text position, parse text ≠ .error (.outOfRange position) := by
  constructor
  · intro text parsed h
    obtain ⟨sentences, hcomposed, hroom, rfl⟩ := parse_eq_ok_iff.mp h
    obtain ⟨roles, hplays, -, hliterals, -⟩ := hcomposed.respell
    have hsublist := Token.sublist_position hplays
    rw [hliterals] at hsublist
    have hascending := (List.pairwise_map.mpr (Token.pairwise_scan text.toList)).sublist hsublist
    refine ⟨sentences, hcomposed, settled_ofCommands _, Sentence.forall_typed _, ?_, hascending,
      ?_, ?_, parse_mend hcomposed hroom⟩
    · intro literal hliteral
      rw [← hliterals] at hliteral
      obtain ⟨token, htoken, hrole⟩ := Token.exists_plays hplays hliteral
      have hread := hrole literal rfl
      exact ⟨token.chars, Token.exists_mem_scan_iff.mp ⟨token, htoken, hrole.position.symm, rfl⟩,
        Reader.isInteger_of_literal? hread, literal.clamped_eq, Reader.stages_of_literal? hread⟩
    · rw [warning?, Option.map_eq_none_iff, List.find?_eq_none]
      simp
    · intro error
      rw [warning?, Option.map_eq_some_iff]
      simp only [Literal.find?_eq_some_iff hascending, and_assoc]
      constructor
      · rintro ⟨literal, hliteral, hout, hearlier, rfl⟩
        exact ⟨literal, hliteral, hout, rfl, hearlier⟩
      · rintro ⟨literal, hliteral, hout, rfl, hearlier⟩
        exact ⟨literal, hliteral, hout, hearlier, rfl⟩
  · intro text position h
    obtain ⟨fault, -, hfault⟩ := parse_eq_error_iff.mp h
    cases fault <;> cases hfault

/-- Integers out of range in every kind of argument, after one that only has leading zeros. -/
theorem parse_clamps_all :
    ∃ parsed, parse "OCTAVES 003 256 SCALE 0 300 BPM 0 CHAN +16 MAP ax 0 1 -5 99999 cc 0128" =
        .ok parsed ∧ parsed.warning = some (.outOfRange 12) ∧
      parse "OCTAVES 003 255 SCALE 0 255 BPM 1 CHAN 15 MAP ax 0 1 0 65535 cc 127" =
        .ok { config := parsed.config, warning := none } := by
  let literals : List Literal := [⟨.octave, 8, 3⟩, ⟨.octave, 12, 256⟩, ⟨.interval, 22, 0⟩,
    ⟨.interval, 24, 300⟩, ⟨.tempo, 32, 0⟩, ⟨.channel, 39, 16⟩, ⟨.output, 54, -5⟩,
    ⟨.output, 57, 99999⟩, ⟨.controller, 66, 128⟩]
  have hliterals : (Command.readAll 0 (Token.scan
      "OCTAVES 003 256 SCALE 0 300 BPM 0 CHAN +16 MAP ax 0 1 -5 99999 cc 0128".toList)).map
        (·.flatMap Command.literals) = .ok literals := by
    decide +kernel
  have hmend : mend literals
      "OCTAVES 003 256 SCALE 0 300 BPM 0 CHAN +16 MAP ax 0 1 -5 99999 cc 0128" =
        "OCTAVES 003 255 SCALE 0 255 BPM 1 CHAN 15 MAP ax 0 1 0 65535 cc 127" := by
    decide +kernel
  obtain ⟨parsed, hparse⟩ : ∃ parsed,
      parse "OCTAVES 003 256 SCALE 0 300 BPM 0 CHAN +16 MAP ax 0 1 -5 99999 cc 0128" =
        .ok parsed := by
    rw [parse, Command.parse]
    cases hread : Command.readAll 0 (Token.scan
        "OCTAVES 003 256 SCALE 0 300 BPM 0 CHAN +16 MAP ax 0 1 -5 99999 cc 0128".toList) with
    | error fault =>
      rw [hread] at hliterals
      cases hliterals
    | ok commands => exact ⟨_, rfl⟩
  obtain ⟨sentences, hcomposed, hclamps⟩ := parse_clamps.1 hparse
  obtain ⟨others, hothers, hroom, -⟩ := parse_eq_ok_iff.mp hparse
  cases hothers.unique hcomposed
  have hread := Composed.readAll_eq_ok_iff.mpr ⟨_, hcomposed, rfl, hroom⟩
  rw [hread] at hliterals
  have hwritten : (sentences.map Sentence.command).flatMap Command.literals = literals :=
    Except.ok.inj hliterals
  refine ⟨parsed, hparse, (hclamps.warning _).mpr ?_, ?_⟩
  · rw [hwritten]
    exact ⟨⟨.octave, 12, 256⟩, by decide, by decide, rfl, by decide⟩
  · rw [← hmend, ← hwritten]
    exact hclamps.mended

end Config

end MotionMidi
