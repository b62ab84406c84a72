import MotionMidi.Proofs.Config.Words

/-!
# Configurations read back

The written form of a configuration that was read describes the same configuration, and nothing in
it has to be brought into range.

The words are read back wherever they stand: tokens are known by their characters only (`Spells`),
so the places of the literals stay open.

Main statement: `Config.parse_text`.
-/

namespace MotionMidi

@[simp] theorem Numeral.integer?_text (n : Nat) : integer? (text n).toList = some (n : Int) := by
  have hsign := splitSign_signed false (write_ne_nil n) (all_isDigit_write n) []
  rw [if_neg Bool.false_ne_true, List.append_nil] at hsign
  have hdigits : write n ≠ [] ∧ (write n).all Char.isDigit = true :=
    ⟨write_ne_nil n, all_isDigit_write n⟩
  rw [text, String.toList_ofList, integer?, hsign]
  dsimp only
  rw [if_pos hdigits, if_neg Bool.false_ne_true, value_write]

/-! ## Words -/

section Words

variable {token : Token}

theorem Reader.literal?_numeral {n : Nat} (h : token.chars = (Numeral.text n).toList)
    (field : Field) : literal? field token = some ⟨field, token.position, n⟩ := by
  simp [literal?, h]

theorem Binary32.parse?_chars {x : Binary32} (hx : x.isFinite) (h : token.chars = x.text.toList) :
    parse? token.chars = some x := by
  rw [h, parse?_text hx]

theorem Token.isDigit_first {n : Nat} (h : token.chars = (Numeral.text n).toList) :
    token.first.isDigit := by
  have hfirst := token.first_mem
  rw [h, Numeral.text, String.toList_ofList] at hfirst
  exact List.all_eq_true.mp (Numeral.all_isDigit_write n) _ hfirst

/-- Numbers do not start with a letter, so they are not taken for a destination. -/
theorem Token.not_isAlpha_first {x : Binary32} (hx : x.isFinite)
    (h : token.chars = x.text.toList) : token.first.isAlpha = false := by
  have hdigit {c : Char} (hc : c.isDigit) : c.isAlpha = false := by
    -- Both kinds of letters come after the digits.
    have hnine := (Char.isDigit_iff_toNat.mp hc).2
    refine Bool.eq_false_iff.mpr fun halpha => ?_
    rcases Bool.or_eq_true_iff.mp halpha with hupper | hlower
    · have hle : 'A'.toNat ≤ c.toNat := (of_decide_eq_true hupper).1
      exact absurd (hle.trans hnine) (by decide)
    · have hle : 'a'.toNat ≤ c.toNat := of_decide_eq_true (Bool.and_eq_true_iff.mp hlower).1
      exact absurd (hle.trans hnine) (by decide)
  obtain - | ⟨negative, magnitude⟩ := x
  · cases hx
  have hfirst := token.first_mem
  rw [h, Binary32.text_of_finite hx] at hfirst
  rcases Decimal.mem_write hfirst with hc | hc | hc
  · exact hdigit hc
  · rw [hc]
    rfl
  · rw [hc]
    rfl

end Words

/-! ## Arguments -/

namespace Command

variable {tokens : List Token}

/-- The intervals of a scale. -/
theorem spelled_scale {intervals : List Nat} (hin : ∀ n ∈ intervals, Field.interval.Admits n)
    (hlength : intervals.length ≤ maxScaleNotes) (h : Spells (intervals.map Numeral.text) tokens) :
    ∃ literals, Spelled 'S' tokens (.scale literals) ∧ literals.map Literal.clamped = intervals ∧
      ∀ literal ∈ literals, literal.InRange := by
  have hread : ∃ literals,
      List.Forall₂ (Reader.literal? .interval · = some ·) tokens literals ∧
        (∀ token ∈ tokens, token.first.isDigit) ∧ tokens.length = intervals.length ∧
        literals.map Literal.clamped = intervals ∧ ∀ literal ∈ literals, literal.InRange := by
    clear hlength
    induction intervals generalizing tokens with
    | nil =>
      rw [h.eq_nil]
      exact ⟨[], .nil, nofun, rfl, rfl, nofun⟩
    | cons n intervals ih =>
      obtain ⟨token, rest, rfl, hchars, hrest⟩ := h.cons
      rw [List.forall_mem_cons] at hin
      obtain ⟨literals, hread, hdigits, hlength, hclamped, hrange⟩ := ih hin.2 hrest
      refine ⟨⟨.interval, token.position, n⟩ :: literals, ?_, ?_, ?_, ?_, ?_⟩
      · exact .cons (Reader.literal?_numeral hchars .interval) hread
      · rw [List.forall_mem_cons]
        exact ⟨Token.isDigit_first hchars, hdigits⟩
      · rw [List.length_cons, List.length_cons, hlength]
      · rw [List.map_cons, hclamped, hin.1.clamped]
      · rw [List.forall_mem_cons]
        exact ⟨hin.1.inRange _, hrange⟩
  obtain ⟨literals, hread, hdigits, hcount, hclamped, hrange⟩ := hread
  exact ⟨literals, .scale hread hdigits (hcount ▸ hlength), hclamped, hrange⟩

theorem spelled_target {destination : Destination}
    (hw : ∀ controller, destination = .controlChange controller →
      Field.controller.Admits controller)
    (h : Spells destination.words tokens) :
    ∃ target, Target.Spelled tokens target ∧ target.destination = destination ∧
      ∀ controller, target = .controlChange controller → controller.InRange := by
  cases destination with
  | controlChange controller =>
    obtain ⟨name, tokens, rfl, hname, h⟩ := h.cons
    obtain ⟨token, tokens, rfl, hchars, h⟩ := h.cons
    rw [h.eq_nil]
    have hadmits := hw controller rfl
    refine ⟨.controlChange ⟨.controller, token.position, controller⟩,
      .controlChange (by rw [Token.first_of_chars hname]; rfl)
        (Reader.literal?_numeral hchars .controller), ?_, ?_⟩
    · rw [Target.destination, hadmits.clamped]
    · rintro _ ⟨⟩
      exact hadmits.inRange _
  | pitchBend =>
    obtain ⟨name, tokens, rfl, hname, h⟩ := h.cons
    rw [h.eq_nil]
    exact ⟨.pitchBend, .pitchBend (by rw [Token.first_of_chars hname]; rfl), rfl, nofun⟩
  | note =>
    obtain ⟨name, tokens, rfl, hname, h⟩ := h.cons
    rw [h.eq_nil]
    exact ⟨.note, .note (by rw [Token.first_of_chars hname]; rfl), rfl, nofun⟩

/-- The arguments of `MAP`. -/
theorem spelled_map {mapping : Mapping} (hw : mapping.Writable)
    (h : Spells mapping.words tokens) :
    ∃ declaration, Spelled 'M' tokens (.map declaration) ∧
      (∀ notes, declaration.mapping notes = mapping) ∧
      ∀ literal ∈ (Command.map declaration).literals, literal.InRange := by
  obtain ⟨t₀, tokens, rfl, h₀, h⟩ := h.cons
  obtain ⟨t₁, tokens, rfl, h₁, h⟩ := h.cons
  obtain ⟨t₂, tokens, rfl, h₂, h⟩ := h.cons
  obtain ⟨t₃, tokens, rfl, h₃, h⟩ := h.cons
  obtain ⟨t₄, tokens, rfl, h₄, h⟩ := h.cons
  obtain ⟨target, htarget, hdestination, hcontroller⟩ := spelled_target hw.controller h
  have hinput : Input.parse? t₀.chars = some mapping.input := by
    rw [h₀, Input.parse?_mnemonic]
  let window : Window := ⟨mapping.fromLo, mapping.fromHi, ⟨.output, t₃.position, mapping.toLo⟩,
    ⟨.output, t₄.position, mapping.toHi⟩⟩
  have hwindow : Window.Spelled [t₁, t₂, t₃, t₄] (some window) :=
    .present (Token.not_isAlpha_first hw.fromLo h₁) (Binary32.parse?_chars hw.fromLo h₁)
      (Binary32.parse?_chars hw.fromHi h₂) (Reader.literal?_numeral h₃ .output)
      (Reader.literal?_numeral h₄ .output)
  have htoLo : window.toLo.clamped = mapping.toLo := hw.toLo.clamped _
  have htoHi : window.toHi.clamped = mapping.toHi := hw.toHi.clamped _
  have hordered : window.Ordered := by
    rw [Window.Ordered, htoLo, htoHi]
    exact mapping.ordered
  let declaration : Declaration :=
    ⟨mapping.input, some window, target, by simpa using hordered⟩
  refine ⟨declaration, @Spelled.map _ _ _ declaration hinput hwindow htarget, ?_, ?_⟩
  · intro notes
    obtain ⟨input, fromLo, fromHi, toLo, toHi, destination, ordered⟩ := mapping
    simp only [declaration, Declaration.mapping, htoLo, htoHi, hdestination]
    rfl
  · intro literal hliteral
    rcases List.mem_append.mp hliteral with hbound | hnumber
    · rcases List.mem_pair.mp hbound with rfl | rfl
      · exact hw.toLo.inRange _
      · exact hw.toHi.inRange _
    · cases target with
      | controlChange controller =>
        rw [List.mem_singleton.mp hnumber]
        exact hcontroller controller rfl
      | pitchBend => cases hnumber
      | note => cases hnumber

end Command

/-! ## Texts -/

namespace Composed

open Command

variable {name : Token} {arguments rest : List Token} {command : Command} {commands : List Command}

/-- A command in front of some others. -/
theorem exists_cons {c : Char} {chars : List Char} (hname : name.chars = c :: chars)
    (h : Spelled c arguments command) (hends : Ends c rest)
    (hrest : ∃ sentences, Composed rest sentences ∧ sentences.map Sentence.command = commands) :
    ∃ sentences, Composed (name :: (arguments ++ rest)) sentences ∧
      sentences.map Sentence.command = command :: commands := by
  obtain ⟨sentences, hcomposed, rfl⟩ := hrest
  have hfirst := Token.first_of_chars hname
  rw [← hfirst] at h hends
  exact ⟨⟨name, arguments, command, h⟩ :: sentences,
    @Composed.sentence ⟨name, arguments, command, h⟩ _ _ hends hcomposed, rfl⟩

/-- The mappings of a configuration, up to the end of its text. -/
theorem of_mappings {mappings : List Mapping} (hw : ∀ mapping ∈ mappings, mapping.Writable)
    {tokens : List Token} (h : Spells (mappings.flatMap ("MAP" :: ·.words) ++ ["END."]) tokens) :
    ∃ declarations : List Declaration,
      (∃ sentences, Composed tokens sentences ∧
        sentences.map Sentence.command = declarations.map Command.map ++ [.finish]) ∧
      (∀ notes, declarations.map (Declaration.mapping notes) = mappings) ∧
      ∀ declaration ∈ declarations, ∀ literal ∈ (Command.map declaration).literals,
        literal.InRange := by
  induction mappings generalizing tokens with
  | nil =>
    obtain ⟨name, tokens, rfl, hname, h⟩ := h.cons
    rw [h.eq_nil]
    exact ⟨[], exists_cons hname .finish (.of_ne (by decide) _) ⟨[], .done, rfl⟩, fun _ => rfl,
      by simp⟩
  | cons mapping mappings ih =>
    rw [List.flatMap_cons, List.cons_append, List.cons_append, List.append_assoc] at h
    obtain ⟨name, tokens, rfl, hname, h⟩ := h.cons
    obtain ⟨front, back, rfl, hfront, hback⟩ := h.append
    rw [List.forall_mem_cons] at hw
    obtain ⟨declaration, hspelled, hmapping, hrange⟩ := spelled_map hw.1 hfront
    obtain ⟨declarations, hmore, hmappings, hranges⟩ := ih hw.2 hback
    refine ⟨declaration :: declarations,
      exists_cons hname hspelled (.of_ne (by decide) _) hmore, ?_, ?_⟩
    · intro notes
      rw [List.map_cons, hmapping, hmappings]
    · rw [List.forall_mem_cons]
      exact ⟨hrange, hranges⟩

end Composed

namespace Config

@[simp] theorem foldl_set_map (config : Config) (declarations : List Declaration) :
    (declarations.map Command.map).foldl set config = config := by
  induction declarations with
  | nil => rfl
  | cons declaration declarations ih => exact ih

@[simp] theorem filterMap_declaration?_map (declarations : List Declaration) :
    (declarations.map Command.map).filterMap Command.declaration? = declarations := by
  rw [List.filterMap_map]
  exact List.filterMap_some

theorem warning?_eq_none {commands : List Command}
    (h : ∀ command ∈ commands, ∀ literal ∈ command.literals, literal.InRange) :
    warning? commands = none := by
  have hfind : (commands.flatMap Command.literals).find? (¬ ·.InRange) = none := by
    rw [List.find?_eq_none]
    intro literal hliteral
    obtain ⟨command, hcommand, hliteral⟩ := List.mem_flatMap.mp hliteral
    simpa using h command hcommand literal hliteral
  rw [warning?, hfind]
  rfl

/-- The words of a configuration are sentences that describe it. -/
theorem composed_of_words {config : Config} (hw : config.Writable) {tokens : List Token}
    (h : Spells config.words tokens) :
    ∃ sentences commands, Composed tokens sentences ∧ sentences.map Sentence.command = commands ∧
      (commands.filterMap Command.declaration?).length ≤ maxMappings ∧
      ofCommands commands = config ∧ warning? commands = none := by
  simp only [words, List.cons_append, List.nil_append, List.append_assoc] at h
  -- The tokens of the settings, one by one. Those of the mappings stay together.
  obtain ⟨chan, tokens, rfl, hchan, h⟩ := h.cons
  obtain ⟨index, tokens, rfl, hindex, h⟩ := h.cons
  obtain ⟨root, tokens, rfl, hroot, h⟩ := h.cons
  obtain ⟨key, tokens, rfl, hkey, h⟩ := h.cons
  obtain ⟨scale, tokens, rfl, hscale, h⟩ := h.cons
  obtain ⟨numerals, tokens, rfl, hnumerals, h⟩ := h.append
  obtain ⟨octaves, tokens, rfl, hoctaves, h⟩ := h.cons
  obtain ⟨first, tokens, rfl, hfirst, h⟩ := h.cons
  obtain ⟨last, tokens, rfl, hlast, h⟩ := h.cons
  obtain ⟨bpm, tokens, rfl, hbpm, h⟩ := h.cons
  obtain ⟨tempo, tokens, rfl, htempo, h⟩ := h.cons
  obtain ⟨div, tokens, rfl, hdiv, h⟩ := h.cons
  obtain ⟨beats, tokens, rfl, hbeats, h⟩ := h.cons
  have hpitch : Key.parse? key.chars = some config.root := by
    rw [hkey, Key.parse?_name]
  -- The list of intervals ends at the next keyword.
  have hends : Command.Ends 'S' (octaves :: first :: last :: bpm :: tempo :: div :: beats ::
      tokens) := by
    rintro - _ ⟨⟩
    rw [Token.first_of_chars hoctaves]
    rfl
  obtain ⟨literals, hintervals, hclamped, hrange⟩ :=
    Command.spelled_scale hw.intervals hw.scale hnumerals
  obtain ⟨declarations, hcomposed, hmeaning, hranges⟩ := Composed.of_mappings hw.mapping h
  have hother {letter : Char} (hletter : letter ≠ 'S') {rest : List Token} :
      Command.Ends letter rest :=
    .of_ne hletter rest
  obtain ⟨sentences, hcomposed, hcommands⟩ :=
    Composed.exists_cons hchan (.channel (Reader.literal?_numeral hindex .channel))
      (hother (by decide)) <|
    Composed.exists_cons hroot (.root hpitch) (hother (by decide)) <|
    Composed.exists_cons hscale hintervals hends <|
    Composed.exists_cons hoctaves (.octaves (Reader.literal?_numeral hfirst .octave)
      (Reader.literal?_numeral hlast .octave)) (hother (by decide)) <|
    Composed.exists_cons hbpm (.tempo (Reader.literal?_numeral htempo .tempo))
      (hother (by decide)) <|
    Composed.exists_cons hdiv (.division (Binary32.parse?_chars hw.division hbeats))
      (hother (by decide)) hcomposed
  let settings : List Command := [.channel ⟨.channel, index.position, config.channel⟩,
    .root config.root, .scale literals,
    .octaves ⟨.octave, first.position, config.firstOctave⟩
      ⟨.octave, last.position, config.lastOctave⟩,
    .tempo ⟨.tempo, tempo.position, config.tempo⟩, .division config.division]
  have hdeclarations : (settings ++ (declarations.map Command.map ++ [Command.finish])).filterMap
      Command.declaration? = declarations := by
    rw [List.filterMap_append, List.filterMap_append, filterMap_declaration?_map]
    exact List.append_nil _
  refine ⟨sentences, settings ++ (declarations.map .map ++ [.finish]), hcomposed, hcommands,
    ?_, ?_, ?_⟩
  · rw [hdeclarations, ← List.length_map (Declaration.mapping config.validNotes), hmeaning]
    exact hw.mappings
  · have hsettings : Config.settings (settings ++ (declarations.map .map ++ [.finish])) =
        { config with mappings := [] } := by
      rw [Config.settings, List.foldl_append, List.foldl_append, foldl_set_map]
      simp only [settings, List.foldl_cons, List.foldl_nil, set, hclamped,
        hw.channel.clamped, hw.firstOctave.clamped, hw.lastOctave.clamped, hw.tempo.clamped]
    rw [ofCommands, hsettings, hdeclarations, hmeaning]
  · apply warning?_eq_none
    rw [List.forall_mem_append, List.forall_mem_append, List.forall_mem_map]
    refine ⟨?_, hranges, ?_⟩
    · simp only [settings, List.forall_mem_cons, Command.literals, List.not_mem_nil,
        false_implies, implies_true, and_true, true_and]
      exact ⟨hw.channel.inRange _, hrange, ⟨hw.firstOctave.inRange _, hw.lastOctave.inRange _⟩,
        hw.tempo.inRange _⟩
    · simp [Command.literals]

/-- Reading the written form of a configuration that was read. -/
theorem parse_text {text : String} {parsed : Parsed} (h : parse text = .ok parsed) :
    parse parsed.config.text = .ok { config := parsed.config, warning := none } := by
  have hw : parsed.config.Writable := writable_of_parse h
  have hspells := Token.spells_scan hw.isWord_words
  obtain ⟨sentences, _, hcomposed, rfl, hroom, hconfig, hwarning⟩ := composed_of_words hw hspells
  refine parse_eq_ok_iff.mpr ⟨sentences, hcomposed, hroom, ?_⟩
  rw [hconfig, hwarning]

/-- A text with a comment, integers out of range, and a mapping without a window. -/
theorem parse_text_clamped :
    ∃ parsed, parse "CHAN 20 # none\nSCALE 0 300 DIV -0.1 MAP jx- note" = .ok parsed ∧
      parsed.warning = some (.outOfRange 5) ∧
      parse parsed.config.text = .ok { config := parsed.config, warning := none } := by
  have hwarning : (parse "CHAN 20 # none\nSCALE 0 300 DIV -0.1 MAP jx- note").map (·.warning) =
      .ok (some (.outOfRange 5)) := by
    decide +kernel
  match hparse : parse "CHAN 20 # none\nSCALE 0 300 DIV -0.1 MAP jx- note" with
  | .error error =>
    rw [hparse] at hwarning
    cases hwarning
  | .ok parsed =>
    rw [hparse] at hwarning
    exact ⟨parsed, rfl, Except.ok.inj hwarning, parse_text hparse⟩

end Config

end MotionMidi
