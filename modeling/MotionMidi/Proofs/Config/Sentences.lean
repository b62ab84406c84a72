import MotionMidi.Config.Meaning
import MotionMidi.Proofs.Config.Spellings

/-!
# Sentences

A text that is read without an error is a sequence of sentences, which are command words with their
arguments, and of comments. Reading stops for want of a word exactly if the last command of a text
has too few arguments behind it.

## Main definitions

- `Sentence` — a command word with its arguments, and the command that they spell
- `Composed` — tokens that are those of some sentences, and of comments
- `CutShort` — tokens that end within a command

## Design notes

No mapping is looked at once there is no more room for it, so how many were declared before matters
to a text that is cut short.

Main statements: `Composed.unique`, `Composed.readAll_eq_ok_iff`, `Command.readAll_eq_missing_iff`,
`Config.parse_eq_ok_iff`.
-/

namespace MotionMidi

/-- A command word with its arguments, and the command that they spell. -/
structure Sentence where
  name : Token
  arguments : List Token
  command : Command
  spelled : Command.Spelled name.first arguments command

/-- The tokens are those of some sentences, and of comments between them. -/
inductive Composed : List Token → List Sentence → Prop where
  | done : Composed [] []
  | comment {token : Token} {rest : List Token} {sentences : List Sentence}
      (hash : token.first = '#') (others : Composed (rest.dropWhile (!·.startsLine)) sentences) :
      Composed (token :: rest) sentences
  | sentence {sentence : Sentence} {rest : List Token} {sentences : List Sentence}
      (ends : Command.Ends sentence.name.first rest) (others : Composed rest sentences) :
      Composed (sentence.name :: (sentence.arguments ++ rest)) (sentence :: sentences)

/-- The tokens are those of some sentences and comments, and of a command that is cut short, after
so many mappings. -/
inductive CutShort : Nat → List Token → Prop where
  | comment {declared : Nat} {token : Token} {rest : List Token} (hash : token.first = '#')
      (others : CutShort declared (rest.dropWhile (!·.startsLine))) :
      CutShort declared (token :: rest)
  | sentence {declared : Nat} {sentence : Sentence} {rest : List Token}
      (room : sentence.name.first = 'M' → declared ≠ maxMappings)
      (ends : Command.Ends sentence.name.first rest)
      (others : CutShort (declared + sentence.command.declaration?.toList.length) rest) :
      CutShort declared (sentence.name :: (sentence.arguments ++ rest))
  | command {declared : Nat} {name : Token} {arguments : List Token}
      (room : name.first = 'M' → declared ≠ maxMappings)
      (short : Command.CutShort name.first arguments) : CutShort declared (name :: arguments)

/-! ## Texts -/

namespace Composed

open Command

variable {tokens : List Token} {sentences sentences' : List Sentence}

theorem readAll_ok (h : Composed tokens sentences) {declared : Nat}
    (hroom : declared + ((sentences.map Sentence.command).filterMap declaration?).length ≤
      maxMappings) : readAll declared tokens = .ok (sentences.map Sentence.command) := by
  induction h generalizing declared with
  | done => exact readAll_nil _
  | comment hash others ih =>
    rw [readAll_comment hash]
    exact ih hroom
  | @sentence sentence rest sentences ends others ih =>
    rw [List.map_cons] at hroom ⊢
    -- A mapping takes a place of its own.
    have hcount : declared + sentence.command.declaration?.toList.length +
        ((sentences.map Sentence.command).filterMap declaration?).length ≤ maxMappings := by
      rw [List.filterMap_cons] at hroom
      cases hdeclaration : sentence.command.declaration? <;>
        simp only [hdeclaration, List.length_cons, Option.toList_some, Option.toList_none,
          List.length_nil] at hroom ⊢ <;> omega
    have hfree : sentence.name.first = 'M' → declared ≠ maxMappings := by
      intro hname
      obtain ⟨declaration, hdeclaration⟩ :=
        Option.isSome_iff_exists.mp (sentence.spelled.declaration?_isSome.mpr hname)
      rw [hdeclaration, Option.toList_some, List.length_singleton] at hcount
      omega
    rw [readAll_command sentence.spelled.ne_hash (reader_ok sentence.spelled ends hfree),
      ih hcount]
    rfl

theorem of_readAll {declared : Nat} {commands : List Command}
    (h : readAll declared tokens = .ok commands) (hroom : declared ≤ maxMappings) :
    ∃ sentences, Composed tokens sentences ∧ sentences.map Sentence.command = commands ∧
      declared + (commands.filterMap declaration?).length ≤ maxMappings := by
  induction declared, tokens using readAll.induct generalizing commands with
  | case1 declared =>
    rw [readAll_nil] at h
    cases h
    exact ⟨[], .done, rfl, hroom⟩
  | case2 declared token rest hcomment ih =>
    rw [readAll_comment hcomment] at h
    obtain ⟨sentences, hcomposed, hcommands, hcount⟩ := ih h hroom
    exact ⟨sentences, .comment hcomment hcomposed, hcommands, hcount⟩
  | case3 declared token rest hcommand fault hreader =>
    rw [readAll_fault hcommand hreader] at h
    cases h
  | case4 declared token tokens hcommand command rest hreader ih =>
    obtain ⟨more, hmore, rfl⟩ := (readAll_command_eq_ok_iff hcommand hreader).mp h
    obtain ⟨sentences, hcomposed, rfl, hcount⟩ := ih hmore (room_of_reader hreader hroom)
    obtain ⟨arguments, rfl, hspelled, hends, -⟩ := reader_eq_ok_iff.mp hreader
    refine ⟨⟨token, arguments, command, hspelled⟩ :: sentences,
      @Composed.sentence ⟨token, arguments, command, hspelled⟩ _ _ hends hcomposed, rfl, ?_⟩
    rw [List.filterMap_cons]
    cases hdeclaration : command.declaration? <;>
      simp only [hdeclaration, Option.toList_some, Option.toList_none, List.length_cons,
        List.length_nil] at hcount ⊢ <;> omega

/-- The commands of a text are those of its sentences, if there is room for the mappings. -/
theorem readAll_eq_ok_iff {commands : List Command} :
    readAll 0 tokens = .ok commands ↔
      ∃ sentences, Composed tokens sentences ∧ sentences.map Sentence.command = commands ∧
        (commands.filterMap declaration?).length ≤ maxMappings := by
  constructor
  · intro h
    obtain ⟨sentences, hcomposed, hcommands, hcount⟩ := of_readAll h (Nat.zero_le _)
    rw [Nat.zero_add] at hcount
    exact ⟨sentences, hcomposed, hcommands, hcount⟩
  · rintro ⟨sentences, hcomposed, rfl, hcount⟩
    refine hcomposed.readAll_ok ?_
    rw [Nat.zero_add]
    exact hcount

/-- The sentences of a text are determined by its words. -/
theorem unique (h : Composed tokens sentences) (h' : Composed tokens sentences') :
    sentences = sentences' := by
  induction h generalizing sentences' with
  | done =>
    cases h'
    rfl
  | comment hash others ih =>
    generalize htokens : _ :: _ = tokens at h'
    cases h' with
    | done => cases htokens
    | comment hash' others' =>
      cases htokens
      exact ih others'
    | @sentence sentence' rest' sentences' ends' others' =>
      cases htokens
      exact absurd hash sentence'.spelled.ne_hash
  | @sentence sentence rest sentences ends others ih =>
    generalize htokens : _ :: _ = tokens at h'
    cases h' with
    | done => cases htokens
    | comment hash' others' =>
      cases htokens
      exact absurd hash' sentence.spelled.ne_hash
    | @sentence sentence' rest' sentences' ends' others' =>
      obtain ⟨name, arguments, command, spelled⟩ := sentence
      obtain ⟨name', arguments', command', spelled'⟩ := sentence'
      obtain ⟨rfl, harguments⟩ := List.cons.inj htokens
      -- Both are what the reader makes of these words.
      have hread : reader 0 name (arguments ++ rest) = .ok (command, rest) :=
        reader_ok spelled ends fun _ => by decide
      have hread' : reader 0 name (arguments' ++ rest') = .ok (command', rest') :=
        reader_ok spelled' ends' fun _ => by decide
      dsimp only at harguments
      rw [harguments, hread'] at hread
      cases hread
      rw [List.append_cancel_right_eq] at harguments
      cases harguments
      rw [ih others']

end Composed

namespace Command

open Reader

variable {declared : Nat} {tokens : List Token}

/-- Reading stops for want of a word exactly if the text is cut short. -/
theorem readAll_eq_missing_iff :
    readAll declared tokens = .error .missing ↔ MotionMidi.CutShort declared tokens := by
  constructor
  · intro h
    induction declared, tokens using readAll.induct with
    | case1 declared =>
      rw [readAll_nil] at h
      cases h
    | case2 declared token rest hcomment ih =>
      rw [readAll_comment hcomment] at h
      exact .comment hcomment (ih h)
    | case3 declared token rest hcommand fault hreader =>
      rw [readAll_fault hcommand hreader] at h
      cases h
      obtain ⟨hshort, hroom⟩ := reader_eq_missing_iff.mp hreader
      exact .command hroom hshort
    | case4 declared token tokens hcommand command rest hreader ih =>
      have hmore := (readAll_command_eq_error_iff hcommand hreader).mp h
      obtain ⟨arguments, rfl, hspelled, hends, hroom⟩ := reader_eq_ok_iff.mp hreader
      exact @MotionMidi.CutShort.sentence _ ⟨token, arguments, command, hspelled⟩ _ hroom hends
        (ih hmore)
  · intro h
    induction h with
    | comment hash others ih => rw [readAll_comment hash, ih]
    | @sentence declared sentence rest room ends others ih =>
      exact (readAll_command_eq_error_iff sentence.spelled.ne_hash
        (reader_ok sentence.spelled ends room)).mpr ih
    | @command declared name arguments room short =>
      have hname : name.first ≠ '#' := by
        intro hhash
        exact absurd short.mem (by rw [hhash]; decide)
      exact readAll_fault hname (reader_eq_missing_iff.mpr ⟨short, room⟩)

end Command

namespace Config

/-- A text is accepted if it is composed of sentences, of which not too many declare a mapping. -/
theorem parse_eq_ok_iff {text : String} {parsed : Parsed} :
    parse text = .ok parsed ↔ ∃ sentences, Composed (Token.scan text.toList) sentences ∧
      ((sentences.map Sentence.command).filterMap Command.declaration?).length ≤ maxMappings ∧
      parsed = ⟨ofCommands (sentences.map Sentence.command),
        warning? (sentences.map Sentence.command)⟩ := by
  have hparse : parse text = .ok parsed ↔ ∃ commands,
      Command.readAll 0 (Token.scan text.toList) = .ok commands ∧
        parsed = ⟨ofCommands commands, warning? commands⟩ := by
    rw [parse, Command.parse]
    cases Command.readAll 0 (Token.scan text.toList) <;>
      simp [Except.map, Except.mapError, eq_comm]
  rw [hparse]
  constructor
  · rintro ⟨commands, hread, hparsed⟩
    obtain ⟨sentences, hcomposed, rfl, hroom⟩ := Composed.readAll_eq_ok_iff.mp hread
    exact ⟨sentences, hcomposed, hroom, hparsed⟩
  · rintro ⟨sentences, hcomposed, hroom, hparsed⟩
    exact ⟨_, Composed.readAll_eq_ok_iff.mpr ⟨sentences, hcomposed, rfl, hroom⟩, hparsed⟩

/-- A text is rejected if a fault stops the reading. -/
theorem parse_eq_error_iff {text : String} {error : Error} :
    parse text = .error error ↔ ∃ fault,
      Command.readAll 0 (Token.scan text.toList) = .error fault ∧
        error = fault.error (byteLength text.toList) := by
  rw [parse, Command.parse]
  cases Command.readAll 0 (Token.scan text.toList) <;>
    simp [Except.map, Except.mapError, eq_comm]

end Config

end MotionMidi
