import Mathlib.Data.List.ReduceOption
import MotionMidi.Proofs.Config.Order
import MotionMidi.Proofs.Config.Places
import MotionMidi.Proofs.Config.RoundTrip

/-!
# Mended texts

If every integer that lies outside the range of its field is replaced by the nearest one that does
not, a text describes the same configuration, and there is no warning.

## Main definitions

- `Literal.mended`, `Command.mended` — as it would be written within the ranges
- `Command.roles` — the integers that the words of the arguments stand for
- `Token.respell` — a word, replaced by a numeral where it stands for an integer out of range
- `mend` — a text in which such words are replaced

## Design notes

Which words are replaced is told by their places, so no two words may stand at the same place. The
roles of words connect them with the integers they stand for (`Token.Plays`).

Main statements: `Config.ofCommands_mended`, `Composed.respell`, `Config.parse_mend`.
-/

namespace MotionMidi

open Grammar

/-! ## Values -/

namespace Literal

/-- The integer as it would be written within the range of its field. -/
def mended (literal : Literal) : Literal :=
  { literal with value := literal.clamped }

theorem clamped_eq (literal : Literal) : (literal.clamped : Int) =
    max (literal.field.lowest : Int) (min literal.value literal.field.highest) := by
  rw [clamped]
  omega

theorem clamped_of_inRange {literal : Literal} (h : literal.InRange) :
    (literal.clamped : Int) = literal.value := by
  obtain ⟨hlow, hhigh⟩ := h
  rw [clamped_eq]
  omega

@[simp] theorem clamped_mended (literal : Literal) : literal.mended.clamped = literal.clamped :=
  literal.admits_clamped.clamped literal.position

@[simp] theorem inRange_mended (literal : Literal) : literal.mended.InRange :=
  literal.admits_clamped.inRange literal.position

end Literal

/-! ## Bringing into range -/

/-- The window with its bounds brought into range. -/
def Window.mended (window : Window) : Window :=
  { window with toLo := window.toLo.mended, toHi := window.toHi.mended }

/-- The destination with its controller brought into range. -/
def Target.mended : Target → Target
  | .controlChange controller => .controlChange controller.mended
  | .pitchBend => .pitchBend
  | .note => .note

@[simp] theorem Target.destination_mended (target : Target) :
    target.mended.destination = target.destination := by
  cases target <;> simp [mended, destination]

/-- The arguments of `MAP` with all integers brought into range. -/
def Declaration.mended (declaration : Declaration) : Declaration where
  input := declaration.input
  window := declaration.window.map Window.mended
  target := declaration.target.mended
  ordered := by
    intro window hwindow
    obtain ⟨written, hwritten, rfl⟩ := Option.map_eq_some_iff.mp hwindow
    rw [Window.Ordered, Window.mended, Literal.clamped_mended, Literal.clamped_mended]
    exact declaration.ordered written hwritten

@[simp] theorem Declaration.mapping_mended (declaration : Declaration) (notes : NoteTable) :
    declaration.mended.mapping notes = declaration.mapping notes := by
  obtain ⟨input, window, target, ordered⟩ := declaration
  cases window <;> simp [mended, mapping, Window.mended]

namespace Command

/-- The command with all integers brought into range. -/
def mended : Command → Command
  | .channel index => .channel index.mended
  | .root key => .root key
  | .scale intervals => .scale (intervals.map Literal.mended)
  | .octaves first last => .octaves first.mended last.mended
  | .tempo bpm => .tempo bpm.mended
  | .division beats => .division beats
  | .map declaration => .map declaration.mended
  | .finish => .finish

@[simp] theorem literals_mended (command : Command) :
    command.mended.literals = command.literals.map Literal.mended := by
  cases command with
  | map declaration =>
    obtain ⟨input, window, target, ordered⟩ := declaration
    cases window <;> cases target <;> rfl
  | _ => rfl

@[simp] theorem declaration?_mended (command : Command) :
    command.mended.declaration? = command.declaration?.map Declaration.mended := by
  cases command <;> rfl

end Command

namespace Config

@[simp] theorem set_mended (config : Config) (command : Command) :
    config.set command.mended = config.set command := by
  cases command <;> simp [Command.mended, set]

theorem filterMap_declaration?_mended (commands : List Command) :
    (commands.map Command.mended).filterMap Command.declaration? =
      (commands.filterMap Command.declaration?).map Declaration.mended := by
  simp [List.filterMap_map, List.map_filterMap]

/-- What is brought into range describes the same configuration. -/
theorem ofCommands_mended (commands : List Command) :
    ofCommands (commands.map Command.mended) = ofCommands commands := by
  have hsettings : settings (commands.map Command.mended) = settings commands := by
    simp [settings, List.foldl_map]
  rw [ofCommands, ofCommands, hsettings, filterMap_declaration?_mended]
  simp

theorem warning?_mended (commands : List Command) :
    warning? (commands.map Command.mended) = none := by
  refine warning?_eq_none ?_
  rw [List.forall_mem_map]
  intro command _ literal hliteral
  rw [command.literals_mended] at hliteral
  obtain ⟨written, -, rfl⟩ := List.mem_map.mp hliteral
  simp

end Config

/-! ## Roles -/

/-- The integers that the words of a window stand for, word by word. -/
def Window.roles : Option Window → List (Option Literal)
  | some window => [none, none, some window.toLo, some window.toHi]
  | none => []

/-- The integers that the words of a destination stand for, word by word. -/
def Target.roles : Target → List (Option Literal)
  | .controlChange controller => [none, some controller]
  | .pitchBend => [none]
  | .note => [none]

namespace Command

/-- The integers that the words of the arguments stand for, word by word. -/
def roles : Command → List (Option Literal)
  | .channel index => [some index]
  | .root _ => [none]
  | .scale intervals => intervals.map some
  | .octaves first last => [some first, some last]
  | .tempo bpm => [some bpm]
  | .division _ => [none]
  | .map declaration => none :: (Window.roles declaration.window ++ declaration.target.roles)
  | .finish => []

@[simp] theorem reduceOption_roles (command : Command) :
    command.roles.reduceOption = command.literals := by
  cases command with
  | scale intervals =>
    rw [roles, literals, List.reduceOption, List.filterMap_map]
    exact List.filterMap_some
  | map declaration =>
    obtain ⟨input, window, target, ordered⟩ := declaration
    cases window <;> cases target <;> rfl
  | _ => rfl

end Command

namespace Token

/-- The word stands for an integer, if the role tells one. -/
def Plays (token : Token) (role : Option Literal) : Prop :=
  ∀ literal ∈ role, Reader.literal? literal.field token = some literal

end Token

/-- The characters of a word in a role: a numeral for an integer out of range. -/
def respelled (role : Option Literal) (word : List Char) : List Char :=
  match role with
  | some literal => if literal.InRange then word else Numeral.write literal.clamped
  | none => word

namespace Token

/-- The word in a role: a numeral for an integer out of range. -/
def respell (token : Token) (role : Option Literal) : Token :=
  match respelled role token.chars with
  | first :: rest => { token with first, rest }
  | [] => token

variable {token : Token} {role : Option Literal}

theorem isWord_respelled {word : List Char} (h : word ≠ [] ∧ ∀ c ∈ word, isBlank c = false)
    (role : Option Literal) :
    respelled role word ≠ [] ∧ ∀ c ∈ respelled role word, isBlank c = false := by
  unfold respelled
  split
  case h_1 literal =>
    split
    case isTrue => exact h
    case isFalse =>
      have hnumeral := isWord_numeral literal.clamped
      rwa [IsWord, Numeral.text, String.toList_ofList] at hnumeral
  case h_2 => exact h

theorem chars_respell (token : Token) (role : Option Literal) :
    (token.respell role).chars = respelled role token.chars := by
  unfold respell
  split
  case h_1 hchars => rw [chars, hchars]
  case h_2 hnil =>
    -- No numeral is empty.
    unfold respelled at hnil ⊢
    split at hnil
    case h_1 literal =>
      split at hnil
      case isTrue => cases hnil
      case isFalse => simp at hnil
    case h_2 => cases hnil

@[simp] theorem startsLine_respell (token : Token) (role : Option Literal) :
    (token.respell role).startsLine = token.startsLine := by
  unfold respell
  split <;> rfl

@[simp] theorem position_respell (token : Token) (role : Option Literal) :
    (token.respell role).position = token.position := by
  unfold respell
  split <;> rfl

@[simp] theorem respell_none (token : Token) : token.respell none = token :=
  rfl

theorem respell_inRange {literal : Literal} (h : literal.InRange) (token : Token) :
    token.respell (some literal) = token := by
  rw [respell, respelled, if_pos h]
  rfl

theorem chars_respell_outOfRange {literal : Literal} (h : ¬literal.InRange) (token : Token) :
    (token.respell (some literal)).chars = (Numeral.text literal.clamped).toList := by
  rw [chars_respell, respelled, if_neg h, Numeral.text, String.toList_ofList]

end Token

namespace Reader

variable {token : Token} {field : Field} {literal : Literal}

theorem plays_of_literal? (h : literal? field token = some literal) :
    token.Plays (some literal) := by
  rintro _ ⟨⟩
  rw [field_of_literal? h]
  exact h

theorem literal?_respell (h : literal? field token = some literal) :
    literal? field (token.respell (some literal)) = some literal.mended := by
  obtain ⟨value, -, rfl⟩ := Option.map_eq_some_iff.mp h
  by_cases hrange : (Literal.mk field token.position value).InRange
  · rw [Token.respell_inRange hrange, h, Literal.mended, Literal.clamped_of_inRange hrange]
  · rw [literal?_numeral (Token.chars_respell_outOfRange hrange token), Token.position_respell]
    rfl

/-- A numeral starts with a digit. -/
theorem isDigit_respell (h : token.first.isDigit) (role : Option Literal) :
    (token.respell role).first.isDigit := by
  cases role with
  | none => exact h
  | some literal =>
    by_cases hrange : literal.InRange
    · rw [Token.respell_inRange hrange]
      exact h
    · exact Token.isDigit_first (Token.chars_respell_outOfRange hrange token)

end Reader

theorem Token.plays_none (token : Token) : token.Plays none :=
  nofun

section Spelled

open Reader

variable {letter : Char} {tokens : List Token}

theorem Window.Spelled.plays {window : Option Window} (h : Window.Spelled tokens window) :
    List.Forall₂ Token.Plays tokens (Window.roles window) := by
  cases h with
  | absent => exact .nil
  | @present t₁ t₂ t₃ t₄ window other fromLo fromHi toLo toHi =>
    exact .cons t₁.plays_none (.cons t₂.plays_none
      (.cons (plays_of_literal? toLo) (.cons (plays_of_literal? toHi) .nil)))

theorem Window.Spelled.respell {window : Option Window} (h : Window.Spelled tokens window) :
    Window.Spelled (List.zipWith Token.respell tokens (Window.roles window))
      (window.map Window.mended) := by
  cases h with
  | absent => exact .absent
  | present other fromLo fromHi toLo toHi =>
    exact .present other fromLo fromHi (literal?_respell toLo) (literal?_respell toHi)

theorem Target.Spelled.plays {target : Target} (h : Target.Spelled tokens target) :
    List.Forall₂ Token.Plays tokens target.roles := by
  cases h with
  | @controlChange name token controller letter integer =>
    exact .cons name.plays_none (.cons (plays_of_literal? integer) .nil)
  | @pitchBend name letter => exact .cons name.plays_none .nil
  | @note name letter => exact .cons name.plays_none .nil

theorem Target.Spelled.respell {target : Target} (h : Target.Spelled tokens target) :
    Target.Spelled (List.zipWith Token.respell tokens target.roles) target.mended := by
  cases h with
  | controlChange letter integer => exact .controlChange letter (literal?_respell integer)
  | pitchBend letter => exact .pitchBend letter
  | note letter => exact .note letter

namespace Command

variable {command : Command}

theorem Spelled.plays (h : Spelled letter tokens command) :
    List.Forall₂ Token.Plays tokens command.roles := by
  cases h with
  | channel integer => exact .cons (plays_of_literal? integer) .nil
  | @root token key pitch => exact .cons token.plays_none .nil
  | scale integers digits few =>
    rw [roles, List.forall₂_map_right_iff]
    exact integers.imp fun _ _ => plays_of_literal?
  | octaves integer integer' =>
    exact .cons (plays_of_literal? integer) (.cons (plays_of_literal? integer') .nil)
  | tempo integer => exact .cons (plays_of_literal? integer) .nil
  | @division token beats number => exact .cons token.plays_none .nil
  | @map token words words' declaration input window target =>
    exact .cons token.plays_none (List.rel_append window.plays target.plays)
  | finish => exact .nil

/-- With all integers brought into range, the arguments spell the command that is meant. -/
theorem Spelled.respell (h : Spelled letter tokens command) :
    Spelled letter (List.zipWith Token.respell tokens command.roles) command.mended := by
  cases h with
  | channel integer => exact .channel (literal?_respell integer)
  | root pitch => exact .root pitch
  | @scale tokens intervals integers digits few =>
    refine .scale ?_ ?_ ?_
    · rw [roles]
      clear digits few
      induction integers with
      | nil => exact .nil
      | cons integer integers ih => exact .cons (literal?_respell integer) ih
    · intro token htoken
      obtain ⟨i, hi, rfl⟩ := List.getElem_of_mem htoken
      rw [List.getElem_zipWith]
      exact isDigit_respell (digits _ (List.getElem_mem _)) _
    · rw [List.length_zipWith]
      exact Nat.le_trans (Nat.min_le_left _ _) few
  | octaves integer integer' =>
    exact .octaves (literal?_respell integer) (literal?_respell integer')
  | tempo integer => exact .tempo (literal?_respell integer)
  | division number => exact .division number
  | @map token words words' declaration input window target =>
    rw [roles, List.zipWith_cons_cons, List.zipWith_append window.plays.length_eq]
    exact .map input window.respell target.respell
  | finish => exact .finish

end Command

end Spelled

/-! ## Texts -/

/-- The sentence with all integers brought into range. -/
def Sentence.mended (sentence : Sentence) : Sentence where
  name := sentence.name
  arguments := List.zipWith Token.respell sentence.arguments sentence.command.roles
  command := sentence.command.mended
  spelled := sentence.spelled.respell

namespace Token

variable {tokens : List Token} {roles : List (Option Literal)}

theorem Plays.position {token : Token} {literal : Literal} (h : token.Plays (some literal)) :
    literal.position = token.position := by
  obtain ⟨value, -, hliteral⟩ := Option.map_eq_some_iff.mp (h literal rfl)
  rw [← hliteral]

/-- The integers stand where the words do. -/
theorem sublist_position (h : List.Forall₂ Plays tokens roles) :
    (roles.reduceOption.map Literal.position).Sublist (tokens.map Token.position) := by
  induction h with
  | nil => exact .slnil
  | @cons token role tokens roles hplays _ ih =>
    cases role with
    | none => exact ih.cons _
    | some literal =>
      rw [List.reduceOption_cons_of_some, List.map_cons, List.map_cons, hplays.position]
      exact ih.cons_cons _

/-- Every integer is that of a word. -/
theorem exists_plays (h : List.Forall₂ Plays tokens roles) {literal : Literal}
    (hliteral : literal ∈ roles.reduceOption) : ∃ token ∈ tokens, token.Plays (some literal) := by
  rw [List.reduceOption_mem_iff] at hliteral
  induction h with
  | nil => cases hliteral
  | @cons token role tokens roles hplays _ ih =>
    rcases List.mem_cons.mp hliteral with rfl | hliteral
    · exact ⟨token, List.mem_cons_self .., hplays⟩
    · obtain ⟨other, hother, hrole⟩ := ih hliteral
      exact ⟨other, List.mem_cons_of_mem _ hother, hrole⟩

/-- The role of a word is told by its place. -/
theorem map_respell (h : List.Forall₂ Plays tokens roles)
    (hascending : tokens.Pairwise (·.position < ·.position)) :
    tokens.map (fun token =>
        token.respell (roles.reduceOption.find? (·.position = token.position))) =
      List.zipWith respell tokens roles := by
  induction h with
  | nil => rfl
  | @cons token role tokens roles hplays hothers ih =>
    obtain ⟨hfirst, hascending⟩ := List.pairwise_cons.mp hascending
    have hlater : ∀ literal ∈ roles.reduceOption, token.position < literal.position := by
      intro literal hliteral
      obtain ⟨later, hmem, hposition⟩ := List.mem_map.mp
        ((sublist_position hothers).subset (List.mem_map_of_mem hliteral))
      rw [← hposition]
      exact hfirst later hmem
    have hnone : roles.reduceOption.find? (·.position = token.position) = none := by
      rw [List.find?_eq_none]
      intro literal hliteral
      simpa using Nat.ne_of_gt (hlater literal hliteral)
    rw [List.map_cons, List.zipWith_cons_cons, ← ih hascending]
    cases role with
    | none => rw [List.reduceOption_cons_of_none, hnone]
    | some literal =>
      rw [List.reduceOption_cons_of_some, List.find?_cons_of_pos (by simp [hplays.position])]
      refine congrArg _ (List.map_congr_left fun other hother => ?_)
      have hne : ¬literal.position = other.position := by
        rw [hplays.position]
        exact Nat.ne_of_lt (hfirst other hother)
      rw [List.find?_cons_of_neg (by simpa using hne)]

theorem plays_replicate_none (tokens : List Token) :
    List.Forall₂ Plays tokens (List.replicate tokens.length none) := by
  induction tokens with
  | nil => exact .nil
  | cons token tokens ih => exact .cons token.plays_none ih

@[simp] theorem zipWith_respell_none (tokens : List Token) :
    List.zipWith respell tokens (List.replicate tokens.length none) = tokens := by
  induction tokens with
  | nil => rfl
  | cons token tokens ih => simp [List.replicate_succ, ih]

end Token

/-- The words of a text in their roles: the text stays composed of sentences when its integers are
brought into range. -/
theorem Composed.respell {tokens : List Token} {sentences : List Sentence}
    (h : Composed tokens sentences) :
    ∃ roles, List.Forall₂ Token.Plays tokens roles ∧ (∀ role ∈ roles.head?, role = none) ∧
      roles.reduceOption = (sentences.map Sentence.command).flatMap Command.literals ∧
      Composed (List.zipWith Token.respell tokens roles) (sentences.map Sentence.mended) := by
  induction h with
  | done => exact ⟨[], .nil, nofun, rfl, .done⟩
  | @comment token rest sentences hash others ih =>
    obtain ⟨roles, hplays, -, hliterals, hcomposed⟩ := ih
    have hsplit : rest.takeWhile (!·.startsLine) ++ rest.dropWhile (!·.startsLine) = rest :=
      List.takeWhile_append_dropWhile
    have hbody : ∀ word ∈ rest.takeWhile (!·.startsLine), (!word.startsLine) = true :=
      fun word hword => List.mem_takeWhile_imp (p := fun word : Token => !word.startsLine) hword
    have hbehind := List.head?_dropWhile_not (fun word : Token => !word.startsLine) rest
    generalize rest.takeWhile (!·.startsLine) = body at hsplit hbody
    generalize rest.dropWhile (!·.startsLine) = behind at *
    -- The words of the comment stand for nothing.
    have hwords := Token.plays_replicate_none body
    have hdrop : (List.zipWith Token.respell behind roles).dropWhile (!·.startsLine) =
        List.zipWith Token.respell behind roles := by
      cases hplays with
      | nil => rfl
      | @cons word role behind roles _ _ =>
        rw [List.zipWith_cons_cons, List.dropWhile_cons_of_neg]
        simpa using hbehind
    refine ⟨none :: (List.replicate body.length none ++ roles), ?_, ?_, ?_, ?_⟩
    · rw [← hsplit]
      exact .cons token.plays_none (List.rel_append hwords hplays)
    · rintro _ ⟨⟩
      rfl
    · simp [List.reduceOption_append, hliterals]
    · rw [List.zipWith_cons_cons, ← hsplit, List.zipWith_append hwords.length_eq,
        Token.zipWith_respell_none]
      refine .comment hash ?_
      rw [List.dropWhile_append_of_pos hbody, hdrop]
      exact hcomposed
  | @sentence sentence rest sentences ends others ih =>
    obtain ⟨roles, hplays, hhead, hliterals, hcomposed⟩ := ih
    have harguments := sentence.spelled.plays
    refine ⟨none :: (sentence.command.roles ++ roles),
      .cons sentence.name.plays_none (List.rel_append harguments hplays), ?_, ?_, ?_⟩
    · rintro _ ⟨⟩
      rfl
    · simp [List.reduceOption_append, hliterals]
    · rw [List.zipWith_cons_cons, List.zipWith_append harguments.length_eq]
      refine @Composed.sentence sentence.mended _ _ ?_ hcomposed
      intro hscale token htoken
      -- What follows is the name of a command, or a comment.
      cases hplays with
      | nil => cases htoken
      | @cons next role rest roles _ _ =>
        cases hhead role rfl
        cases htoken
        exact ends hscale next rfl

/-- A text that follows `position` bytes, with a numeral in place of every integer out of range. -/
def mendFrom (literals : List Literal) (position : Nat) : List Char → List Char
  | [] => []
  | c :: text =>
    if isBlank c then c :: mendFrom literals (position + c.utf8Size) text
    else
      let rest := text.takeWhile (!isBlank ·)
      respelled (literals.find? (·.position = position)) (c :: rest) ++
        mendFrom literals (position + byteLength (c :: rest)) (text.dropWhile (!isBlank ·))
termination_by text => text.length
decreasing_by
  · simp
  · have := (List.dropWhile_suffix (!isBlank ·) (l := text)).length_le
    simp
    omega

/-- A text with a numeral in place of every integer out of range. -/
def mend (literals : List Literal) (text : String) : String :=
  String.ofList (mendFrom literals 0 text.toList)

namespace Token

theorem isBlank_head?_mendFrom {text : List Char} (h : ∀ c ∈ text.head?, isBlank c)
    (literals : List Literal) (position : Nat) :
    ∀ c ∈ (mendFrom literals position text).head?, isBlank c := by
  cases text with
  | nil =>
    rw [mendFrom]
    exact nofun
  | cons c text =>
    rw [mendFrom, if_pos (h c rfl)]
    exact h

/-- The words of the mended text are those of the text in their roles. -/
theorem outline_mendFrom (literals : List Literal) (position position' : Nat) (startsLine : Bool)
    (text : List Char) :
    (scanFrom position' startsLine (mendFrom literals position text)).map outline =
      ((scanFrom position startsLine text).map fun token =>
        token.respell (literals.find? (·.position = token.position))).map outline := by
  induction position, startsLine, text using scanFrom.induct generalizing position' with
  | case1 =>
    rw [mendFrom, scanFrom, scanFrom]
    rfl
  | case2 position startsLine c text hblank ih =>
    rw [mendFrom, if_pos hblank, scanFrom_blank hblank, scanFrom_blank hblank]
    exact ih _
  | case3 position startsLine c text hplain rest ih =>
    rw [mendFrom, if_neg hplain, scanFrom, if_neg hplain]
    have hword : c :: rest ≠ [] ∧ ∀ d ∈ c :: rest, isBlank d = false :=
      ⟨List.cons_ne_nil _ _, isBlank_of_mem_word (by simpa using hplain)⟩
    obtain ⟨hne, hrun⟩ := isWord_respelled hword (literals.find? (·.position = position))
    obtain ⟨first, more, hchars⟩ := List.exists_cons_of_ne_nil hne
    have hbehind : ∀ d ∈ (text.dropWhile (!isBlank ·)).head?, isBlank d :=
      fun d hd => of_mem_head?_dropWhile hd
    have hback := isBlank_head?_mendFrom hbehind literals (position + byteLength (c :: rest))
    have houtline : outline ⟨position', startsLine, first, more⟩ =
        outline ((Token.mk position startsLine c rest).respell
          (literals.find? (·.position = position))) := by
      rw [outline, outline, chars_respell, startsLine_respell]
      exact congrArg (·, startsLine) hchars.symm
    rw [hchars] at hrun
    dsimp only
    rw [hchars, List.cons_append, scanFrom_run _ _ hrun hback, List.map_cons, List.map_cons,
      List.map_cons, ih, houtline]

end Token

namespace Config

/-- Within the ranges there is nothing to warn of. -/
theorem parse_mend {text : String} {sentences : List Sentence}
    (h : Composed (Token.scan text.toList) sentences)
    (hroom : ((sentences.map Sentence.command).filterMap Command.declaration?).length ≤
      maxMappings) :
    parse (mend ((sentences.map Sentence.command).flatMap Command.literals) text) =
      .ok ⟨ofCommands (sentences.map Sentence.command), none⟩ := by
  obtain ⟨roles, hplays, -, hliterals, hmended⟩ := h.respell
  have hcommands : (sentences.map Sentence.mended).map Sentence.command =
      (sentences.map Sentence.command).map Command.mended := by
    rw [List.map_map, List.map_map]
    rfl
  have hdeclarations :
      (((sentences.map Sentence.mended).map Sentence.command).filterMap
        Command.declaration?).length ≤ maxMappings := by
    rw [hcommands, filterMap_declaration?_mended, List.length_map]
    exact hroom
  have hread := Composed.readAll_eq_ok_iff.mpr ⟨_, hmended, rfl, hdeclarations⟩
  -- The mended text has the mended words, although not at the same places.
  have houtline := Token.outline_mendFrom roles.reduceOption 0 0 false text.toList
  rw [← Token.scan, ← Token.scan, Token.map_respell hplays (Token.pairwise_scan _)] at houtline
  have halike := @Command.readAll_alike _ 0 _ _ (Token.forall₂_alike_iff.mpr houtline)
  rw [hread, hcommands, hliterals] at halike
  rw [parse, Command.parse, mend, String.toList_ofList]
  generalize Command.readAll 0 (Token.scan (mendFrom _ 0 text.toList)) = result at halike ⊢
  cases halike with
  | @ok commands _ h =>
    have hwarning := warning?_alike h
    rw [warning?_mended] at hwarning
    simp only [Except.mapError, Except.map, ofCommands_alike h, ofCommands_mended]
    generalize warning? commands = warning at hwarning ⊢
    cases hwarning
    rfl

end Config

end MotionMidi
