import Mathlib.Data.List.Forall2
import MotionMidi.Proofs.Config.Accepted

/-!
# The layout of a text

Where the words of a text stand does not matter for what is read, as long as they are the same words
on the same lines.

## Main definitions

- `Token.SameWord` — the same word, apart from its place
- `Token.Alike`, `Literal.Alike`, `Command.Alike` — the same, apart from the places
- `Fault.Alike`, `Error.Alike` — the same fault or error, at places that correspond
- `Reader.Agree` — from words that correspond, two readers make what is alike
- `Config.SameOutcome` — the same configuration, and the same warning; or else the same error

## Design notes

How places correspond is left open, as a relation between byte offsets. What is read from words that
are alike is then alike too, and so is the fault that stops the reading.

Where lines start matters to comments only, so the readers of commands are compared for any relation
between words that are the same (`same`). What else the relation says of them holds of the words
that are left, too. To compare whole texts, comments have to end at words that correspond.

Main statements: `Command.readAll_agree`, `Command.readAll_alike`, `Command.Spelled.alike_of_chars`,
`Config.ofCommands_alike`, `Config.parse_alike`.
-/

namespace MotionMidi

variable (places : Nat → Nat → Prop)

/-- The same word. -/
structure Token.SameWord (token token' : Token) : Prop where
  chars : token.chars = token'.chars
  position : places token.position token'.position

/-- The same word, and a line ends in front of both or of neither. -/
structure Token.Alike (token token' : Token) : Prop where
  chars : token.chars = token'.chars
  startsLine : token.startsLine = token'.startsLine
  position : places token.position token'.position

/-- The same fault. -/
inductive Fault.Alike : Fault → Fault → Prop where
  | missing : Fault.Alike .missing .missing
  | malformed {position position' : Nat} (h : places position position') :
      Fault.Alike (.malformed position) (.malformed position')
  | tooManyMappings : Fault.Alike .tooManyMappings .tooManyMappings
  | tooManyScaleNotes : Fault.Alike .tooManyScaleNotes .tooManyScaleNotes

/-- The same error. -/
inductive Error.Alike : Error → Error → Prop where
  | malformedToken {position position' : Nat} (h : places position position') :
      Error.Alike (.malformedToken position) (.malformedToken position')
  | outOfRange {position position' : Nat} (h : places position position') :
      Error.Alike (.outOfRange position) (.outOfRange position')
  | placeless {error : Error} (h : error.position? = none) : Error.Alike error error

/-- The same integer for the same field. -/
structure Literal.Alike (literal literal' : Literal) : Prop where
  field : literal.field = literal'.field
  value : literal.value = literal'.value
  position : places literal.position literal'.position

/-- The same domain and the same range. -/
structure Window.Alike (window window' : Window) : Prop where
  fromLo : window.fromLo = window'.fromLo
  fromHi : window.fromHi = window'.fromHi
  toLo : window.toLo.Alike places window'.toLo
  toHi : window.toHi.Alike places window'.toHi

/-- The same destination. -/
inductive Target.Alike : Target → Target → Prop where
  | controlChange {controller controller' : Literal} (h : controller.Alike places controller') :
      Target.Alike (.controlChange controller) (.controlChange controller')
  | pitchBend : Target.Alike .pitchBend .pitchBend
  | note : Target.Alike .note .note

/-- The same arguments. -/
structure Declaration.Alike (declaration declaration' : Declaration) : Prop where
  input : declaration.input = declaration'.input
  window : Option.Rel (Window.Alike places) declaration.window declaration'.window
  target : declaration.target.Alike places declaration'.target

/-- The same command with the same arguments. -/
inductive Command.Alike : Command → Command → Prop where
  | channel {index index' : Literal} (h : index.Alike places index') :
      Command.Alike (.channel index) (.channel index')
  | root (key : Key) : Command.Alike (.root key) (.root key)
  | scale {intervals intervals' : List Literal}
      (h : List.Forall₂ (Literal.Alike places) intervals intervals') :
      Command.Alike (.scale intervals) (.scale intervals')
  | octaves {first first' last last' : Literal} (h : first.Alike places first')
      (h' : last.Alike places last') :
      Command.Alike (.octaves first last) (.octaves first' last')
  | tempo {bpm bpm' : Literal} (h : bpm.Alike places bpm') :
      Command.Alike (.tempo bpm) (.tempo bpm')
  | division (beats : Binary32) : Command.Alike (.division beats) (.division beats)
  | map {declaration declaration' : Declaration} (h : declaration.Alike places declaration') :
      Command.Alike (.map declaration) (.map declaration')
  | finish : Command.Alike .finish .finish

/-- Two results are related, or there was the same fault. -/
inductive Results {α β : Type} (R : α → β → Prop) : Except Fault α → Except Fault β → Prop where
  | ok {a : α} {b : β} (h : R a b) : Results R (.ok a) (.ok b)
  | error {fault fault' : Fault} (h : fault.Alike places fault') :
      Results R (.error fault) (.error fault')

variable {places}

namespace Results

variable {α β γ δ : Type} {R : α → β → Prop} {S : γ → δ → Prop} {result : Except Fault α}
  {result' : Except Fault β}

theorem bind (h : Results places R result result') {f : α → Except Fault γ} {g : β → Except Fault δ}
    (hfg : ∀ a b, R a b → Results places S (f a) (g b)) :
    Results places S (result.bind f) (result'.bind g) := by
  cases h with
  | ok h => exact hfg _ _ h
  | error h => exact .error h

theorem map (h : Results places R result result') {f : α → γ} {g : β → δ}
    (hfg : ∀ a b, R a b → S (f a) (g b)) :
    Results places S (result.map f) (result'.map g) := by
  cases h with
  | ok h => exact .ok (hfg _ _ h)
  | error h => exact .error h

end Results

theorem Literal.Alike.clamped {literal literal' : Literal} (h : literal.Alike places literal') :
    literal.clamped = literal'.clamped := by
  rw [Literal.clamped, Literal.clamped, h.field, h.value]

theorem Window.Alike.ordered_iff {window window' : Window} (h : window.Alike places window') :
    window.Ordered ↔ window'.Ordered := by
  rw [Window.Ordered, Window.Ordered, h.toLo.clamped, h.toHi.clamped]

/-! ## Readers -/

theorem Token.SameWord.first {token token' : Token} (h : token.SameWord places token') :
    token.first = token'.first :=
  (List.cons.inj h.chars).1

theorem Token.Alike.sameWord {token token' : Token} (h : token.Alike places token') :
    token.SameWord places token' :=
  ⟨h.chars, h.position⟩

section Lists

variable {α β : Type} {R : α → β → Prop} {p : α → Bool} {q : β → Bool}

theorem forall₂_takeWhile (hpq : ∀ a b, R a b → p a = q b) {l : List α} {m : List β}
    (h : List.Forall₂ R l m) : List.Forall₂ R (l.takeWhile p) (m.takeWhile q) := by
  induction h with
  | nil => exact .nil
  | @cons a b l m hab hlm ih =>
    rw [List.takeWhile_cons, List.takeWhile_cons, ← hpq a b hab]
    split
    · exact .cons hab ih
    · exact .nil

theorem forall₂_dropWhile (hpq : ∀ a b, R a b → p a = q b) {l : List α} {m : List β}
    (h : List.Forall₂ R l m) : List.Forall₂ R (l.dropWhile p) (m.dropWhile q) := by
  induction h with
  | nil => exact .nil
  | @cons a b l m hab hlm ih =>
    rw [List.dropWhile_cons, List.dropWhile_cons, ← hpq a b hab]
    split
    · exact ih
    · exact .cons hab hlm

end Lists

namespace Reader

variable {α β : Type} {R : α → α → Prop} {S : β → β → Prop} {E : Token → Token → Prop}
  {token token' : Token}

variable (places) in
/-- From words that correspond, the readers make results that are related, and they leave words that
correspond. -/
def Agree (E : Token → Token → Prop) (R : α → α → Prop) (reader reader' : Reader α) : Prop :=
  ∀ ⦃tokens tokens' : List Token⦄, List.Forall₂ E tokens tokens' →
    Results places (fun outcome outcome' => R outcome.1 outcome'.1 ∧
      List.Forall₂ E outcome.2 outcome'.2) (reader tokens) (reader' tokens')

namespace Agree

variable {reader reader' : Reader α} {parse? : Token → Option α}

theorem pure {a a' : α} (h : R a a') : Agree places E R (pure a) (pure a') :=
  fun _ _ htokens => .ok ⟨h, htokens⟩

theorem fail {fault fault' : Fault} (h : fault.Alike places fault') :
    Agree places E R (fail fault) (fail fault') :=
  fun _ _ _ => .error h

theorem bind (first : Agree places E R reader reader') {next next' : α → Reader β}
    (second : ∀ a a', R a a' → Agree places E S (next a) (next' a')) :
    Agree places E S (reader >>= next) (reader' >>= next') :=
  fun _ _ htokens => (first htokens).bind fun _ _ h => second _ _ h.1 h.2

theorem map (h : Agree places E R reader reader') {f f' : α → β}
    (hf : ∀ a a', R a a' → S (f a) (f' a')) : Agree places E S (f <$> reader) (f' <$> reader') :=
  h.bind fun a a' ha => .pure (hf a a' ha)

theorem understand (h : Option.Rel R (parse? token) (parse? token'))
    (hposition : places token.position token'.position) :
    Results places R (understand parse? token) (Reader.understand parse? token') := by
  unfold Reader.understand
  generalize parse? token = outcome at h ⊢
  generalize parse? token' = outcome' at h ⊢
  cases h with
  | some h => exact .ok h
  | none => exact .error (.malformed hposition)

end Agree

theorem literal?_alike (field : Field) (h : token.SameWord places token') :
    Option.Rel (Literal.Alike places) (literal? field token) (literal? field token') := by
  rw [literal?, literal?, h.chars]
  cases Numeral.integer? token'.chars with
  | none => exact .none
  | some value => exact .some ⟨rfl, rfl, h.position⟩

section Words

variable (same : ∀ token token', E token token' → token.SameWord places token')
include same

theorem Agree.word {parse? : Token → Option α}
    (h : ∀ token token', E token token' → Option.Rel R (parse? token) (parse? token')) :
    Agree places E R (word parse?) (word parse?) := by
  intro tokens tokens' htokens
  cases htokens with
  | nil => exact .error .missing
  | cons htoken htokens =>
    exact (Agree.understand (h _ _ htoken) (same _ _ htoken).position).map fun _ _ ha =>
      ⟨ha, htokens⟩

theorem Agree.chars {parse? : List Char → Option α} :
    Agree places E Eq (Reader.word fun token => parse? token.chars)
      (Reader.word fun token => parse? token.chars) := by
  refine Agree.word same fun token token' htoken => ?_
  rw [(same _ _ htoken).chars]
  cases parse? token'.chars with
  | none => exact .none
  | some a => exact .some rfl

theorem agree_integer (field : Field) :
    Agree places E (Literal.Alike places) (integer field) (integer field) :=
  .word same fun _ _ h => literal?_alike field (same _ _ h)

theorem agree_number : Agree places E Eq number number :=
  .chars same

theorem mapM_alike {parse? : Token → Option α}
    (h : ∀ token token', E token token' → Option.Rel R (parse? token) (parse? token'))
    {tokens tokens' : List Token} (htokens : List.Forall₂ E tokens tokens') :
    Results places (List.Forall₂ R) (tokens.mapM (understand parse?))
      (tokens'.mapM (understand parse?)) := by
  induction htokens with
  | nil => exact .ok .nil
  | @cons token token' tokens tokens' htoken htokens ih =>
    rw [List.mapM_cons, List.mapM_cons]
    exact (Agree.understand (h _ _ htoken) (same _ _ htoken).position).bind fun _ _ ha =>
      ih.bind fun _ _ hl => .ok (.cons ha hl)

theorem agree_intervals :
    Agree places E (List.Forall₂ (Literal.Alike places)) intervals intervals := by
  intro tokens tokens' htokens
  have hdigit : ∀ token token' : Token, E token token' →
      token.first.isDigit = token'.first.isDigit := by
    intro token token' h
    rw [(same _ _ h).first]
  have hnumerals := forall₂_takeWhile hdigit htokens
  have hread := mapM_alike same (fun _ _ h => literal?_alike .interval (same _ _ h))
    (List.forall₂_take maxScaleNotes hnumerals)
  refine hread.bind fun literals literals' hliterals => ?_
  rw [hnumerals.length_eq]
  split
  · exact .error .tooManyScaleNotes
  · exact .ok ⟨hliterals, forall₂_dropWhile hdigit htokens⟩

theorem agree_window : Agree places E (Option.Rel (Window.Alike places)) window window := by
  have hget : Agree places E (List.Forall₂ E) (get : Reader (List Token)) get :=
    fun _ _ htokens => .ok ⟨htokens, htokens⟩
  refine hget.bind fun tokens tokens' htokens => ?_
  cases htokens with
  | nil => exact .pure .none
  | @cons token token' tokens tokens' htoken htokens =>
    dsimp only [List.head?_cons]
    rw [(same _ _ htoken).first]
    split
    · exact .pure .none
    · exact (agree_number same).bind fun _ _ hfromLo => (agree_number same).bind
        fun _ _ hfromHi => (agree_integer same .output).bind fun _ _ htoLo =>
          (agree_integer same .output).bind fun _ _ htoHi =>
            .pure (.some ⟨hfromLo, hfromHi, htoLo, htoHi⟩)

theorem agree_target : Agree places E (Target.Alike places) target target := by
  have hword : Agree places E (Token.SameWord places) (word some) (word some) :=
    .word same fun _ _ h => .some (same _ _ h)
  refine hword.bind fun token token' htoken => ?_
  rw [htoken.first]
  split
  · exact (agree_integer same .controller).bind fun _ _ h => .pure (.controlChange h)
  · exact .pure .pitchBend
  · exact .pure .note
  · exact .fail (.malformed htoken.position)

theorem agree_declaration :
    Agree places E (Declaration.Alike places) declaration declaration := by
  refine (Agree.chars same).bind fun input input' hinput => (agree_window same).bind
    fun window? window?' hwindow => (agree_target same).bind fun target target' htarget => ?_
  cases hwindow with
  | none => exact .pure ⟨hinput, .none, htarget⟩
  | @some window window' hwindow =>
    dsimp only
    by_cases h : window.Ordered
    · rw [dif_pos h, dif_pos (hwindow.ordered_iff.mp h)]
      exact .pure ⟨hinput, .some hwindow, htarget⟩
    · rw [dif_neg h, dif_neg (mt hwindow.ordered_iff.mpr h)]
      exact .fail (.malformed hwindow.toLo.position)

end Words

end Reader

/-! ## Commands -/

namespace Command

open Reader

theorem Alike.length_declaration? {command command' : Command}
    (h : command.Alike places command') :
    command.declaration?.toList.length = command'.declaration?.toList.length := by
  cases h <;> rfl

section Words

variable {E : Token → Token → Prop}
  (same : ∀ token token', E token token' → token.SameWord places token')
include same

theorem agree_reader (declared : Nat) {name name' : Token} (hname : name.SameWord places name') :
    Agree places E (Command.Alike places) (reader declared name) (reader declared name') := by
  unfold reader
  rw [hname.first]
  split
  · exact (agree_integer same .channel).map fun _ _ h => .channel h
  · refine (Agree.chars same).map ?_
    rintro key _ rfl
    exact .root key
  · exact (agree_intervals same).map fun _ _ h => .scale h
  · exact ((agree_integer same .octave).map (S := fun f f' => ∀ a a', a.Alike places a' →
      Command.Alike places (f a) (f' a')) fun _ _ h _ _ h' => .octaves h h').bind fun _ _ hf =>
        (agree_integer same .octave).map hf
  · exact (agree_integer same .tempo).map fun _ _ h => .tempo h
  · refine (agree_number same).map ?_
    rintro beats _ rfl
    exact .division beats
  · split
    · exact .fail .tooManyMappings
    · exact (agree_declaration same).map fun _ _ h => .map h
  · exact .pure .finish
  · exact .fail (.malformed hname.position)

/-- Words that correspond are read as commands that are alike. -/
theorem readAll_agree {declared : Nat} {tokens tokens' : List Token}
    (comments : ∀ ⦃token token' rest rest'⦄, E token token' → List.Forall₂ E rest rest' →
      token.first = '#' →
        List.Forall₂ E (rest.dropWhile (!·.startsLine)) (rest'.dropWhile (!·.startsLine)))
    (h : List.Forall₂ E tokens tokens') :
    Results places (List.Forall₂ (Command.Alike places)) (readAll declared tokens)
      (readAll declared tokens') := by
  induction declared, tokens using readAll.induct generalizing tokens' with
  | case1 declared =>
    cases h
    rw [readAll_nil]
    exact .ok .nil
  | case2 declared token rest hcomment ih =>
    cases h with
    | @cons _ token' _ rest' htoken hrest =>
      rw [readAll_comment hcomment, readAll_comment ((same _ _ htoken).first ▸ hcomment)]
      exact ih (comments htoken hrest hcomment)
  | case3 declared token rest hcommand fault hreader =>
    cases h with
    | @cons _ token' _ rest' htoken hrest =>
      have hagree := agree_reader same declared (same _ _ htoken) hrest
      rw [readAll_cons, readAll_cons, ← (same _ _ htoken).first, if_neg hcommand, if_neg hcommand]
      rw [hreader] at hagree ⊢
      generalize reader declared token' rest' = result at hagree ⊢
      cases hagree with
      | error hfault => exact .error hfault
  | case4 declared token rest hcommand command others hreader ih =>
    cases h with
    | @cons _ token' _ rest' htoken hrest =>
      have hagree := agree_reader same declared (same _ _ htoken) hrest
      rw [readAll_cons, readAll_cons, ← (same _ _ htoken).first, if_neg hcommand, if_neg hcommand]
      rw [hreader] at hagree ⊢
      generalize reader declared token' rest' = result at hagree ⊢
      cases hagree with
      | ok houtcome =>
        obtain ⟨halike, hothers⟩ := houtcome
        change Results places _ ((readAll _ _).map _) ((readAll _ _).map _)
        rw [← halike.length_declaration?]
        exact (ih hothers).map fun _ _ hmore => .cons halike hmore

end Words

/-- Words that are alike are read as commands that are alike. -/
theorem readAll_alike {declared : Nat} {tokens tokens' : List Token}
    (h : List.Forall₂ (Token.Alike places) tokens tokens') :
    Results places (List.Forall₂ (Command.Alike places)) (readAll declared tokens)
      (readAll declared tokens') := by
  refine readAll_agree (fun _ _ halike => halike.sameWord) ?_ h
  intro token token' rest rest' _ hrest _
  exact forall₂_dropWhile (fun a b hab => by rw [hab.startsLine]) hrest

/-- What is read from arguments depends on their characters only, apart from the places. -/
theorem Spelled.alike_of_chars {letter : Char} {tokens tokens' : List Token}
    {command command' : Command} (h : Spelled letter tokens command)
    (h' : Spelled letter tokens' command')
    (hchars : tokens.map Token.chars = tokens'.map Token.chars) :
    Command.Alike (fun _ _ => True) command command' := by
  let name : Token := ⟨0, false, letter, []⟩
  have hread {tokens : List Token} {command : Command} (h : Spelled name.first tokens command) :
      reader 0 name tokens = .ok (command, []) := by
    rw [← List.append_nil tokens]
    exact reader_ok h (fun _ => nofun) fun _ => by decide
  have hsame : List.Forall₂ (Token.SameWord fun _ _ => True) tokens tokens' := by
    rw [← List.forall₂_eq_eq_eq, List.forall₂_map_left_iff, List.forall₂_map_right_iff] at hchars
    exact hchars.imp fun _ _ hchars => ⟨hchars, trivial⟩
  have hname : Token.SameWord (fun _ _ => True) name name := ⟨rfl, trivial⟩
  have hagree := agree_reader (fun _ _ h => h) 0 hname hsame
  rw [hread h, hread h'] at hagree
  cases hagree with
  | ok houtcome => exact houtcome.1

/-- Nothing depends on whether the first word starts a line. -/
theorem readAll_startsLine (declared : Nat) (token : Token) (startsLine : Bool)
    (rest : List Token) :
    readAll declared ({ token with startsLine } :: rest) = readAll declared (token :: rest) := by
  rw [readAll_cons, readAll_cons]
  rfl

end Command

/-! ## Meaning -/

theorem Target.Alike.destination {target target' : Target} (h : target.Alike places target') :
    target.destination = target'.destination := by
  cases h with
  | controlChange h => rw [Target.destination, Target.destination, h.clamped]
  | pitchBend => rfl
  | note => rfl

theorem Declaration.Alike.mapping {declaration declaration' : Declaration}
    (h : declaration.Alike places declaration') (notes : NoteTable) :
    declaration.mapping notes = declaration'.mapping notes := by
  obtain ⟨hinput, hwindow, htarget⟩ := h
  have hdestination := htarget.destination
  obtain ⟨input, window, target, ordered⟩ := declaration
  obtain ⟨input', window', target', ordered'⟩ := declaration'
  dsimp only at hinput hwindow hdestination
  subst hinput
  cases hwindow with
  | none => simp only [Declaration.mapping, hdestination]
  | some h =>
    simp only [Declaration.mapping, hdestination, h.fromLo, h.fromHi, h.toLo.clamped,
      h.toHi.clamped]

namespace Config

theorem set_alike {command command' : Command} (h : command.Alike places command')
    (config : Config) : config.set command = config.set command' := by
  cases h with
  | channel h => simp only [set, h.clamped]
  | root key => rfl
  | @scale intervals intervals' h =>
    have hclamped : List.Forall₂ Eq (intervals.map Literal.clamped)
        (intervals'.map Literal.clamped) :=
      List.forall₂_map_left_iff.mpr (List.forall₂_map_right_iff.mpr (h.imp fun _ _ h => h.clamped))
    rw [List.forall₂_eq_eq_eq] at hclamped
    simp only [set, hclamped]
  | octaves h h' => simp only [set, h.clamped, h'.clamped]
  | tempo h => simp only [set, h.clamped]
  | division beats => rfl
  | map h => rfl
  | finish => rfl

variable {commands commands' : List Command}

theorem foldl_set_alike (h : List.Forall₂ (Command.Alike places) commands commands')
    (config : Config) : commands.foldl set config = commands'.foldl set config := by
  induction h generalizing config with
  | nil => rfl
  | cons hcommand hcommands ih => rw [List.foldl_cons, List.foldl_cons, set_alike hcommand, ih]

theorem map_mapping_alike (h : List.Forall₂ (Command.Alike places) commands commands')
    (notes : NoteTable) :
    (commands.filterMap Command.declaration?).map (Declaration.mapping notes) =
      (commands'.filterMap Command.declaration?).map (Declaration.mapping notes) := by
  induction h with
  | nil => rfl
  | cons hcommand hcommands ih =>
    cases hcommand with
    | @map declaration declaration' h =>
      change declaration.mapping notes :: _ = declaration'.mapping notes :: _
      rw [h.mapping notes, ih]
    | _ => exact ih

/-- Commands that are alike describe the same configuration. -/
theorem ofCommands_alike (h : List.Forall₂ (Command.Alike places) commands commands') :
    ofCommands commands = ofCommands commands' := by
  rw [ofCommands, ofCommands, settings, settings, foldl_set_alike h, map_mapping_alike h]

end Config

theorem Literal.Alike.inRange_iff {literal literal' : Literal} (h : literal.Alike places literal') :
    literal.InRange ↔ literal'.InRange := by
  rw [Literal.InRange, Literal.InRange, h.field, h.value]

theorem Command.Alike.literals {command command' : Command} (h : command.Alike places command') :
    List.Forall₂ (Literal.Alike places) command.literals command'.literals := by
  cases h with
  | channel h => exact .cons h .nil
  | root key => exact .nil
  | scale h => exact h
  | octaves h h' => exact .cons h (.cons h' .nil)
  | tempo h => exact .cons h .nil
  | division beats => exact .nil
  | @map declaration declaration' h =>
    obtain ⟨-, hwindow, htarget⟩ := h
    obtain ⟨input, window, target, ordered⟩ := declaration
    obtain ⟨input', window', target', ordered'⟩ := declaration'
    refine List.rel_append ?_ ?_
    · cases hwindow with
      | none => exact .nil
      | some h => exact .cons h.toLo (.cons h.toHi .nil)
    · cases htarget with
      | controlChange h => exact .cons h .nil
      | pitchBend => exact .nil
      | note => exact .nil
  | finish => exact .nil

theorem Fault.Alike.error {fault fault' : Fault} (h : fault.Alike places fault')
    {length length' : Nat} (hend : places length length') :
    (fault.error length).Alike places (fault'.error length') := by
  cases h with
  | missing => exact .malformedToken hend
  | malformed h => exact .malformedToken h
  | tooManyMappings => exact .placeless rfl
  | tooManyScaleNotes => exact .placeless rfl

namespace Config

variable {commands commands' : List Command}

theorem find?_alike {literals literals' : List Literal}
    (h : List.Forall₂ (Literal.Alike places) literals literals') :
    Option.Rel (Literal.Alike places) (literals.find? (¬ ·.InRange))
      (literals'.find? (¬ ·.InRange)) := by
  induction h with
  | nil => exact .none
  | @cons literal literal' literals literals' hliteral hliterals ih =>
    have hrange : decide (¬literal.InRange) = decide (¬literal'.InRange) :=
      decide_eq_decide.mpr (not_congr hliteral.inRange_iff)
    rw [List.find?_cons, List.find?_cons, hrange]
    split
    · exact .some hliteral
    · exact ih

/-- Commands that are alike call for the same warning. -/
theorem warning?_alike (h : List.Forall₂ (Command.Alike places) commands commands') :
    Option.Rel (Error.Alike places) (warning? commands) (warning? commands') := by
  have hliterals : List.Forall₂ (Literal.Alike places) (commands.flatMap Command.literals)
      (commands'.flatMap Command.literals) := by
    induction h with
    | nil => exact .nil
    | cons hcommand hcommands ih => exact List.rel_append hcommand.literals ih
  have hfind := find?_alike hliterals
  rw [warning?, warning?]
  generalize (commands.flatMap Command.literals).find? _ = literal at hfind ⊢
  generalize (commands'.flatMap Command.literals).find? _ = literal' at hfind ⊢
  cases hfind with
  | none => exact .none
  | some h => exact .some (.outOfRange h.position)

variable (places) in
/-- The same configuration comes of two texts, and the same warning; or else the same error. -/
inductive SameOutcome : Except Error Parsed → Except Error Parsed → Prop where
  | ok {config : Config} {warning warning' : Option Error}
      (h : Option.Rel (Error.Alike places) warning warning') :
      SameOutcome (.ok ⟨config, warning⟩) (.ok ⟨config, warning'⟩)
  | error {error error' : Error} (h : error.Alike places error') :
      SameOutcome (.error error) (.error error')

/-- What comes of two texts is the same if it is the same for their words. -/
theorem parse_alike {text text' : String}
    (h : Results places (List.Forall₂ (Command.Alike places))
      (Command.readAll 0 (Token.scan text.toList)) (Command.readAll 0 (Token.scan text'.toList)))
    (hend : places (byteLength text.toList) (byteLength text'.toList)) :
    SameOutcome places (parse text) (parse text') := by
  rw [parse, parse, Command.parse, Command.parse]
  generalize Command.readAll 0 (Token.scan text.toList) = result at h ⊢
  generalize Command.readAll 0 (Token.scan text'.toList) = result' at h ⊢
  cases h with
  | @ok commands commands' h =>
    simp only [Except.mapError, Except.map, ofCommands_alike h]
    exact .ok (warning?_alike h)
  | error h => exact .error (h.error hend)

end Config

end MotionMidi
