import Mathlib.Data.List.Forall2
import Mathlib.Data.List.TakeWhile
import MotionMidi.Config.Reader

/-!
# The words of a command

Which words are the arguments of a command, and which are too few for it. A reader is described by
both at once: what it takes off the front of a text, and when it stops for want of a word.

## Main definitions

- `Window.Spelled`, `Target.Spelled`, `Command.Spelled` — the words of an argument, and what is
  read from them
- `Window.CutShort`, `Target.CutShort`, `Command.CutShort` — the first words of an argument, or of
  the arguments of a command, where another word has to follow
- `Reader.Spec` — what a reader takes, and the words that are too few for it

## Design notes

The specification of a composite is put together by `Spec.bind`, in the way the reader itself is,
and brought into the form above by `Spec.of_iff`. So there is one lemma for each reader.

Which words belong to a command is told by these words alone, with one exception: a scale goes on as
long as words start with a digit, so something else has to follow (`Command.Ends`). A scale may end
anywhere, so it is never cut short.

Main statements: `Command.reader_eq_ok_iff`, `Command.reader_eq_missing_iff`.
-/

namespace MotionMidi

/-- Four numbers that stand for a window, or no words at all. -/
inductive Window.Spelled : List Token → Option Window → Prop where
  | absent : Window.Spelled [] none
  | present {t₁ t₂ t₃ t₄ : Token} {window : Window} (other : t₁.first.isAlpha = false)
      (fromLo : Binary32.parse? t₁.chars = some window.fromLo)
      (fromHi : Binary32.parse? t₂.chars = some window.fromHi)
      (toLo : Reader.literal? .output t₃ = some window.toLo)
      (toHi : Reader.literal? .output t₄ = some window.toHi) :
      Window.Spelled [t₁, t₂, t₃, t₄] (some window)

/-- A word that stands for a destination, and the number of a controller. -/
inductive Target.Spelled : List Token → Target → Prop where
  | controlChange {name token : Token} {controller : Literal} (letter : name.first.toLower = 'c')
      (integer : Reader.literal? .controller token = some controller) :
      Target.Spelled [name, token] (.controlChange controller)
  | pitchBend {name : Token} (letter : name.first.toLower = 'p') :
      Target.Spelled [name] .pitchBend
  | note {name : Token} (letter : name.first.toLower = 'n') : Target.Spelled [name] .note

/-- The words are the arguments of the command that starts with a letter. -/
inductive Command.Spelled : Char → List Token → Command → Prop where
  | channel {token : Token} {index : Literal}
      (integer : Reader.literal? .channel token = some index) :
      Command.Spelled 'C' [token] (.channel index)
  | root {token : Token} {key : Key} (pitch : Key.parse? token.chars = some key) :
      Command.Spelled 'R' [token] (.root key)
  | scale {tokens : List Token} {intervals : List Literal}
      (integers : List.Forall₂ (Reader.literal? .interval · = some ·) tokens intervals)
      (digits : ∀ token ∈ tokens, token.first.isDigit) (few : tokens.length ≤ maxScaleNotes) :
      Command.Spelled 'S' tokens (.scale intervals)
  | octaves {token token' : Token} {first last : Literal}
      (integer : Reader.literal? .octave token = some first)
      (integer' : Reader.literal? .octave token' = some last) :
      Command.Spelled 'O' [token, token'] (.octaves first last)
  | tempo {token : Token} {bpm : Literal} (integer : Reader.literal? .tempo token = some bpm) :
      Command.Spelled 'B' [token] (.tempo bpm)
  | division {token : Token} {beats : Binary32}
      (number : Binary32.parse? token.chars = some beats) :
      Command.Spelled 'D' [token] (.division beats)
  | map {token : Token} {tokens tokens' : List Token} {declaration : Declaration}
      (input : Input.parse? token.chars = some declaration.input)
      (window : Window.Spelled tokens declaration.window)
      (target : Target.Spelled tokens' declaration.target) :
      Command.Spelled 'M' (token :: (tokens ++ tokens')) (.map declaration)
  | finish : Command.Spelled 'E' [] .finish

/-- What is left of a text does not continue the arguments of the command that starts with a
letter. -/
def Command.Ends (letter : Char) (rest : List Token) : Prop :=
  letter = 'S' → ∀ token ∈ rest.head?, token.first.isDigit = false

/-- The first words of a window. -/
inductive Window.CutShort : List Token → Prop where
  | fromHi {t₁ : Token} {fromLo : Binary32} (other : t₁.first.isAlpha = false)
      (number : Binary32.parse? t₁.chars = some fromLo) : Window.CutShort [t₁]
  | toLo {t₁ t₂ : Token} {fromLo fromHi : Binary32} (other : t₁.first.isAlpha = false)
      (number : Binary32.parse? t₁.chars = some fromLo)
      (number' : Binary32.parse? t₂.chars = some fromHi) : Window.CutShort [t₁, t₂]
  | toHi {t₁ t₂ t₃ : Token} {fromLo fromHi : Binary32} {toLo : Literal}
      (other : t₁.first.isAlpha = false) (number : Binary32.parse? t₁.chars = some fromLo)
      (number' : Binary32.parse? t₂.chars = some fromHi)
      (integer : Reader.literal? .output t₃ = some toLo) : Window.CutShort [t₁, t₂, t₃]

/-- No destination, or that of a controller without its number. -/
inductive Target.CutShort : List Token → Prop where
  | name : Target.CutShort []
  | controller {name : Token} (letter : name.first.toLower = 'c') : Target.CutShort [name]

/-- Too few arguments of the command that starts with a letter. -/
inductive Command.CutShort : Char → List Token → Prop where
  | argument {letter : Char} (takes : letter ∈ ['C', 'R', 'O', 'B', 'D', 'M']) :
      Command.CutShort letter []
  | octave {token : Token} {first : Literal}
      (integer : Reader.literal? .octave token = some first) : Command.CutShort 'O' [token]
  | window {token : Token} {tokens : List Token} {input : Input}
      (name : Input.parse? token.chars = some input) (window : Window.CutShort tokens) :
      Command.CutShort 'M' (token :: tokens)
  | target {token : Token} {tokens tokens' : List Token} {input : Input} {window? : Option Window}
      (name : Input.parse? token.chars = some input) (window : Window.Spelled tokens window?)
      (target : Target.CutShort tokens') : Command.CutShort 'M' (token :: (tokens ++ tokens'))

/-! ## Destinations by their letters -/

namespace Target

variable {name : Token} {words : List Token}

theorem spelled_cons_iff {target : Target} :
    Spelled (name :: words) target ↔
      (name.first.toLower = 'c' ∧ ∃ token controller, words = [token] ∧
        Reader.literal? .controller token = some controller ∧ target = .controlChange controller) ∨
      (name.first.toLower = 'p' ∧ words = [] ∧ target = .pitchBend) ∨
      (name.first.toLower = 'n' ∧ words = [] ∧ target = .note) := by
  constructor
  · rintro (⟨letter, integer⟩ | letter | letter)
    · exact .inl ⟨letter, _, _, rfl, integer, rfl⟩
    · exact .inr (.inl ⟨letter, rfl, rfl⟩)
    · exact .inr (.inr ⟨letter, rfl, rfl⟩)
  · rintro (⟨letter, token, controller, rfl, integer, rfl⟩ | ⟨letter, rfl, rfl⟩ |
      ⟨letter, rfl, rfl⟩)
    · exact .controlChange letter integer
    · exact .pitchBend letter
    · exact .note letter

theorem cutShort_cons_iff :
    CutShort (name :: words) ↔ name.first.toLower = 'c' ∧ words = [] := by
  constructor
  · rintro (_ | letter)
    exact ⟨letter, rfl⟩
  · rintro ⟨letter, rfl⟩
    exact .controller letter

theorem isAlpha_of_toLower {c : Char} (h : c.toLower.isAlpha) : c.isAlpha := by
  unfold Char.toLower at h
  split at h
  case isTrue hupper => exact Bool.or_eq_true_iff.mpr (.inl (decide_eq_true hupper))
  case isFalse => exact h

/-- A destination starts with a letter, so there is no window in front of it. -/
theorem Spelled.isAlpha_head {target : Target} (h : Spelled words target) (rest : List Token) :
    ∀ token ∈ (words ++ rest).head?, token.first.isAlpha := by
  have hletter {c : Char} (hc : c.isAlpha) {name : Token} (h : name.first.toLower = c) :
      name.first.isAlpha := isAlpha_of_toLower (h ▸ hc)
  cases h with
  | controlChange letter integer => rintro _ ⟨⟩; exact hletter rfl letter
  | pitchBend letter => rintro _ ⟨⟩; exact hletter rfl letter
  | note letter => rintro _ ⟨⟩; exact hletter rfl letter

theorem CutShort.isAlpha_head (h : CutShort words) :
    ∀ token ∈ words.head?, token.first.isAlpha := by
  cases h with
  | name => exact nofun
  | controller letter =>
    rintro _ ⟨⟩
    exact isAlpha_of_toLower (by rw [letter]; rfl)

end Target

namespace Reader

variable {α β : Type}

/-! ## Specifications -/

/-- What a reader makes of the words it is given, and what it leaves of them; and the words that are
too few for it. -/
structure Spec (reader : Reader α) (Takes : List Token → α → List Token → Prop)
    (Short : List Token → Prop) : Prop where
  ok_iff : ∀ {tokens a rest}, reader tokens = .ok (a, rest) ↔ Takes tokens a rest
  missing_iff : ∀ {tokens}, reader tokens = .error .missing ↔ Short tokens

namespace Spec

variable {reader : Reader α} {next : α → Reader β} {parse? : Token → Option α}
  {P P' : List Token → α → List Token → Prop} {S S' : List Token → Prop}
  {Q : α → List Token → β → List Token → Prop} {T : α → List Token → Prop}

theorem of_iff (h : reader.Spec P S) (hok : ∀ tokens a rest, P tokens a rest ↔ P' tokens a rest)
    (hmissing : ∀ tokens, S tokens ↔ S' tokens) : reader.Spec P' S' where
  ok_iff := h.ok_iff.trans (hok ..)
  missing_iff := h.missing_iff.trans (hmissing _)

theorem pure (a : α) :
    (pure a : Reader α).Spec (fun tokens b rest => b = a ∧ rest = tokens) fun _ => False where
  ok_iff {tokens b rest} := by
    constructor
    · rintro ⟨⟩
      exact ⟨rfl, rfl⟩
    · rintro ⟨rfl, rfl⟩
      rfl
  missing_iff := iff_false_intro nofun

theorem fail {fault : Fault} (h : fault ≠ .missing) :
    (fail fault : Reader α).Spec (fun _ _ _ => False) fun _ => False where
  ok_iff := iff_false_intro nofun
  missing_iff := iff_false_intro fun hmissing => h (Except.error.inj hmissing)

theorem bind (first : reader.Spec P S) (second : ∀ a, (next a).Spec (Q a) (T a)) :
    (reader >>= next).Spec
      (fun tokens b rest => ∃ a middle, P tokens a middle ∧ Q a middle b rest)
      fun tokens => S tokens ∨ ∃ a middle, P tokens a middle ∧ T a middle where
  ok_iff := by
    intro tokens b rest
    simp only [bind_eq_ok_iff, first.ok_iff, (second _).ok_iff]
  missing_iff := by
    intro tokens
    simp only [← first.missing_iff, ← first.ok_iff, ← (second _).missing_iff]
    cases hfirst : reader tokens with
    | error fault => simp [bind_error hfirst]
    | ok outcome => simp [bind_ok hfirst, Prod.ext_iff]

theorem map (h : reader.Spec P S) (f : α → β) :
    (f <$> reader).Spec (fun tokens b rest => ∃ a, P tokens a rest ∧ b = f a) S := by
  refine (h.bind fun a => pure (f a)).of_iff (fun tokens b rest => ?_) fun tokens => by simp
  constructor
  · rintro ⟨a, middle, ha, rfl, rfl⟩
    exact ⟨a, ha, rfl⟩
  · rintro ⟨a, ha, rfl⟩
    exact ⟨a, rest, ha, rfl, rfl⟩

theorem word :
    (word parse?).Spec
      (fun tokens a rest => ∃ token, tokens = token :: rest ∧ parse? token = some a)
      (· = []) where
  ok_iff := word_eq_ok_iff
  missing_iff {tokens} := by
    cases tokens with
    | nil => exact iff_of_true rfl rfl
    | cons token tokens =>
      rw [Reader.word, understand]
      refine iff_of_false (fun hmissing => ?_) (List.cons_ne_nil _ _)
      cases hparse : parse? token <;> rw [hparse] at hmissing <;> cases hmissing

end Spec

/-! ## Windows -/

/-- Takes a window that is not left out. -/
def presentWindow : Reader (Option MotionMidi.Window) := do
  let fromLo ← number
  let fromHi ← number
  let toLo ← integer .output
  let toHi ← integer .output
  return some { fromLo, fromHi, toLo, toHi }

theorem window_letter {token : Token} (h : token.first.isAlpha) (tokens : List Token) :
    window (token :: tokens) = .ok (none, token :: tokens) := by
  show (if token.first.isAlpha = true then pure none else _ : Reader (Option Window)) _ = _
  rw [if_pos h]
  rfl

theorem window_other {token : Token} (h : token.first.isAlpha = false) (tokens : List Token) :
    window (token :: tokens) = presentWindow (token :: tokens) := by
  show (if token.first.isAlpha = true then pure none else _ : Reader (Option Window)) _ = _
  rw [h, if_neg Bool.false_ne_true]
  rfl

/-- A window is left out exactly if a letter comes next, or nothing. -/
theorem spec_window :
    window.Spec
      (fun tokens window? rest => ∃ words, tokens = words ++ rest ∧ Window.Spelled words window? ∧
        (window? = none → ∀ token ∈ rest.head?, token.first.isAlpha))
      Window.CutShort := by
  have hpresent : presentWindow.Spec _ _ := Spec.word.bind fun _ => Spec.word.bind fun _ =>
    Spec.word.bind fun _ => Spec.word.bind fun _ => Spec.pure _
  constructor
  · intro tokens window? rest
    constructor
    · intro h
      cases tokens with
      | nil =>
        cases h
        exact ⟨[], rfl, .absent, fun _ => nofun⟩
      | cons token tokens =>
        by_cases hletter : token.first.isAlpha
        · rw [window_letter hletter] at h
          cases h
          refine ⟨[], rfl, .absent, ?_⟩
          rintro - _ ⟨⟩
          exact hletter
        · rw [Bool.not_eq_true] at hletter
          rw [window_other hletter, hpresent.ok_iff] at h
          obtain ⟨_, _, ⟨_, ⟨⟩, hfromLo⟩, _, _, ⟨t₂, rfl, hfromHi⟩, _, _, ⟨t₃, rfl, htoLo⟩, _, _,
            ⟨t₄, rfl, htoHi⟩, rfl, rfl⟩ := h
          exact ⟨[token, t₂, t₃, t₄], rfl, .present hletter hfromLo hfromHi htoLo htoHi, nofun⟩
    · rintro ⟨words, rfl, hspelled, hnext⟩
      cases hspelled with
      | absent =>
        cases rest with
        | nil => rfl
        | cons token rest => exact window_letter (hnext rfl token rfl) rest
      | present other fromLo fromHi toLo toHi =>
        refine (window_other other _).trans (hpresent.ok_iff.mpr ?_)
        exact ⟨_, _, ⟨_, rfl, fromLo⟩, _, _, ⟨_, rfl, fromHi⟩, _, _, ⟨_, rfl, toLo⟩, _, _,
          ⟨_, rfl, toHi⟩, rfl, rfl⟩
  · intro tokens
    constructor
    · intro h
      cases tokens with
      | nil => cases h
      | cons token tokens =>
        by_cases hletter : token.first.isAlpha
        · rw [window_letter hletter] at h
          cases h
        · rw [Bool.not_eq_true] at hletter
          rw [window_other hletter, hpresent.missing_iff] at h
          obtain ⟨⟨⟩⟩ | ⟨_, _, ⟨_, ⟨⟩, h₁⟩, rfl | ⟨_, _, ⟨t₂, rfl, h₂⟩, rfl | ⟨_, _, ⟨t₃, rfl, h₃⟩,
            rfl | ⟨_, _, -, ⟨⟩⟩⟩⟩⟩ := h
          · exact .fromHi hletter h₁
          · exact .toLo hletter h₁ h₂
          · exact .toHi hletter h₁ h₂ h₃
    · intro h
      cases h with
      | fromHi other h₁ =>
        rw [window_other other, hpresent.missing_iff]
        exact .inr ⟨_, _, ⟨_, rfl, h₁⟩, .inl rfl⟩
      | toLo other h₁ h₂ =>
        rw [window_other other, hpresent.missing_iff]
        exact .inr ⟨_, _, ⟨_, rfl, h₁⟩, .inr ⟨_, _, ⟨_, rfl, h₂⟩, .inl rfl⟩⟩
      | toHi other h₁ h₂ h₃ =>
        rw [window_other other, hpresent.missing_iff]
        exact .inr ⟨_, _, ⟨_, rfl, h₁⟩, .inr ⟨_, _, ⟨_, rfl, h₂⟩, .inr ⟨_, _, ⟨_, rfl, h₃⟩,
          .inl rfl⟩⟩⟩

/-! ## Destinations -/

/-- Takes what belongs to the destination that a word names. -/
def destination (name : Token) : Reader Target :=
  match name.first.toLower with
  | 'c' => do return .controlChange (← integer .controller)
  | 'p' => return .pitchBend
  | 'n' => return .note
  | _ => fail (.malformed name.position)

theorem target_eq : target = (do destination (← word some)) := rfl

theorem spec_destination (name : Token) :
    (destination name).Spec
      (fun tokens target rest =>
        ∃ words, tokens = words ++ rest ∧ Target.Spelled (name :: words) target)
      fun tokens => Target.CutShort (name :: tokens) := by
  simp only [Target.spelled_cons_iff, Target.cutShort_cons_iff]
  unfold destination
  split
  case h_1 letter =>
    refine (Spec.word.map Target.controlChange).of_iff (fun tokens target rest => ?_)
      (by simp [letter])
    constructor
    · rintro ⟨controller, ⟨token, rfl, integer⟩, rfl⟩
      exact ⟨[token], rfl, .inl ⟨letter, token, controller, rfl, integer, rfl⟩⟩
    · rintro ⟨words, rfl, ⟨-, token, controller, rfl, integer, rfl⟩ | ⟨other, -⟩ | ⟨other, -⟩⟩
      · exact ⟨controller, ⟨token, rfl, integer⟩, rfl⟩
      all_goals exact absurd (letter.symm.trans other) (by decide)
  case h_2 letter =>
    exact (Spec.pure _).of_iff (by simp [letter, and_comm, eq_comm]) (by simp [letter])
  case h_3 letter =>
    exact (Spec.pure _).of_iff (by simp [letter, and_comm, eq_comm]) (by simp [letter])
  case h_4 hc hp hn =>
    have hother : name.first.toLower ≠ 'c' ∧ name.first.toLower ≠ 'p' ∧ name.first.toLower ≠ 'n' :=
      ⟨hc, hp, hn⟩
    exact (Spec.fail Fault.noConfusion).of_iff (by simp [hother]) (by simp [hother])

theorem spec_target :
    target.Spec
      (fun tokens target rest => ∃ words, tokens = words ++ rest ∧ Target.Spelled words target)
      Target.CutShort := by
  rw [target_eq]
  refine (Spec.word.bind spec_destination).of_iff (fun tokens target rest => ?_) fun tokens => ?_
  · constructor
    · rintro ⟨_, _, ⟨name, rfl, hname⟩, words, rfl, hspelled⟩
      cases hname
      exact ⟨_ :: words, rfl, hspelled⟩
    · rintro ⟨words, rfl, hspelled⟩
      obtain ⟨name, words, rfl⟩ : ∃ name words', words = name :: words' := by
        cases hspelled <;> exact ⟨_, _, rfl⟩
      exact ⟨name, _, ⟨name, rfl, rfl⟩, words, rfl, hspelled⟩
  · constructor
    · rintro (rfl | ⟨_, _, ⟨name, rfl, ⟨⟩⟩, hshort⟩)
      · exact .name
      · exact hshort
    · intro h
      cases h with
      | name => exact .inl rfl
      | controller letter => exact .inr ⟨_, _, ⟨_, rfl, rfl⟩, .controller letter⟩

/-! ## Mappings -/

/-- The arguments of a mapping are put together unless the range is reversed. -/
theorem spec_declared (input : Input) (window? : Option MotionMidi.Window) (target : Target) :
    (match window? with
      | none => return { input, window := none, target, ordered := by simp }
      | some w =>
        if ordered : w.Ordered then
          return { input, window := some w, target, ordered := by simpa using ordered }
        else fail (.malformed w.toLo.position) : Reader Declaration).Spec
      (fun tokens declaration rest => (declaration.input = input ∧ declaration.window = window? ∧
        declaration.target = target) ∧ rest = tokens)
      fun _ => False := by
  cases window? with
  | none =>
    refine (Spec.pure _).of_iff (fun tokens declaration rest => ?_) fun _ => .rfl
    rw [Declaration.mk.injEq]
  | some w =>
    dsimp only
    split
    case isTrue ordered =>
      refine (Spec.pure _).of_iff (fun tokens declaration rest => ?_) fun _ => .rfl
      rw [Declaration.mk.injEq]
    case isFalse reversed =>
      refine (Spec.fail Fault.noConfusion).of_iff (fun tokens declaration rest => ?_) fun _ => .rfl
      refine iff_of_false id ?_
      rintro ⟨⟨-, hwindow, -⟩, -⟩
      exact reversed (declaration.ordered w hwindow)

theorem spec_declaration :
    declaration.Spec
      (fun tokens declaration rest =>
        ∃ words, tokens = words ++ rest ∧ Command.Spelled 'M' words (.map declaration))
      (Command.CutShort 'M') := by
  refine (Spec.word.bind fun input => spec_window.bind fun window? => spec_target.bind fun target =>
    spec_declared input window? target).of_iff (fun tokens declaration rest => ?_) fun tokens => ?_
  · constructor
    · rintro ⟨_, _, ⟨token, rfl, hinput⟩, _, _, ⟨words, rfl, hwindow, -⟩, _, _,
        ⟨words', rfl, htarget⟩, ⟨rfl, rfl, rfl⟩, rfl⟩
      refine ⟨token :: (words ++ words'), ?_, .map hinput hwindow htarget⟩
      rw [List.cons_append, List.append_assoc]
    · rintro ⟨words, rfl, hspelled⟩
      cases hspelled with
      | map input window target =>
        rw [List.cons_append, List.append_assoc]
        exact ⟨_, _, ⟨_, rfl, input⟩, _, _, ⟨_, rfl, window, fun _ => target.isAlpha_head rest⟩,
          _, _, ⟨_, rfl, target⟩, ⟨rfl, rfl, rfl⟩, rfl⟩
  · constructor
    · rintro (rfl | ⟨_, _, ⟨token, rfl, hinput⟩, hwindow | ⟨_, _, ⟨words, rfl, hwindow, -⟩,
        htarget | ⟨_, _, -, ⟨⟩⟩⟩⟩)
      · exact .argument (by decide)
      · exact .window hinput hwindow
      · exact .target hinput hwindow htarget
    · generalize hletter : 'M' = letter
      intro h
      cases h with
      | argument => exact .inl rfl
      | octave => cases hletter
      | window name window => exact .inr ⟨_, _, ⟨_, rfl, name⟩, .inl window⟩
      | target name window target =>
        exact .inr ⟨_, _, ⟨_, rfl, name⟩, .inr ⟨_, _, ⟨_, rfl, window, fun _ =>
          target.isAlpha_head⟩, .inl target⟩⟩

/-! ## Scales -/

theorem mapM_understand_eq_ok_iff {parse? : Token → Option α} {tokens : List Token}
    {values : List α} :
    tokens.mapM (understand parse?) = .ok values ↔
      List.Forall₂ (parse? · = some ·) tokens values := by
  induction tokens generalizing values with
  | nil =>
    rw [List.mapM_nil, List.forall₂_nil_left_iff]
    exact ⟨fun h => (Except.ok.inj h).symm, fun h => congrArg Except.ok h.symm⟩
  | cons token tokens ih =>
    rw [List.mapM_cons, List.forall₂_cons_left_iff]
    constructor
    · intro h
      simp only [bind, Except.bind] at h
      split at h
      case h_1 => cases h
      case h_2 a hread =>
        split at h
        case h_1 => cases h
        case h_2 more hmore =>
          cases h
          exact ⟨a, more, understand_eq_ok_iff.mp hread, ih.mp hmore, rfl⟩
    · rintro ⟨a, more, hread, hmore, rfl⟩
      rw [understand_ok hread]
      simp only [bind, Except.bind, ih.mpr hmore]
      rfl

/-- A word that is there is not missing. -/
theorem mapM_understand_ne_missing {parse? : Token → Option α} (tokens : List Token) :
    tokens.mapM (understand parse?) ≠ .error .missing := by
  intro h
  induction tokens with
  | nil => cases h
  | cons token tokens ih =>
    rw [List.mapM_cons, understand] at h
    cases hread : parse? token with
    | none =>
      rw [hread] at h
      cases h
    | some a =>
      rw [hread] at h
      simp only [bind, Except.bind] at h
      split at h
      case h_1 fault hmore =>
        cases h
        exact ih hmore
      case h_2 => cases h

theorem spec_intervals :
    intervals.Spec
      (fun tokens literals rest => ∃ words, tokens = words ++ rest ∧
        Command.Spelled 'S' words (.scale literals) ∧ Command.Ends 'S' rest)
      fun _ => False where
  ok_iff := by
    intro tokens literals rest
    constructor
    · intro h
      simp only [intervals, bind, Except.bind] at h
      split at h
      case h_1 => cases h
      case h_2 values hvalues =>
      split at h
      case isTrue => cases h
      case isFalse hfew =>
      cases h
      rw [Nat.not_lt] at hfew
      rw [List.take_of_length_le hfew] at hvalues
      refine ⟨_, List.takeWhile_append_dropWhile.symm,
        .scale (mapM_understand_eq_ok_iff.mp hvalues) ?_ hfew, fun _ token htoken => ?_⟩
      · intro token htoken
        exact List.mem_takeWhile_imp (p := fun token : Token => token.first.isDigit) htoken
      · have hhead := List.head?_dropWhile_not (fun token : Token => token.first.isDigit) tokens
        rw [Option.mem_def.mp htoken] at hhead
        simpa using hhead
    · rintro ⟨words, rfl, hspelled, hends⟩
      cases hspelled with
      | scale integers digits few =>
      have hrest : rest.takeWhile (·.first.isDigit) = [] ∧
          rest.dropWhile (·.first.isDigit) = rest := by
        cases rest with
        | nil => exact ⟨rfl, rfl⟩
        | cons token rest => simp [hends rfl token rfl]
      simp only [intervals, List.takeWhile_append_of_pos digits,
        List.dropWhile_append_of_pos digits, hrest, List.append_nil, List.take_of_length_le few,
        mapM_understand_eq_ok_iff.mpr integers, bind, Except.bind, if_neg (Nat.not_lt.mpr few)]
      rfl
  missing_iff := by
    intro tokens
    refine iff_false_intro fun h => ?_
    simp only [intervals, bind, Except.bind] at h
    split at h
    case h_1 fault hread =>
      cases h
      exact mapM_understand_ne_missing _ hread
    case h_2 => split at h <;> cases h

end Reader

namespace Command

open Reader

variable {declared : Nat} {name : Token} {tokens rest : List Token} {command : Command}

/-! ## Commands -/

theorem Ends.of_ne {letter : Char} (h : letter ≠ 'S') (rest : List Token) : Ends letter rest :=
  fun hscale => absurd hscale h

theorem CutShort.mem {letter : Char} (h : CutShort letter tokens) :
    letter ∈ ['C', 'R', 'O', 'B', 'D', 'M'] := by
  cases h with
  | argument takes => exact takes
  | _ => decide

/-- A command of one argument is cut short if there is none. -/
theorem CutShort.iff_eq_nil {letter : Char} (h : letter ∈ ['C', 'R', 'B', 'D']) :
    CutShort letter tokens ↔ tokens = [] := by
  constructor
  · rintro (_ | _ | _ | _)
    · rfl
    all_goals exact absurd h (by decide)
  · rintro rfl
    simp only [List.mem_cons, List.not_mem_nil, or_false] at h
    rcases h with rfl | rfl | rfl | rfl <;> exact .argument (by decide)

variable (declared) in
/-- What a command takes: the words that spell its arguments, as long as there is room for it. -/
def Taken (letter : Char) (tokens : List Token) (command : Command) (rest : List Token) : Prop :=
  ∃ arguments, tokens = arguments ++ rest ∧ Spelled letter arguments command ∧ Ends letter rest ∧
    (letter = 'M' → declared ≠ maxMappings)

/-- A command of one argument. -/
theorem spec_argument {α : Type} {parse? : Token → Option α} {f : α → Command} {letter : Char}
    (h : letter ∈ ['C', 'R', 'B', 'D'])
    (hspelled : ∀ words command, Spelled letter words command ↔
      ∃ token a, words = [token] ∧ parse? token = some a ∧ command = f a) :
    (f <$> word parse?).Spec (Taken declared letter) fun tokens =>
      CutShort letter tokens ∧ (letter = 'M' → declared ≠ maxMappings) := by
  have hother : letter ≠ 'S' ∧ letter ≠ 'M' := by
    constructor <;> rintro rfl <;> exact absurd h (by decide)
  refine (Spec.word.map f).of_iff (fun tokens command rest => ?_) fun tokens => ?_
  · constructor
    · rintro ⟨a, ⟨token, rfl, hparse⟩, rfl⟩
      exact ⟨[token], rfl, (hspelled _ _).mpr ⟨token, a, rfl, hparse, rfl⟩, .of_ne hother.1 rest,
        fun hmap => absurd hmap hother.2⟩
    · rintro ⟨words, rfl, hwords, -⟩
      obtain ⟨token, a, rfl, hparse, rfl⟩ := (hspelled _ _).mp hwords
      exact ⟨a, ⟨token, rfl, hparse⟩, rfl⟩
  · simp [CutShort.iff_eq_nil h, hother.2]

theorem spec_octaves :
    (octaves <$> Reader.integer .octave <*> Reader.integer .octave).Spec (Taken declared 'O')
      fun tokens => CutShort 'O' tokens ∧ ('O' = 'M' → declared ≠ maxMappings) := by
  have hspec : ((octaves <$> Reader.integer .octave) >>= fun f =>
      f <$> Reader.integer .octave).Spec _ _ :=
    (Spec.word.map octaves).bind fun f => Spec.word.map f
  refine hspec.of_iff (fun tokens command rest => ?_) fun tokens => ?_
  · constructor
    · rintro ⟨_, _, ⟨first, ⟨token, rfl, hfirst⟩, rfl⟩, last, ⟨token', rfl, hlast⟩, rfl⟩
      exact ⟨[token, token'], rfl, .octaves hfirst hlast, .of_ne (by decide) rest, nofun⟩
    · rintro ⟨words, rfl, hspelled, -⟩
      cases hspelled with
      | octaves integer integer' =>
        exact ⟨_, _, ⟨_, ⟨_, rfl, integer⟩, rfl⟩, _, ⟨_, rfl, integer'⟩, rfl⟩
  · constructor
    · rintro (rfl | ⟨_, _, ⟨first, ⟨token, rfl, hfirst⟩, rfl⟩, rfl⟩)
      · exact ⟨.argument (by decide), nofun⟩
      · exact ⟨.octave hfirst, nofun⟩
    · rintro ⟨hshort, -⟩
      generalize hletter : 'O' = letter at hshort
      cases hshort with
      | argument => exact .inl rfl
      | octave integer => exact .inr ⟨_, _, ⟨_, ⟨_, rfl, integer⟩, rfl⟩, rfl⟩
      | window => cases hletter
      | target => cases hletter

theorem spec_reader (declared : Nat) (name : Token) :
    (reader declared name).Spec (Taken declared name.first) fun tokens =>
      CutShort name.first tokens ∧ (name.first = 'M' → declared ≠ maxMappings) := by
  unfold reader
  -- One case for each command, in the order in which the reader tells them apart.
  split
  case h_1 hname =>
    rw [hname]
    refine spec_argument (by decide) fun words command => ⟨fun h => ?_, ?_⟩
    · cases h with
      | channel integer => exact ⟨_, _, rfl, integer, rfl⟩
    · rintro ⟨token, a, rfl, integer, rfl⟩
      exact .channel integer
  case h_2 hname =>
    rw [hname]
    refine spec_argument (by decide) fun words command => ⟨fun h => ?_, ?_⟩
    · cases h with
      | root pitch => exact ⟨_, _, rfl, pitch, rfl⟩
    · rintro ⟨token, key, rfl, pitch, rfl⟩
      exact .root pitch
  case h_3 hname =>
    rw [hname]
    refine (spec_intervals.map Command.scale).of_iff (fun tokens command rest => ?_)
      fun tokens => ?_
    · constructor
      · rintro ⟨literals, ⟨words, rfl, hspelled, hends⟩, rfl⟩
        exact ⟨words, rfl, hspelled, hends, nofun⟩
      · rintro ⟨words, rfl, hspelled, hends, -⟩
        cases hspelled with
        | scale integers digits few => exact ⟨_, ⟨_, rfl, .scale integers digits few, hends⟩, rfl⟩
    · exact ⟨False.elim, fun hshort => absurd hshort.1.mem (by decide)⟩
  case h_4 hname =>
    rw [hname]
    exact spec_octaves
  case h_5 hname =>
    rw [hname]
    refine spec_argument (by decide) fun words command => ⟨fun h => ?_, ?_⟩
    · cases h with
      | tempo integer => exact ⟨_, _, rfl, integer, rfl⟩
    · rintro ⟨token, a, rfl, integer, rfl⟩
      exact .tempo integer
  case h_6 hname =>
    rw [hname]
    refine spec_argument (by decide) fun words command => ⟨fun h => ?_, ?_⟩
    · cases h with
      | division number => exact ⟨_, _, rfl, number, rfl⟩
    · rintro ⟨token, a, rfl, number, rfl⟩
      exact .division number
  case h_7 hname =>
    rw [hname]
    split
    case isTrue hfull =>
      refine (Spec.fail Fault.noConfusion).of_iff (fun tokens command rest => ?_) fun tokens => ?_
      · exact iff_of_false id fun ⟨_, _, _, _, hroom⟩ => hroom rfl hfull
      · exact iff_of_false id fun hshort => hshort.2 rfl hfull
    case isFalse hroom =>
      refine (spec_declaration.map Command.map).of_iff (fun tokens command rest => ?_)
        fun tokens => ?_
      · constructor
        · rintro ⟨declaration, ⟨words, rfl, hspelled⟩, rfl⟩
          exact ⟨words, rfl, hspelled, .of_ne (by decide) rest, fun _ => hroom⟩
        · rintro ⟨words, rfl, hspelled, -⟩
          cases hspelled with
          | map input window target => exact ⟨_, ⟨_, rfl, .map input window target⟩, rfl⟩
      · exact (and_iff_left fun _ => hroom).symm
  case h_8 hname =>
    rw [hname]
    refine (Spec.pure _).of_iff (fun tokens command rest => ?_) fun tokens => ?_
    · constructor
      · rintro ⟨rfl, rfl⟩
        exact ⟨[], rfl, .finish, .of_ne (by decide) _, nofun⟩
      · rintro ⟨words, rfl, ⟨⟩, -⟩
        exact ⟨rfl, rfl⟩
    · exact ⟨False.elim, fun hshort => absurd hshort.1.mem (by decide)⟩
  case h_9 hc hr hs ho hb hd hm he =>
    refine (Spec.fail Fault.noConfusion).of_iff (fun tokens command rest => ?_) fun tokens => ?_
    · refine iff_of_false id ?_
      rintro ⟨words, rfl, hspelled, -⟩
      generalize name.first = letter at *
      cases hspelled <;> contradiction
    · refine iff_of_false id fun hshort => ?_
      have hmem := hshort.1.mem
      simp only [List.mem_cons, List.not_mem_nil, or_false] at hmem
      tauto

/-- A command is read exactly if the text starts with words that spell its arguments. -/
theorem reader_eq_ok_iff :
    reader declared name tokens = .ok (command, rest) ↔
      ∃ arguments, tokens = arguments ++ rest ∧ Spelled name.first arguments command ∧
        Ends name.first rest ∧ (name.first = 'M' → declared ≠ maxMappings) :=
  (spec_reader declared name).ok_iff

theorem reader_ok {arguments : List Token} (h : Spelled name.first arguments command)
    (hends : Ends name.first rest) (hroom : name.first = 'M' → declared ≠ maxMappings) :
    reader declared name (arguments ++ rest) = .ok (command, rest) :=
  reader_eq_ok_iff.mpr ⟨arguments, rfl, h, hends, hroom⟩

/-- A command stops for want of a word exactly if it is cut short. No mapping is looked at once
there is no more room for it. -/
theorem reader_eq_missing_iff :
    reader declared name tokens = .error .missing ↔
      CutShort name.first tokens ∧ (name.first = 'M' → declared ≠ maxMappings) :=
  (spec_reader declared name).missing_iff

theorem Spelled.ne_hash {letter : Char} (h : Spelled letter tokens command) : letter ≠ '#' := by
  cases h <;> decide

theorem Spelled.declaration?_isSome {letter : Char} (h : Spelled letter tokens command) :
    command.declaration?.isSome ↔ letter = 'M' := by
  cases h <;> simp [declaration?]

/-- The reader of a mapping looks for room, so there is room for what comes of it. -/
theorem room_of_reader (h : reader declared name tokens = .ok (command, rest))
    (hroom : declared ≤ maxMappings) :
    declared + command.declaration?.toList.length ≤ maxMappings := by
  obtain ⟨arguments, rfl, hspelled, -, hfree⟩ := reader_eq_ok_iff.mp h
  cases hdeclaration : command.declaration? with
  | none => exact hroom
  | some declaration =>
    have := hfree (hspelled.declaration?_isSome.mp (by rw [hdeclaration]; rfl))
    rw [Option.toList_some, List.length_singleton]
    omega

end Command

end MotionMidi
