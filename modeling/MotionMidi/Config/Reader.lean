import MotionMidi.Config.Command
import MotionMidi.Error

/-!
# Reading commands

Turns the words of a configuration text into commands.

## Main definitions

- `Fault` — what stops the reading
- `Reader` — takes words off the front of the text, or stops with a fault
- `Command.reader` — the arguments of a command word
- `Command.readAll` — the commands of a list of words, comments left out
- `Command.parse` — the commands of a text

## Design notes

A reader hands back a suffix of the words it was given (`Reader.Consumes`), so reading command
after command ends. A text that stops short of an argument is at fault at its very end; only
`Command.parse` knows where that is, so `Fault` says that a word is missing and nothing more.
-/

namespace MotionMidi

/-- The largest number of mappings in a configuration. -/
def maxMappings : Nat := 10

/-- The largest number of intervals in a scale. -/
def maxScaleNotes : Nat := 16

/-- What stops the reading of commands. -/
inductive Fault where
  /-- The text ends where a word is expected. -/
  | missing
  /-- The word at this byte offset is not what is expected there. -/
  | malformed (position : Nat)
  | tooManyMappings
  | tooManyScaleNotes
  deriving DecidableEq, Repr

/-- The error for a fault in a text of so many bytes. -/
def Fault.error (length : Nat) : Fault → Error
  | .missing => .malformedToken length
  | .malformed position => .malformedToken position
  | .tooManyMappings => .tooManyMappings
  | .tooManyScaleNotes => .tooManyScaleNotes

/-- Takes words off the front of the text. -/
abbrev Reader (α : Type) := StateT (List Token) (Except Fault) α

namespace Reader

variable {α β : Type}

/-- Understands a word. -/
def understand (parse? : Token → Option α) (token : Token) : Except Fault α :=
  match parse? token with
  | some a => .ok a
  | none => .error (.malformed token.position)

/-- Takes one word and understands it. -/
def word (parse? : Token → Option α) : Reader α
  | [] => .error .missing
  | token :: rest => (understand parse? token).map (·, rest)

/-- Stops the reading. -/
def fail (fault : Fault) : Reader α :=
  fun _ => .error fault

/-! ## Composites -/

variable {reader : Reader α} {parse? : Token → Option α} {token : Token} {tokens rest : List Token}
  {a : α}

theorem understand_eq_ok_iff : understand parse? token = .ok a ↔ parse? token = some a := by
  rw [understand]
  cases parse? token <;> simp

theorem understand_ok (h : parse? token = some a) : understand parse? token = .ok a :=
  understand_eq_ok_iff.mpr h

theorem word_eq_ok_iff :
    word parse? tokens = .ok (a, rest) ↔
      ∃ token, tokens = token :: rest ∧ parse? token = some a := by
  constructor
  · intro h
    cases tokens with
    | nil => cases h
    | cons token tokens =>
      rw [word] at h
      cases hread : understand parse? token with
      | error fault =>
        rw [hread] at h
        cases h
      | ok value =>
        rw [hread] at h
        cases h
        exact ⟨token, rfl, understand_eq_ok_iff.mp hread⟩
  · rintro ⟨token, rfl, h⟩
    rw [word, understand_ok h]
    rfl

theorem word_ok (h : parse? token = some a) (rest : List Token) :
    word parse? (token :: rest) = .ok (a, rest) :=
  word_eq_ok_iff.mpr ⟨token, rfl, h⟩

theorem bind_ok (h : reader tokens = .ok (a, rest)) (next : α → Reader β) :
    (reader >>= next) tokens = next a rest := by
  simp only [bind, StateT.bind, h, Except.bind]

theorem bind_error {fault : Fault} (h : reader tokens = .error fault) (next : α → Reader β) :
    (reader >>= next) tokens = .error fault := by
  simp only [bind, StateT.bind, h, Except.bind]

/-- What a composite reads, its parts read one after the other. -/
theorem bind_eq_ok_iff {next : α → Reader β} {b : β} :
    (reader >>= next) tokens = .ok (b, rest) ↔
      ∃ a middle, reader tokens = .ok (a, middle) ∧ next a middle = .ok (b, rest) := by
  constructor
  · intro h
    cases hfirst : reader tokens with
    | error fault =>
      rw [bind_error hfirst] at h
      cases h
    | ok outcome =>
      rw [bind_ok hfirst] at h
      exact ⟨outcome.1, outcome.2, rfl, h⟩
  · rintro ⟨a, middle, hfirst, hnext⟩
    rw [bind_ok hfirst, hnext]

theorem map_eq_ok_iff {f : α → β} {b : β} :
    (f <$> reader) tokens = .ok (b, rest) ↔ ∃ a, reader tokens = .ok (a, rest) ∧ f a = b := by
  change (reader >>= fun a => pure (f a)) tokens = _ ↔ _
  rw [bind_eq_ok_iff]
  constructor
  · rintro ⟨a, middle, hfirst, ⟨⟩⟩
    exact ⟨a, hfirst, rfl⟩
  · rintro ⟨a, hfirst, rfl⟩
    exact ⟨a, rest, hfirst, rfl⟩

theorem map_ok (h : reader tokens = .ok (a, rest)) (f : α → β) :
    (f <$> reader) tokens = .ok (f a, rest) :=
  map_eq_ok_iff.mpr ⟨a, h, rfl⟩

/-! ## What is left of the words -/

/-- The reader hands back a suffix of the words it was given. -/
def Consumes (reader : Reader α) : Prop :=
  ∀ tokens a rest, reader tokens = .ok (a, rest) → rest <:+ tokens

theorem Consumes.pure (a : α) : (pure a : Reader α).Consumes := by
  intro tokens b rest h
  cases h
  exact List.suffix_refl _

theorem Consumes.fail (fault : Fault) : (fail fault : Reader α).Consumes := by
  intro tokens a rest h
  cases h

theorem Consumes.word (parse? : Token → Option α) : (word parse?).Consumes := by
  intro tokens a rest h
  obtain ⟨token, rfl, -⟩ := word_eq_ok_iff.mp h
  exact List.suffix_cons _ _

theorem Consumes.bind {reader : Reader α} {next : α → Reader β} (first : reader.Consumes)
    (second : ∀ a, (next a).Consumes) : (reader >>= next).Consumes := by
  intro tokens b rest h
  obtain ⟨a, middle, hfirst, hnext⟩ := bind_eq_ok_iff.mp h
  exact (second a _ _ _ hnext).trans (first _ _ _ hfirst)

theorem Consumes.map (f : α → β) {reader : Reader α} (h : reader.Consumes) :
    (f <$> reader).Consumes :=
  h.bind fun a => .pure (f a)

theorem Consumes.seq {f : Reader (α → β)} {reader : Reader α} (hf : f.Consumes)
    (h : reader.Consumes) : (f <*> reader).Consumes :=
  hf.bind fun f => h.map f

/-! ## Arguments -/

/-- An integer for a field. -/
def literal? (field : Field) (token : Token) : Option Literal :=
  (Numeral.integer? token.chars).map fun value => { field, position := token.position, value }

/-- Takes an integer for a field. -/
def integer (field : Field) : Reader Literal :=
  word (literal? field)

/-- Takes a finite number. -/
def number : Reader Binary32 :=
  word fun token => Binary32.parse? token.chars

/-- Takes the words that start with a digit; each has to be an interval, and there may be no more
than a scale holds. -/
def intervals : Reader (List Literal) := fun tokens => do
  let numerals := tokens.takeWhile (·.first.isDigit)
  let intervals ← (numerals.take maxScaleNotes).mapM (understand (literal? .interval))
  if maxScaleNotes < numerals.length then throw .tooManyScaleNotes
  return (intervals, tokens.dropWhile (·.first.isDigit))

theorem consumes_intervals : intervals.Consumes := by
  intro tokens a rest h
  simp only [intervals, bind, Except.bind] at h
  split at h
  · cases h
  · split at h
    · cases h
    · cases h
      exact List.dropWhile_suffix _

/-- Takes a window, unless the next word starts with a letter or there is none. -/
def window : Reader (Option Window) := do
  match (← get).head? with
  | none => return none
  | some token =>
    if token.first.isAlpha then return none
    else
      let fromLo ← number
      let fromHi ← number
      let toLo ← integer .output
      let toHi ← integer .output
      return some { fromLo, fromHi, toLo, toHi }

theorem consumes_window : window.Consumes := by
  refine .bind (fun _ _ _ h => by cases h; exact List.suffix_refl _) fun tokens => ?_
  split
  · exact .pure _
  · split
    · exact .pure _
    · exact .bind (.word _) fun _ => .bind (.word _) fun _ => .bind (.word _) fun _ =>
        .bind (.word _) fun _ => .pure _

/-- Takes a destination, told by the first letter of its word in either case, and the number of a
controller. -/
def target : Reader Target := do
  let token ← word some
  match token.first.toLower with
  | 'c' => return .controlChange (← integer .controller)
  | 'p' => return .pitchBend
  | 'n' => return .note
  | _ => fail (.malformed token.position)

theorem consumes_target : target.Consumes := by
  refine .bind (.word _) fun token => ?_
  split
  · exact .bind (.word _) fun _ => .pure _
  · exact .pure _
  · exact .pure _
  · exact .fail _

/-- Takes the arguments of `MAP`. A reversed output range is a fault of its lower bound. -/
def declaration : Reader Declaration := do
  let input ← word fun token => Input.parse? token.chars
  let window ← window
  let target ← target
  match window with
  | none => return { input, window := none, target, ordered := by simp }
  | some w =>
    if ordered : w.Ordered then
      return { input, window := some w, target, ordered := by simpa using ordered }
    else fail (.malformed w.toLo.position)

theorem consumes_declaration : declaration.Consumes := by
  refine .bind (.word _) fun input => .bind consumes_window fun window =>
    .bind consumes_target fun target => ?_
  split
  · exact .pure _
  · split
    · exact .pure _
    · exact .fail _

end Reader

namespace Command

open Reader

/-- Takes the arguments of the command that a word names, after so many mappings. -/
def reader (declared : Nat) (name : Token) : Reader Command :=
  match name.first with
  | 'C' => Command.channel <$> integer .channel
  | 'R' => Command.root <$> word fun token => Key.parse? token.chars
  | 'S' => Command.scale <$> intervals
  | 'O' => Command.octaves <$> integer .octave <*> integer .octave
  | 'B' => Command.tempo <$> integer .tempo
  | 'D' => Command.division <$> number
  | 'M' => if declared = maxMappings then fail .tooManyMappings else Command.map <$> declaration
  | 'E' => pure .finish
  | _ => fail (.malformed name.position)

theorem consumes_reader (declared : Nat) (name : Token) : (reader declared name).Consumes := by
  unfold reader
  split
  · exact .map _ (.word _)
  · exact .map _ (.word _)
  · exact .map _ consumes_intervals
  · exact .seq (.map _ (.word _)) (.word _)
  · exact .map _ (.word _)
  · exact .map _ (.word _)
  · split
    · exact .fail _
    · exact .map _ consumes_declaration
  · exact .pure _
  · exact .fail _

/-- The commands of a list of words, after so many mappings. Where a command is expected, a word
that starts with `#` is a comment, as are the words after it on the same line. -/
def readAll (declared : Nat) : List Token → Except Fault (List Command)
  | [] => .ok []
  | token :: rest =>
    if token.first = '#' then readAll declared (rest.dropWhile (!·.startsLine))
    else
      match _h : reader declared token rest with
      | .error fault => .error fault
      | .ok (command, rest') =>
        (readAll (declared + command.declaration?.toList.length) rest').map (command :: ·)
termination_by tokens => tokens.length
decreasing_by
  · have := (List.dropWhile_suffix (!·.startsLine) (l := rest)).length_le
    simp
    omega
  · have := (consumes_reader declared token _ _ _ _h).length_le
    simp
    omega

section Steps

variable {declared : Nat} {token : Token} {rest rest' : List Token} {command : Command}

@[simp] theorem readAll_nil (declared : Nat) : readAll declared [] = .ok [] := by
  rw [readAll]

/-- One step of the reading. -/
theorem readAll_cons (declared : Nat) (token : Token) (rest : List Token) :
    readAll declared (token :: rest) =
      if token.first = '#' then readAll declared (rest.dropWhile (!·.startsLine))
      else (reader declared token rest).bind fun outcome =>
        (readAll (declared + outcome.1.declaration?.toList.length) outcome.2).map
          (outcome.1 :: ·) := by
  rw [readAll]
  split
  case isTrue => rfl
  case isFalse =>
    split
    case h_1 h =>
      rw [h]
      rfl
    case h_2 h =>
      rw [h]
      rfl

theorem readAll_comment (hcomment : token.first = '#') :
    readAll declared (token :: rest) = readAll declared (rest.dropWhile (!·.startsLine)) := by
  rw [readAll_cons, if_pos hcomment]

theorem readAll_fault (hcommand : token.first ≠ '#') {fault : Fault}
    (h : reader declared token rest = .error fault) :
    readAll declared (token :: rest) = .error fault := by
  rw [readAll_cons, if_neg hcommand, h]
  rfl

theorem readAll_command (hcommand : token.first ≠ '#')
    (h : reader declared token rest = .ok (command, rest')) :
    readAll declared (token :: rest) =
      (readAll (declared + command.declaration?.toList.length) rest').map (command :: ·) := by
  rw [readAll_cons, if_neg hcommand, h]
  rfl

theorem readAll_command_eq_ok_iff (hcommand : token.first ≠ '#')
    (h : reader declared token rest = .ok (command, rest')) {commands : List Command} :
    readAll declared (token :: rest) = .ok commands ↔
      ∃ more, readAll (declared + command.declaration?.toList.length) rest' = .ok more ∧
        command :: more = commands := by
  rw [readAll_command hcommand h]
  cases readAll (declared + command.declaration?.toList.length) rest' <;> simp [Except.map]

theorem readAll_command_eq_error_iff (hcommand : token.first ≠ '#')
    (h : reader declared token rest = .ok (command, rest')) {fault : Fault} :
    readAll declared (token :: rest) = .error fault ↔
      readAll (declared + command.declaration?.toList.length) rest' = .error fault := by
  rw [readAll_command hcommand h]
  cases readAll (declared + command.declaration?.toList.length) rest' <;> simp [Except.map]

end Steps

/-- The commands of a text. -/
def parse (text : List Char) : Except Error (List Command) :=
  (readAll 0 (Token.scan text)).mapError (Fault.error (byteLength text))

end Command

end MotionMidi
