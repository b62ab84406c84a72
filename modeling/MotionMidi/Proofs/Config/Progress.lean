import Mathlib.Logic.Relation
import MotionMidi.Proofs.Config.Accepted

/-!
# The progress of reading

A text is read command by command, and a scale interval by interval. At no point, whether or not the
text turns out to be acceptable, more was read than a configuration has room for.

## Main definitions

- `Progress` — what was read of a text, and the words that are left
- `Progress.Step` — one more comment, command, or interval is read
- `Progress.outcome` — what the reading comes to from some point on
- `Progress.Room` — what was read fits into a configuration

Main statements: `Progress.Step.outcome_eq`, `Progress.readAll_eq_ok_iff`,
`Progress.room_of_steps`.
-/

namespace MotionMidi

/-! ## Intervals -/

namespace Reader

/-- Takes the intervals of a scale one by one, after those that were taken already. -/
def intervalsFrom (intervals : List Literal) : Reader (List Literal)
  | [] => .ok (intervals, [])
  | token :: rest =>
    if token.first.isDigit then
      if intervals.length = maxScaleNotes then .error .tooManyScaleNotes
      else (understand (literal? .interval) token).bind fun literal =>
        intervalsFrom (intervals ++ [literal]) rest
    else .ok (intervals, token :: rest)

/-- Taking the intervals one by one comes to the same as looking at all of them first. -/
theorem intervalsFrom_eq {taken : List Literal} (h : taken.length ≤ maxScaleNotes)
    (tokens : List Token) :
    intervalsFrom taken tokens =
      (((tokens.takeWhile (·.first.isDigit)).take (maxScaleNotes - taken.length)).mapM
        (understand (literal? .interval))).bind fun more =>
          if maxScaleNotes < taken.length + (tokens.takeWhile (·.first.isDigit)).length then
            .error .tooManyScaleNotes
          else .ok (taken ++ more, tokens.dropWhile (·.first.isDigit)) := by
  induction tokens generalizing taken with
  | nil =>
    have hend : ¬maxScaleNotes < taken.length := Nat.not_lt.mpr h
    simp [intervalsFrom, Except.bind, pure, Except.pure, hend]
  | cons token tokens ih =>
    by_cases hdigit : token.first.isDigit = true
    case neg =>
      have hend : ¬maxScaleNotes < taken.length := Nat.not_lt.mpr h
      simp [intervalsFrom, Except.bind, pure, Except.pure, hend, hdigit]
    rw [intervalsFrom, if_pos hdigit, List.takeWhile_cons, if_pos hdigit, List.dropWhile_cons,
      if_pos hdigit, List.length_cons]
    split
    case isTrue hfull =>
      rw [hfull, Nat.sub_self, List.take_zero, List.mapM_nil, pure, Except.instMonad]
      exact (if_pos (by omega)).symm
    case isFalse hroom =>
      obtain ⟨room, hleft⟩ : ∃ room, maxScaleNotes - taken.length = room + 1 :=
        ⟨maxScaleNotes - taken.length - 1, by omega⟩
      rw [hleft, List.take_succ_cons, List.mapM_cons]
      cases understand (literal? .interval) token with
      | error fault => rfl
      | ok literal =>
        have hlength : (taken ++ [literal]).length = taken.length + 1 := by
          rw [List.length_append, List.length_singleton]
        have hmore : maxScaleNotes - (taken ++ [literal]).length = room := by omega
        rw [Except.bind, ih (by omega), hmore, hlength]
        cases ((tokens.takeWhile (·.first.isDigit)).take room).mapM
            (understand (literal? .interval)) with
        | error fault => rfl
        | ok more =>
          simp only [Except.bind, bind, pure, Except.pure, List.append_assoc,
            List.singleton_append, Nat.add_assoc, Nat.add_comm 1]

theorem intervals_eq_intervalsFrom : intervals = intervalsFrom [] := by
  funext tokens
  rw [intervalsFrom_eq (Nat.zero_le _)]
  simp only [List.length_nil, Nat.sub_zero, Nat.zero_add, List.nil_append]
  rw [intervals]
  rfl

end Reader

/-! ## Steps -/

open Reader

/-- What was read of a text. -/
structure Progress where
  /-- The commands that were read. -/
  done : List Command
  /-- The intervals that were read of a scale that goes on. -/
  scale : Option (List Literal)
  /-- The words that are left. -/
  rest : List Token

namespace Progress

/-- Nothing was read of a text. -/
def start (text : String) : Progress :=
  ⟨[], none, Token.scan text.toList⟩

/-- The mappings that some commands declare. -/
def declared (commands : List Command) : List Declaration :=
  commands.filterMap Command.declaration?

/-- One more comment, command, or interval is read. A scale is read interval by interval, and every
other command at once. -/
inductive Step : Progress → Progress → Prop where
  | comment {done : List Command} {token : Token} {rest : List Token}
      (hash : token.first = '#') :
      Step ⟨done, none, token :: rest⟩ ⟨done, none, rest.dropWhile (!·.startsLine)⟩
  | command {done : List Command} {token : Token} {rest rest' : List Token} {command : Command}
      (name : token.first ≠ '#' ∧ token.first ≠ 'S')
      (read : Command.reader (declared done).length token rest = .ok (command, rest')) :
      Step ⟨done, none, token :: rest⟩ ⟨done ++ [command], none, rest'⟩
  | opens {done : List Command} {token : Token} {rest : List Token} (name : token.first = 'S') :
      Step ⟨done, none, token :: rest⟩ ⟨done, some [], rest⟩
  | interval {done : List Command} {intervals : List Literal} {token : Token} {literal : Literal}
      {rest : List Token} (digit : token.first.isDigit)
      (room : intervals.length ≠ maxScaleNotes)
      (read : understand (literal? .interval) token = .ok literal) :
      Step ⟨done, some intervals, token :: rest⟩ ⟨done, some (intervals ++ [literal]), rest⟩
  | closes {done : List Command} {intervals : List Literal} {rest : List Token}
      (word : ∀ token ∈ rest.head?, ¬token.first.isDigit) :
      Step ⟨done, some intervals, rest⟩ ⟨done ++ [.scale intervals], none, rest⟩

/-- Where a command is expected, the commands that are read in the end, or the fault that stops the
reading. -/
def resume (done : List Command) (rest : List Token) : Except Fault (List Command) :=
  (Command.readAll (declared done).length rest).map (done ++ ·)

/-- The commands that are read in the end, or the fault that stops the reading. -/
def outcome : Progress → Except Fault (List Command)
  | ⟨done, none, rest⟩ => resume done rest
  | ⟨done, some intervals, rest⟩ => (intervalsFrom intervals rest).bind fun (scale, rest) =>
    resume (done ++ [.scale scale]) rest

variable {done : List Command} {command : Command} {token : Token} {rest rest' : List Token}
  {intervals : List Literal}

theorem declared_append (done : List Command) (command : Command) :
    (declared (done ++ [command])).length =
      (declared done).length + command.declaration?.toList.length := by
  rw [declared, List.filterMap_append, List.length_append, declared]
  cases h : command.declaration? <;> simp [h]

@[simp] theorem resume_nil : resume done [] = .ok done := by
  simp [resume, Except.map]

theorem resume_comment (h : token.first = '#') :
    resume done (token :: rest) = resume done (rest.dropWhile (!·.startsLine)) := by
  rw [resume, Command.readAll_comment h, resume]

theorem resume_fault (hname : token.first ≠ '#') {fault : Fault}
    (h : Command.reader (declared done).length token rest = .error fault) :
    resume done (token :: rest) = .error fault := by
  rw [resume, Command.readAll_fault hname h, Except.map]

theorem resume_command (hname : token.first ≠ '#')
    (h : Command.reader (declared done).length token rest = .ok (command, rest')) :
    resume done (token :: rest) = resume (done ++ [command]) rest' := by
  rw [resume, Command.readAll_command hname h, resume, declared_append]
  cases Command.readAll ((declared done).length + command.declaration?.toList.length) rest' with
  | error fault => rfl
  | ok more => simp only [Except.map, List.append_assoc, List.singleton_append]

theorem reader_scale (h : token.first = 'S') (declared : Nat) :
    Command.reader declared token rest =
      (intervalsFrom [] rest).map fun (scale, rest) => (.scale scale, rest) := by
  unfold Command.reader
  rw [h, intervals_eq_intervalsFrom]
  change Except.bind _ _ = _
  cases intervalsFrom [] rest <;> rfl

theorem name_ne_of_scale (h : token.first = 'S') : token.first ≠ '#' := by
  rw [h]
  decide

theorem resume_scale (h : token.first = 'S') :
    resume done (token :: rest) = (intervalsFrom [] rest).bind fun (scale, rest) =>
      resume (done ++ [.scale scale]) rest := by
  cases hscale : intervalsFrom [] rest with
  | error fault =>
    refine resume_fault (name_ne_of_scale h) ?_
    rw [reader_scale h, hscale, Except.map]
  | ok scale =>
    refine resume_command (name_ne_of_scale h) ?_
    rw [reader_scale h, hscale, Except.map]

theorem intervalsFrom_of_word (h : ∀ token ∈ rest.head?, ¬token.first.isDigit) :
    intervalsFrom intervals rest = .ok (intervals, rest) := by
  cases rest with
  | nil => rfl
  | cons token rest => rw [intervalsFrom, if_neg (h token rfl)]

/-- Steps lead to what the text comes to. -/
theorem Step.outcome_eq {progress next : Progress} (h : Step progress next) :
    progress.outcome = next.outcome := by
  cases h with
  | comment hash => exact resume_comment hash
  | command name read => exact resume_command name.1 read
  | opens name => exact resume_scale name
  | interval digit room read =>
    rw [outcome, intervalsFrom, if_pos digit, if_neg room, read]
    rfl
  | @closes done intervals rest word =>
    change (intervalsFrom intervals rest).bind _ = _
    rw [intervalsFrom_of_word word]
    rfl

theorem outcome_eq_of_steps {progress next : Progress}
    (h : Relation.ReflTransGen Step progress next) : progress.outcome = next.outcome := by
  induction h with
  | refl => rfl
  | tail _ hstep ih => exact ih.trans hstep.outcome_eq

/-- A scale that can be read is read interval by interval. -/
theorem steps_of_intervalsFrom {scale : List Literal}
    (h : intervalsFrom intervals rest = .ok (scale, rest')) :
    Relation.ReflTransGen Step ⟨done, some intervals, rest⟩
      ⟨done ++ [.scale scale], none, rest'⟩ := by
  induction rest generalizing intervals with
  | nil =>
    cases h
    exact .single (.closes nofun)
  | cons token rest ih =>
    rw [intervalsFrom] at h
    split at h
    case isFalse hword =>
      cases h
      refine .single (.closes ?_)
      rintro _ ⟨⟩
      exact hword
    case isTrue hdigit =>
      split at h
      case isTrue => cases h
      case isFalse hroom =>
        cases hread : understand (literal? .interval) token with
        | error fault =>
          rw [hread] at h
          cases h
        | ok literal =>
          rw [hread] at h
          exact .head (.interval hdigit hroom hread) (ih h)

/-- A text that can be read is read to its end. -/
theorem steps_of_resume {commands : List Command} (h : resume done rest = .ok commands) :
    Relation.ReflTransGen Step ⟨done, none, rest⟩ ⟨commands, none, []⟩ := by
  induction hlength : rest.length using Nat.strongRecOn generalizing done rest with
  | ind length ih =>
  subst hlength
  cases rest with
  | nil =>
    rw [resume_nil] at h
    cases h
    exact .refl
  | cons token rest =>
    by_cases hhash : token.first = '#'
    case pos =>
      rw [resume_comment hhash] at h
      have hshorter := (List.dropWhile_suffix (!·.startsLine) (l := rest)).length_le
      exact .head (.comment hhash) (ih _ (Nat.lt_succ_of_le hshorter) h rfl)
    case neg =>
      cases hread : Command.reader (declared done).length token rest with
      | error fault =>
        rw [resume_fault hhash hread] at h
        cases h
      | ok taken =>
        obtain ⟨command, rest'⟩ := taken
        rw [resume_command hhash hread] at h
        have hshorter := (Command.consumes_reader _ _ _ _ _ hread).length_le
        have hrest := ih _ (Nat.lt_succ_of_le hshorter) h rfl
        by_cases hscale : token.first = 'S'
        case neg => exact .head (.command ⟨hhash, hscale⟩ hread) hrest
        case pos =>
          rw [reader_scale hscale] at hread
          cases hintervals : intervalsFrom [] rest with
          | error fault =>
            rw [hintervals] at hread
            cases hread
          | ok scale =>
            rw [hintervals] at hread
            cases hread
            exact .head (.opens hscale) ((steps_of_intervalsFrom hintervals).trans hrest)

/-- The commands of a text are those that are read when the whole text was read. -/
theorem readAll_eq_ok_iff {tokens : List Token} {commands : List Command} :
    Command.readAll 0 tokens = .ok commands ↔
      Relation.ReflTransGen Step ⟨[], none, tokens⟩ ⟨commands, none, []⟩ := by
  have hresume : resume [] tokens = Command.readAll 0 tokens := by
    rw [resume]
    change (Command.readAll 0 tokens).map id = _
    cases Command.readAll 0 tokens <;> rfl
  rw [← hresume]
  constructor
  · exact steps_of_resume
  · intro h
    exact (outcome_eq_of_steps h).trans resume_nil

/-! ## Room -/

/-- A note mapping whose range is left out, so that it will span the playable notes. -/
def SpansNotes (declaration : Declaration) : Prop :=
  declaration.window = none ∧ declaration.target = .note

instance (declaration : Declaration) : Decidable (SpansNotes declaration) :=
  inferInstanceAs (Decidable (_ ∧ _))

/-- What was read fits into a configuration. -/
structure Room (progress : Progress) : Prop where
  mappings : (declared progress.done).length ≤ maxMappings
  spanning : ((declared progress.done).filter (SpansNotes ·)).length ≤ maxMappings
  scale : ∀ intervals ∈ progress.scale, intervals.length ≤ maxScaleNotes
  scales : ∀ intervals, .scale intervals ∈ progress.done → intervals.length ≤ maxScaleNotes

theorem Room.of_declared {progress : Progress}
    (mappings : (declared progress.done).length ≤ maxMappings)
    (scale : ∀ intervals ∈ progress.scale, intervals.length ≤ maxScaleNotes)
    (scales : ∀ intervals, .scale intervals ∈ progress.done → intervals.length ≤ maxScaleNotes) :
    progress.Room :=
  ⟨mappings, Nat.le_trans (List.length_filter_le _ _) mappings, scale, scales⟩

/-- The reader of a mapping looks for room, as does that of an interval. -/
theorem Step.room {progress next : Progress} (h : Step progress next) (hroom : progress.Room) :
    next.Room := by
  obtain ⟨hmappings, -, hscale, hscales⟩ := hroom
  cases h with
  | comment hash => exact .of_declared hmappings hscale hscales
  | @command done token rest rest' command name read =>
    refine .of_declared ?_ nofun ?_
    · rw [declared_append]
      exact Command.room_of_reader read hmappings
    · intro intervals hintervals
      rcases List.mem_append.mp hintervals with hdone | hlast
      · exact hscales intervals hdone
      · obtain ⟨arguments, -, hspelled, -⟩ := Command.reader_eq_ok_iff.mp read
        cases List.mem_singleton.mp hlast
        exact hspelled.typed.1
  | opens name =>
    refine .of_declared hmappings ?_ hscales
    rintro _ ⟨⟩
    exact Nat.zero_le _
  | @interval done intervals token literal rest digit room read =>
    refine .of_declared hmappings ?_ hscales
    rintro _ ⟨⟩
    rw [List.length_append, List.length_singleton]
    exact Nat.lt_of_le_of_ne (hscale intervals rfl) room
  | @closes done intervals rest word =>
    refine .of_declared ?_ nofun ?_
    · rw [declared_append]
      exact hmappings
    · intro other hother
      rcases List.mem_append.mp hother with hdone | hlast
      · exact hscales other hdone
      · cases List.mem_singleton.mp hlast
        exact hscale intervals rfl

/-- However far a text was read, what was read fits into a configuration. -/
theorem room_of_steps {text : String} {progress : Progress}
    (h : Relation.ReflTransGen Step (start text) progress) : progress.Room := by
  induction h with
  | refl => exact .of_declared (Nat.zero_le _) nofun nofun
  | tail _ hstep ih => exact hstep.room ih

end Progress

end MotionMidi
