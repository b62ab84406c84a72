import MotionMidi.Proofs.Config.Layout
import MotionMidi.Proofs.Config.WellFormed

/-!
# The order of commands

Of each setting the last command counts, and what is derived from the settings is derived from the
final ones. So commands of different kinds can change places.

## Main definitions

- `Setting` — a part of a configuration, and the commands that set it
- `Config.Settled` — a configuration is the default one with what the last commands set
- `Sentence.written` — the letter of a command and the words of its arguments
- `Rearranged` — the same commands in another order, which is the same for each letter

Main statements: `Setting.value_settings`, `Config.parse_order`.
-/

namespace MotionMidi

namespace Command

/-- The last value that commands give, if one of them gives any. -/
def last {α : Type} (given : Command → Option α) (default : α) (commands : List Command) : α :=
  (commands.filterMap given).getLast?.getD default

/-- The channel that a command sets. -/
def channel? : Command → Option Nat
  | .channel index => some index.clamped
  | _ => none

/-- The root that a command sets. -/
def root? : Command → Option Key
  | .root key => some key
  | _ => none

/-- The intervals that a command sets, all of them at once. -/
def scale? : Command → Option (List Nat)
  | .scale intervals => some (intervals.map Literal.clamped)
  | _ => none

/-- The first and the last octave that a command sets. -/
def octaves? : Command → Option (Nat × Nat)
  | .octaves first last => some (first.clamped, last.clamped)
  | _ => none

/-- The tempo that a command sets. -/
def tempo? : Command → Option Nat
  | .tempo bpm => some bpm.clamped
  | _ => none

/-- The division that a command sets. -/
def division? : Command → Option Binary32
  | .division beats => some beats
  | _ => none

end Command

/-- A part of a configuration, and the commands that set it. -/
structure Setting (α : Type) where
  /-- The letter that the commands start with. -/
  letter : Char
  value : Config → α
  /-- What a command sets. -/
  given : Command → Option α
  value_set : ∀ config command, value (config.set command) = (given command).getD (value config)
  eq_letter : ∀ {c : Char} {tokens : List Token} {command : Command},
    Command.Spelled c tokens command → (given command).isSome → c = letter

namespace Setting

variable {α : Type}

def channel : Setting Nat where
  letter := 'C'
  value := Config.channel
  given := Command.channel?
  value_set config command := by cases command <;> rfl
  eq_letter h := by cases h <;> simp [Command.channel?]

def root : Setting Key where
  letter := 'R'
  value := Config.root
  given := Command.root?
  value_set config command := by cases command <;> rfl
  eq_letter h := by cases h <;> simp [Command.root?]

def scale : Setting (List Nat) where
  letter := 'S'
  value := Config.intervals
  given := Command.scale?
  value_set config command := by cases command <;> rfl
  eq_letter h := by cases h <;> simp [Command.scale?]

def octaves : Setting (Nat × Nat) where
  letter := 'O'
  value config := (config.firstOctave, config.lastOctave)
  given := Command.octaves?
  value_set config command := by cases command <;> rfl
  eq_letter h := by cases h <;> simp [Command.octaves?]

def tempo : Setting Nat where
  letter := 'B'
  value := Config.tempo
  given := Command.tempo?
  value_set config command := by cases command <;> rfl
  eq_letter h := by cases h <;> simp [Command.tempo?]

def division : Setting Binary32 where
  letter := 'D'
  value := Config.division
  given := Command.division?
  value_set config command := by cases command <;> rfl
  eq_letter h := by cases h <;> simp [Command.division?]

/-- Of each setting the last command counts. -/
theorem value_settings (setting : Setting α) (commands : List Command) :
    setting.value (Config.settings commands) =
      Command.last setting.given (setting.value {}) commands := by
  rw [Config.settings, Command.last]
  -- Only the last command is looked at, so the induction is from the end.
  induction commands using List.reverseRecOn with
  | nil => rfl
  | append_singleton commands command ih =>
    rw [List.foldl_append, List.foldl_cons, List.foldl_nil, setting.value_set, ih,
      List.filterMap_append, List.getLast?_append]
    cases hgiven : setting.given command with
    | none => simp [hgiven]
    | some a => simp [hgiven]

end Setting

namespace Config

/-- A configuration is the default one with what the last commands of each kind set, with the
mappings of all commands in order, and with what follows from these final settings. -/
structure Settled (config : Config) (commands : List Command) : Prop where
  channel : config.channel = Command.last Command.channel? 1 commands
  root : config.root = Command.last Command.root? .c commands
  intervals : config.intervals = Command.last Command.scale? [0, 4, 7] commands
  octaves : (config.firstOctave, config.lastOctave) = Command.last Command.octaves? (2, 7) commands
  tempo : config.tempo = Command.last Command.tempo? 100 commands
  division : config.division = Command.last Command.division? 0.5 commands
  mappings : config.mappings = (commands.filterMap Command.declaration?).map
    (Declaration.mapping config.validNotes)
  /-- A range that was left out is that of the notes of the final scale. -/
  follows : config.Follows commands
  validNotes : config.validNotes =
    .build config.root config.intervals config.firstOctave config.lastOctave
  autoRepeat : config.autoRepeat =
    (60000 / Binary32.ofNat config.tempo * config.division).truncate longestAutoRepeat * 1000
  noteMapping : ∀ index, config.noteMappingIndex? = some index ↔ config.LastNote index

@[simp] theorem mappings_settings (commands : List Command) :
    (settings commands).mappings = [] := by
  have hset (config : Config) (command : Command) :
      (config.set command).mappings = config.mappings := by
    cases command <;> rfl
  rw [settings]
  induction commands using List.reverseRecOn with
  | nil => rfl
  | append_singleton commands command ih =>
    rw [List.foldl_append, List.foldl_cons, List.foldl_nil, hset, ih]

theorem settled_ofCommands (commands : List Command) : (ofCommands commands).Settled commands where
  channel := Setting.channel.value_settings commands
  root := Setting.root.value_settings commands
  intervals := Setting.scale.value_settings commands
  octaves := Setting.octaves.value_settings commands
  tempo := Setting.tempo.value_settings commands
  division := Setting.division.value_settings commands
  mappings := rfl
  follows := follows_ofCommands commands
  validNotes := rfl
  autoRepeat := rfl
  noteMapping := lastNote_iff _

end Config

/-- The letter of a command and the words of its arguments. -/
def Sentence.written (sentence : Sentence) : Char × List (List Char) :=
  (sentence.name.first, sentence.arguments.map Token.chars)

/-- The same commands in another order, which is the same for those that start with the same
letter. -/
structure Rearranged (written written' : List (Char × List (List Char))) : Prop where
  perm : written.Perm written'
  order : ∀ letter, written.filter (·.1 = letter) = written'.filter (·.1 = letter)

namespace Sentence

variable {α : Type} {sentences sentences' : List Sentence}

/-- The sentences that start with a letter. -/
def starting (letter : Char) (sentences : List Sentence) : List Sentence :=
  sentences.filter (·.name.first = letter)

/-- Nothing is found among the commands that start with other letters. -/
theorem filterMap_starting {given : Command → Option α} {letter : Char}
    (h : ∀ {c : Char} {tokens : List Token} {command : Command},
      Command.Spelled c tokens command → (given command).isSome → c = letter)
    (sentences : List Sentence) :
    ((starting letter sentences).map command).filterMap given =
      (sentences.map command).filterMap given := by
  induction sentences with
  | nil => rfl
  | cons sentence sentences ih =>
    rw [starting, List.filter_cons]
    split
    case isTrue =>
      rw [List.map_cons, List.map_cons, List.filterMap_cons, List.filterMap_cons, ← ih]
      rfl
    case isFalse hother =>
      have hnone : given sentence.command = none := by
        rw [← Option.not_isSome_iff_eq_none]
        intro hsome
        exact hother (decide_eq_true (h sentence.spelled hsome))
      rw [List.map_cons, List.filterMap_cons_none hnone]
      exact ih

/-- What is written the same reads the same, apart from the places. -/
theorem alike_of_written {sentence sentence' : Sentence}
    (h : sentence.written = sentence'.written) :
    Command.Alike (fun _ _ => True) sentence.command sentence'.command := by
  obtain ⟨hletter, hchars⟩ := Prod.mk.inj h
  exact (hletter ▸ sentence.spelled).alike_of_chars sentence'.spelled hchars

end Sentence

namespace Rearranged

open Sentence

variable {sentences sentences' : List Sentence}

theorem alike (h : Rearranged (sentences.map written) (sentences'.map written)) (letter : Char) :
    List.Forall₂ (Command.Alike fun _ _ => True) ((starting letter sentences).map command)
      ((starting letter sentences').map command) := by
  have horder := h.order letter
  rw [List.filter_map, List.filter_map, ← List.forall₂_eq_eq_eq, List.forall₂_map_left_iff,
    List.forall₂_map_right_iff] at horder
  rw [List.forall₂_map_left_iff, List.forall₂_map_right_iff]
  exact horder.imp fun _ _ hwritten => alike_of_written hwritten

/-- Other letters have no say in a setting. -/
theorem value_settings {α : Type} (h : Rearranged (sentences.map written) (sentences'.map written))
    (setting : Setting α) :
    setting.value (Config.settings (sentences.map command)) =
      setting.value (Config.settings (sentences'.map command)) := by
  have hstarting (sentences : List Sentence) :
      setting.value (Config.settings ((starting setting.letter sentences).map command)) =
        setting.value (Config.settings (sentences.map command)) := by
    rw [setting.value_settings, setting.value_settings, Command.last, Command.last,
      filterMap_starting setting.eq_letter]
  rw [← hstarting sentences, ← hstarting sentences', Config.settings, Config.settings,
    Config.foldl_set_alike (h.alike setting.letter)]

/-- The settings do not depend on the order of different commands. -/
theorem settings (h : Rearranged (sentences.map written) (sentences'.map written)) :
    Config.settings (sentences.map command) = Config.settings (sentences'.map command) := by
  have hchannel := h.value_settings .channel
  have hroot := h.value_settings .root
  have hscale := h.value_settings .scale
  obtain ⟨hfirst, hlast⟩ := Prod.mk.inj (h.value_settings .octaves)
  have htempo := h.value_settings .tempo
  have hdivision := h.value_settings .division
  have hmappings := (Config.mappings_settings (sentences.map command)).trans
    (Config.mappings_settings (sentences'.map command)).symm
  exact Config.mk.injEq .. |>.mpr
    ⟨hchannel, hroot, hscale, hfirst, hlast, htempo, hdivision, hmappings⟩

/-- Nor does the configuration. -/
theorem ofCommands (h : Rearranged (sentences.map written) (sentences'.map written)) :
    Config.ofCommands (sentences.map command) = Config.ofCommands (sentences'.map command) := by
  have hletter {c : Char} {tokens : List Token} {command : Command}
      (hspelled : Command.Spelled c tokens command) (hsome : command.declaration?.isSome) :
      c = 'M' := hspelled.declaration?_isSome.mp hsome
  have hmappings := Config.map_mapping_alike (h.alike 'M')
    (Config.settings (sentences.map command)).validNotes
  rw [filterMap_starting hletter, filterMap_starting hletter] at hmappings
  rw [Config.ofCommands, Config.ofCommands, hmappings, h.settings]

end Rearranged

namespace Config

/-- The configuration is the default one with what the last commands set, so it does not depend on
the order of different commands. -/
theorem parse_order {text : String} {parsed : Parsed} (h : parse text = .ok parsed) :
    ∃ sentences, Composed (Token.scan text.toList) sentences ∧
      parsed.config.Settled (sentences.map Sentence.command) ∧
      ∀ text' parsed' sentences', parse text' = .ok parsed' →
        Composed (Token.scan text'.toList) sentences' →
        Rearranged (sentences.map Sentence.written) (sentences'.map Sentence.written) →
          parsed'.config = parsed.config := by
  obtain ⟨sentences, hcomposed, -, rfl⟩ := parse_eq_ok_iff.mp h
  refine ⟨sentences, hcomposed, settled_ofCommands _, ?_⟩
  intro text' parsed' sentences' h' hcomposed' hrearranged
  obtain ⟨other, hother, -, rfl⟩ := parse_eq_ok_iff.mp h'
  rw [hother.unique hcomposed']
  exact hrearranged.ofCommands.symm

/-- A note mapping in front of the scale that it spans, and behind it. -/
theorem parse_order_scale :
    ∃ parsed parsed', parse "MAP ax note SCALE 0 7 # fifths" = .ok parsed ∧
      parse "SCALE 0 7\nMAP ax note" = .ok parsed' ∧
      parsed.config.Settled [.map ⟨.acceleration .x, none, .note, nofun⟩,
        .scale [⟨.interval, 18, 0⟩, ⟨.interval, 20, 7⟩]] ∧
      parsed'.config = parsed.config := by
  let map (name input target : Nat) (startsLine : Bool) : Sentence :=
    { name := ⟨name, startsLine, 'M', ['A', 'P']⟩
      arguments := [⟨input, false, 'a', ['x']⟩, ⟨target, false, 'n', ['o', 't', 'e']⟩]
      command := .map ⟨.acceleration .x, none, .note, nofun⟩
      spelled := @Command.Spelled.map _ [] [_] _ rfl .absent (.note rfl) }
  let scale (name root fifth : Nat) : Sentence :=
    { name := ⟨name, false, 'S', ['C', 'A', 'L', 'E']⟩
      arguments := [⟨root, false, '0', []⟩, ⟨fifth, false, '7', []⟩]
      command := .scale [⟨.interval, root, 0⟩, ⟨.interval, fifth, 7⟩]
      spelled := .scale (.cons rfl (.cons rfl .nil)) (by simp) (Nat.le_of_ble_eq_true rfl) }
  have hcomposed : Composed (Token.scan "MAP ax note SCALE 0 7 # fifths".toList)
      [map 0 4 7 false, scale 12 18 20] := by
    have hscan : Token.scan "MAP ax note SCALE 0 7 # fifths".toList =
        (map 0 4 7 false).name :: ((map 0 4 7 false).arguments ++
          (scale 12 18 20).name :: ((scale 12 18 20).arguments ++
            [⟨22, false, '#', []⟩, ⟨24, false, 'f', ['i', 'f', 't', 'h', 's']⟩])) := by
      decide +kernel
    rw [hscan]
    exact .sentence nofun (.sentence (by rintro - _ ⟨⟩; rfl) (.comment rfl .done))
  have hcomposed' : Composed (Token.scan "SCALE 0 7\nMAP ax note".toList)
      [scale 0 6 8, map 10 14 17 true] := by
    have hscan : Token.scan "SCALE 0 7\nMAP ax note".toList =
        (scale 0 6 8).name :: ((scale 0 6 8).arguments ++
          (map 10 14 17 true).name :: ((map 10 14 17 true).arguments ++ [])) := by
      decide +kernel
    rw [hscan]
    exact .sentence (by rintro - _ ⟨⟩; rfl) (.sentence nofun .done)
  have hrearranged : Rearranged ([map 0 4 7 false, scale 12 18 20].map Sentence.written)
      ([scale 0 6 8, map 10 14 17 true].map Sentence.written) := by
    refine ⟨.swap _ _ [], fun letter => ?_⟩
    by_cases hmap : 'M' = letter
    · subst hmap
      rfl
    · simp [Sentence.written, Token.chars, List.filter_cons, map, scale, hmap]
  obtain ⟨parsed, hparse⟩ : ∃ parsed, parse "MAP ax note SCALE 0 7 # fifths" = .ok parsed :=
    ⟨_, parse_eq_ok_iff.mpr ⟨_, hcomposed, by decide, rfl⟩⟩
  obtain ⟨parsed', hparse'⟩ : ∃ parsed, parse "SCALE 0 7\nMAP ax note" = .ok parsed :=
    ⟨_, parse_eq_ok_iff.mpr ⟨_, hcomposed', by decide, rfl⟩⟩
  obtain ⟨sentences, hsentences, hsettled, horder⟩ := parse_order hparse
  cases hsentences.unique hcomposed
  exact ⟨parsed, parsed', hparse, hparse', hsettled, horder _ _ _ hparse' hcomposed' hrearranged⟩

end Config

end MotionMidi
