import MotionMidi.Flash.Region
import MotionMidi.Performer.Console
import MotionMidi.Proofs.Config.Sentences
import MotionMidi.Proofs.Config.Layout
import MotionMidi.Proofs.Config.Scanning
import MotionMidi.Proofs.Effect

/-!
# Diagnostics

Whatever is told of a text points at one of its words, or at its end if a word is missing there, and
the console quotes that word.

## Main definitions

- `Config.Tells` — an error or a warning that is told of a text
- `Config.Located` — the place that is told is that of a word, or the end of the text
- `firstWord?`, `Error.resplit` — the word at fault, found by splitting the text anew
- `Config.Quoted` — a line on the console that quotes the word at fault

Main statement: `Config.diagnostics_point_at_words`.
-/

namespace MotionMidi

open Flash

/-! ## Places -/

namespace Config

/-- What is told of a text, and how the console calls it: the error that the text is rejected for,
or the warning that it is accepted with. -/
inductive Tells (text : String) : String → Error → Prop where
  | error {error : Error} (h : parse text = .error error) : Tells text "Error: " error
  | warning {config : Config} {error : Error} (h : parse text = .ok ⟨config, some error⟩) :
      Tells text "Warning: " error

/-- A place in a text is told by an error or by a warning. -/
structure Located (text : String) (error : Error) (position : Nat) : Prop where
  /-- The place is in the text. -/
  within : position ≤ byteLength text.toList
  /-- No character is cut in two there. -/
  boundary : ∃ front back, text.toList = front ++ back ∧ byteLength front = position
  /-- A word stands there, unless the text ends there. -/
  place : position = byteLength text.toList ∨ ∃ word, StandsAt text.toList position word
  /-- The end of the text is told if it is cut short, which makes it be rejected. -/
  ending : position = byteLength text.toList ↔
    parse text = .error error ∧ CutShort 0 (Token.scan text.toList)

end Config

section Places

variable {text : List Char} {position : Nat} {word : List Char}

theorem StandsAt.boundary (h : StandsAt text position word) :
    ∃ front back, text = front ++ back ∧ byteLength front = position := by
  obtain ⟨front, back, rfl, rfl, -⟩ := h
  exact ⟨front, word ++ back, rfl, rfl⟩

/-- Reading puts no places into what it returns but those of words. -/
theorem Command.readAll_places (text : List Char) :
    Results (fun position _ => ∃ word, StandsAt text position word)
      (List.Forall₂ (Command.Alike fun position _ => ∃ word, StandsAt text position word))
      (readAll 0 (Token.scan text)) (readAll 0 (Token.scan text)) := by
  refine readAll_alike (List.forall₂_same.mpr fun token htoken => ⟨rfl, rfl, ?_⟩)
  exact ⟨token.chars, Token.exists_mem_scan_iff.mp ⟨token, htoken, rfl, rfl⟩⟩

end Places

namespace Config

variable {text : String} {error : Error} {position : Nat} {word : List Char}

theorem Located.of_standsAt (h : StandsAt text.toList position word)
    (hshort : ¬(parse text = .error error ∧ CutShort 0 (Token.scan text.toList))) :
    Located text error position where
  within := Nat.le_of_lt h.lt
  boundary := h.boundary
  place := .inr ⟨word, h⟩
  ending := iff_of_false (Nat.ne_of_lt h.lt) hshort

theorem Located.of_error (h : parse text = .error error)
    (hposition : error.position? = some position) : Located text error position := by
  obtain ⟨fault, hread, rfl⟩ := parse_eq_error_iff.mp h
  cases fault with
  | missing =>
    cases hposition
    have hshort := Command.readAll_eq_missing_iff.mp hread
    exact ⟨Nat.le_refl _, ⟨text.toList, [], (List.append_nil _).symm, rfl⟩, .inl rfl,
      iff_of_true rfl ⟨h, hshort⟩⟩
  | malformed position =>
    cases hposition
    have hplaces := Command.readAll_places text.toList
    rw [hread] at hplaces
    obtain ⟨word, hword⟩ : ∃ word, StandsAt text.toList position word := by
      cases hplaces with
      | error hfault =>
        cases hfault with
        | malformed h => exact h
    refine .of_standsAt hword fun hshort => ?_
    rw [Command.readAll_eq_missing_iff.mpr hshort.2] at hread
    cases hread
  | tooManyMappings => cases hposition
  | tooManyScaleNotes => cases hposition

theorem Located.of_warning {config : Config} (h : parse text = .ok ⟨config, some error⟩)
    (hposition : error.position? = some position) : Located text error position := by
  obtain ⟨sentences, hcomposed, hroom, hparsed⟩ := parse_eq_ok_iff.mp h
  have hread := Composed.readAll_eq_ok_iff.mpr ⟨sentences, hcomposed, rfl, hroom⟩
  have hplaces := Command.readAll_places text.toList
  rw [hread] at hplaces
  obtain ⟨word, hword⟩ : ∃ word, StandsAt text.toList position word := by
    cases hplaces with
    | ok hcommands =>
      have hwarning := warning?_alike hcommands
      rw [← (Parsed.mk.inj hparsed).2] at hwarning
      cases hwarning with
      | some halike =>
        cases halike with
        | malformedToken hplace =>
          cases hposition
          exact hplace
        | outOfRange hplace =>
          cases hposition
          exact hplace
        | placeless hnone =>
          rw [hposition] at hnone
          cases hnone
  refine .of_standsAt hword fun hshort => ?_
  rw [h] at hshort
  cases hshort.1

/-- Whatever is told of a text, the place that is told is that of a word, or the end of the text if
it is cut short. -/
theorem Tells.located {label : String} (h : Tells text label error)
    (hposition : error.position? = some position) :
    Located text error position := by
  cases h with
  | error h => exact .of_error h hposition
  | warning h => exact .of_warning h hposition

end Config

/-! ## Words -/

/-- The first word of a text: blanks are passed over, and the word goes on to the next one. -/
def firstWord? (text : List Char) : Option (List Char) :=
  match (text.dropWhile isBlank).takeWhile (!isBlank ·) with
  | [] => none
  | c :: word => some (c :: word)

theorem firstWord?_of_standsAt {text word : List Char} {position : Nat}
    (h : StandsAt text position word) : (dropBytes? text position).bind firstWord? = some word := by
  obtain ⟨front, back, rfl, rfl, hne, hplain, -, hback⟩ := h
  obtain ⟨c, word, rfl⟩ := List.exists_cons_of_ne_nil hne
  have hdrop : (c :: word ++ back).dropWhile isBlank = c :: word ++ back := by
    rw [List.cons_append, List.dropWhile_cons_of_neg (by simp [hplain c (List.mem_cons_self ..)])]
  have htake : back.takeWhile (!isBlank ·) = [] := by
    cases back with
    | nil => rfl
    | cons d back => simp [hback d rfl]
  rw [dropBytes?_append, Option.bind_some, firstWord?, hdrop,
    List.takeWhile_append_of_pos (by simpa using hplain), htake, List.append_nil]

theorem firstWord?_end (text : List Char) :
    (dropBytes? text (byteLength text)).bind firstWord? = none := by
  simp [firstWord?]

namespace Error

variable {error : Error} {text : String} {position : Nat} {word : List Char}

/-- The wording of an error in a text, which is split anew from the place of the error. -/
def resplit (error : Error) (text : String) : String :=
  match error.position? with
  | none => error.message
  | some position =>
    match (dropBytes? text.toList position).bind firstWord? with
    | some word => error.message ++ " ('" ++ String.ofList word ++ "')"
    | none => error.message ++ " (end of text)"

theorem resplit_of_standsAt (hposition : error.position? = some position)
    (h : StandsAt text.toList position word) :
    error.resplit text = error.message ++ " ('" ++ String.ofList word ++ "')" := by
  simp only [resplit, hposition, firstWord?_of_standsAt h]

theorem resplit_end (hposition : error.position? = some (byteLength text.toList)) :
    error.resplit text = error.message ++ " (end of text)" := by
  simp only [resplit, hposition, firstWord?_end]

theorem diagnosis_of_standsAt (hposition : error.position? = some position)
    (h : StandsAt text.toList position word) :
    error.diagnosis text = error.message ++ " ('" ++ String.ofList word ++ "')" := by
  obtain ⟨token, htoken, hplace, rfl⟩ := Token.exists_mem_scan_iff.mpr h
  have hstarting := Token.starting?_eq_some_iff.mpr ⟨htoken, hplace⟩
  simp only [diagnosis, hposition, hstarting, Token.text]

theorem diagnosis_end (hposition : error.position? = some (byteLength text.toList)) :
    error.diagnosis text = error.message ++ " (end of text)" := by
  have hstarting : Token.starting? text.toList (byteLength text.toList) = none := by
    rw [Option.eq_none_iff_forall_ne_some]
    intro token htoken
    obtain ⟨htoken, hplace⟩ := Token.starting?_eq_some_iff.mp htoken
    exact absurd (Token.exists_mem_scan_iff.mp ⟨token, htoken, hplace, rfl⟩).lt (Nat.lt_irrefl _)
  simp only [diagnosis, hposition, hstarting]

end Error

/-! ## The console -/

namespace Config

variable {text label : String} {error : Error} {position : Nat}

/-- A line on the console tells of an error or a warning, and quotes the word at fault. -/
structure Quoted (text label : String) (error : Error) (position : Nat) (line : String) : Prop where
  /-- The text is split anew to find the word. -/
  resplit : line = label ++ error.resplit text
  /-- The whole word is quoted. -/
  word : ∀ word, StandsAt text.toList position word →
    line = label ++ (error.message ++ " ('" ++ String.ofList word ++ "')")
  /-- The end of the text is named where it is told, and only there. -/
  ending : line = label ++ (error.message ++ " (end of text)") ↔ position = byteLength text.toList

theorem Tells.shown {σ : Type} [Medium σ] (h : Tells text label error)
    (performer : Performer) (m : σ) :
    ∃ more, (performer.reconfigure text m).1.shown = (label ++ error.diagnosis text) :: more := by
  unfold Performer.reconfigure
  cases h with
  | error h =>
    rw [h]
    dsimp only
    rw [bind_run]
    generalize Saved.lookup m = found
    obtain ⟨saved, m'⟩ := found
    cases saved <;> exact ⟨_, rfl⟩
  | warning h =>
    rw [h]
    dsimp only
    rw [bind_run]
    generalize SaveSlot.attempt (SaveSlot.write text) m = written
    obtain ⟨result, m'⟩ := written
    cases result <;> exact ⟨_, rfl⟩

theorem Located.quoted (h : Located text error position)
    (hposition : error.position? = some position) (label : String) :
    Quoted text label error position (label ++ error.diagnosis text) := by
  rcases h.place with rfl | ⟨word, hword⟩
  · refine ⟨by rw [Error.diagnosis_end hposition, Error.resplit_end hposition],
      fun word hword => ?_, iff_of_true (by rw [Error.diagnosis_end hposition]) rfl⟩
    exact absurd hword.lt (Nat.lt_irrefl _)
  · have hdiagnosis := Error.diagnosis_of_standsAt hposition hword
    refine ⟨by rw [hdiagnosis, Error.resplit_of_standsAt hposition hword], fun word' hword' => by
      rw [Error.diagnosis_of_standsAt hposition hword'],
      iff_of_false (fun hend => ?_) (Nat.ne_of_lt hword.lt)⟩
    rw [hdiagnosis] at hend
    have hchars := congrArg String.toList hend
    simp at hchars

/-- Reading cuts no character in two and never leaves the text. Whatever is told of a text points at
one of its words, which the console quotes, or at the end of a text that is cut short. -/
theorem diagnostics_point_at_words (text : String) :
    Cursor.parse text.toList = some (Command.parse text.toList) ∧
      ∀ {label error position}, Tells text label error → error.position? = some position →
        Located text error position ∧
          ∀ {σ : Type} [Medium σ] (performer : Performer) (m : σ), ∃ line more,
            (performer.reconfigure text m).1.shown = line :: more ∧
              Quoted text label error position line := by
  refine ⟨Cursor.parse_eq text.toList, fun h hposition => ?_⟩
  have hlocated := h.located hposition
  refine ⟨hlocated, fun performer m => ?_⟩
  obtain ⟨more, hshown⟩ := h.shown performer m
  exact ⟨_, more, hshown, hlocated.quoted hposition _⟩

/-- A mapping that is cut short, and an integer that is out of range, behind a character of two
bytes. -/
theorem diagnostics_point_behind_comment :
    (∃ more, (({} : Performer).reconfigure "# é\nMAP ax 0 1.5 7"
        (Region.erased ⟨32, 16, 64⟩)).1.shown =
          "Error: malformed token at char 19 (end of text)" :: more) ∧
      ∃ more, (({} : Performer).reconfigure "# é\nCHAN 300"
        (Region.erased ⟨32, 16, 64⟩)).1.shown =
          "Warning: integer out of range at char 10 ('300')" :: more := by
  constructor
  · have hparse : parse "# é\nMAP ax 0 1.5 7" = .error (.malformedToken 19) := by
      decide +kernel
    obtain ⟨line, more, hshown, hquoted⟩ := ((diagnostics_point_at_words "# é\nMAP ax 0 1.5 7").2
      (.error hparse) rfl).2 {} (Region.erased ⟨32, 16, 64⟩)
    have hline := hquoted.ending.mpr rfl
    rw [hshown, hline]
    exact ⟨more, rfl⟩
  · have hwarning : (parse "# é\nCHAN 300").map Parsed.warning = .ok (some (.outOfRange 10)) := by
      decide +kernel
    obtain ⟨config, hparse⟩ : ∃ config,
        parse "# é\nCHAN 300" = .ok ⟨config, some (.outOfRange 10)⟩ := by
      cases hread : parse "# é\nCHAN 300" with
      | error error =>
        rw [hread] at hwarning
        cases hwarning
      | ok parsed =>
        rw [hread] at hwarning
        obtain ⟨config, warning⟩ := parsed
        cases hwarning
        exact ⟨config, rfl⟩
    have hword : StandsAt "# é\nCHAN 300".toList 10 ['3', '0', '0'] :=
      Token.exists_mem_scan_iff.mp ⟨⟨10, false, '3', ['0', '0']⟩, by decide +kernel, rfl, rfl⟩
    obtain ⟨line, more, hshown, hquoted⟩ := ((diagnostics_point_at_words "# é\nCHAN 300").2
      (.warning hparse) rfl).2 {} (Region.erased ⟨32, 16, 64⟩)
    rw [hshown, hquoted.word _ hword]
    exact ⟨more, rfl⟩

end Config

end MotionMidi
