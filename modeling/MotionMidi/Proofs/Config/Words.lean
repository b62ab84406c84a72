import MotionMidi.Proofs.Binary32.Text
import MotionMidi.Proofs.Config.Accepted

/-!
# The words of a written text

Words that are joined by spaces are found again by the scanner, and whatever a configuration is
written with is a word.

## Main definitions

- `IsWord` — a text that is one word
- `Spells` — tokens whose characters are those of some words, wherever they stand

Main statements: `Token.spells_scan`, `Config.Writable.isWord_words`.
-/

namespace MotionMidi

/-- A text that is one word: not empty, and without blanks. -/
def IsWord (word : String) : Prop :=
  word.toList ≠ [] ∧ ∀ c ∈ word.toList, isBlank c = false

-- Only the letters of the word are gone through: a search for the instance could find one that
-- goes through all characters there are.
instance (word : String) : Decidable (IsWord word) :=
  @instDecidableAnd _ _ inferInstance (List.decidableBAll _ _)

/-- The characters of the tokens are those of the words. Places and line starts are left open. -/
def Spells (words : List String) (tokens : List Token) : Prop :=
  tokens.map Token.chars = words.map String.toList

namespace Spells

variable {words : List String} {tokens : List Token}

theorem eq_nil (h : Spells [] tokens) : tokens = [] := by
  rw [Spells, List.map_nil, List.map_eq_nil_iff] at h
  exact h

theorem cons {word : String} (h : Spells (word :: words) tokens) :
    ∃ token rest, tokens = token :: rest ∧ token.chars = word.toList ∧ Spells words rest := by
  rw [Spells, List.map_cons, List.map_eq_cons_iff] at h
  exact h

theorem append {more : List String} (h : Spells (words ++ more) tokens) :
    ∃ front back, tokens = front ++ back ∧ Spells words front ∧ Spells more back := by
  rw [Spells, List.map_append, List.map_eq_append_iff] at h
  exact h

end Spells

namespace Token

@[simp] theorem first_mem (token : Token) : token.first ∈ token.chars :=
  List.mem_cons_self ..

theorem first_of_chars {token : Token} {c : Char} {chars : List Char}
    (h : token.chars = c :: chars) : token.first = c :=
  (List.cons.inj h).1

/-- A run of characters in front of what ends it is one word. -/
theorem scanFrom_run (position : Nat) (startsLine : Bool) {first : Char} {rest text : List Char}
    (hplain : ∀ c ∈ first :: rest, isBlank c = false) (htext : ∀ c ∈ text.head?, isBlank c) :
    scanFrom position startsLine (first :: (rest ++ text)) = ⟨position, startsLine, first, rest⟩ ::
      scanFrom (position + byteLength (first :: rest)) false text := by
  have hfirst : isBlank first = false := hplain first (List.mem_cons_self ..)
  have hrest : ∀ c ∈ rest, (!isBlank c) = true := by
    intro c hc
    rw [hplain c (List.mem_cons_of_mem _ hc)]
    rfl
  have htake : text.takeWhile (!isBlank ·) = [] := by
    cases text with
    | nil => rfl
    | cons c text => simp [htext c rfl]
  have hdrop : text.dropWhile (!isBlank ·) = text := by
    cases text with
    | nil => rfl
    | cons c text => simp [htext c rfl]
  rw [scanFrom, if_neg (by simp [hfirst]), List.takeWhile_append_of_pos hrest,
    List.dropWhile_append_of_pos hrest, htake, hdrop, List.append_nil]

/-- A word in front of what ends it. -/
theorem scanFrom_word (position : Nat) (startsLine : Bool) {word : String} (h : IsWord word)
    (text : List Char) (htext : ∀ c ∈ text.head?, isBlank c) :
    ∃ token, token.chars = word.toList ∧ scanFrom position startsLine (word.toList ++ text) =
      token :: scanFrom (position + byteLength word.toList) false text := by
  obtain ⟨hne, hblank⟩ := h
  obtain ⟨first, rest, hchars⟩ := List.exists_cons_of_ne_nil hne
  rw [hchars] at hblank ⊢
  exact ⟨⟨position, startsLine, first, rest⟩, rfl, scanFrom_run position startsLine hblank htext⟩

/-- The scanner finds the words that were joined. -/
theorem spells_scanFrom (position : Nat) (startsLine : Bool) {words : List String}
    (h : ∀ word ∈ words, IsWord word) :
    Spells words (scanFrom position startsLine ([' '].intercalate (words.map String.toList))) := by
  induction words generalizing position startsLine with
  | nil => simp [Spells]
  | cons word words ih =>
    have hword := h word (List.mem_cons_self ..)
    have hwords : ∀ w ∈ words, IsWord w := fun w hw => h w (List.mem_cons_of_mem _ hw)
    cases words with
    | nil =>
      obtain ⟨token, hchars, hscan⟩ := scanFrom_word position startsLine hword [] (by simp)
      rw [List.append_nil] at hscan
      simp [Spells, hscan, hchars]
    | cons next words =>
      have hspace : ∀ c ∈ (' ' :: [' '].intercalate ((next :: words).map String.toList)).head?,
          isBlank c := by
        rintro c hc
        cases hc
        rfl
      obtain ⟨token, hchars, hscan⟩ := scanFrom_word position startsLine hword _ hspace
      have hnext := ih (position + byteLength word.toList + ' '.utf8Size)
        (false || isLineEnd ' ') hwords
      rw [List.map_cons, List.map_cons, List.intercalate_cons_cons, List.append_assoc,
        List.singleton_append, ← List.map_cons, hscan, scanFrom,
        if_pos (show isBlank ' ' = true from rfl)]
      rw [Spells] at hnext ⊢
      rw [List.map_cons, hchars, hnext]
      rfl

/-- The scanner finds the words of a text in which they are separated by single spaces. -/
theorem spells_scan {words : List String} (h : ∀ word ∈ words, IsWord word) :
    Spells words (scan (" ".intercalate words).toList) := by
  rw [String.toList_intercalate]
  exact spells_scanFrom 0 false h

end Token

/-! ## The words of a configuration -/

theorem isBlank_of_isDigit {c : Char} (h : c.isDigit) : isBlank c = false := by
  by_cases hblank : isBlank c
  · simp only [isBlank, Bool.or_eq_true, decide_eq_true_eq] at hblank
    rcases hblank with (((rfl | rfl) | rfl) | rfl) | rfl <;> cases h
  · exact Bool.eq_false_iff.mpr hblank

theorem isWord_numeral (n : Nat) : IsWord (Numeral.text n) := by
  rw [IsWord, Numeral.text, String.toList_ofList]
  refine ⟨Numeral.write_ne_nil n, ?_⟩
  intro c hc
  exact isBlank_of_isDigit (List.all_eq_true.mp (Numeral.all_isDigit_write n) c hc)

theorem isWord_binary32 {x : Binary32} (h : x.isFinite) : IsWord x.text := by
  obtain - | ⟨negative, magnitude⟩ := x
  · cases h
  rw [IsWord, Binary32.text_of_finite h]
  refine ⟨Decimal.write_ne_nil _, ?_⟩
  intro c hc
  rcases Decimal.mem_write hc with hdigit | rfl | rfl
  · exact isBlank_of_isDigit hdigit
  · rfl
  · rfl

theorem Key.isWord_name (key : Key) : IsWord key.name := by
  cases key <;> decide

theorem Input.isWord_mnemonic (input : Input) : IsWord input.mnemonic := by
  rcases input with ⟨_ | _, _ | _ | _⟩ | ⟨_ | _ | _⟩ <;> decide

theorem Destination.isWord_words (destination : Destination) :
    ∀ word ∈ destination.words, IsWord word := by
  cases destination with
  | controlChange controller =>
    rw [words, List.forall_mem_cons, List.forall_mem_singleton]
    exact ⟨by decide, isWord_numeral controller⟩
  | pitchBend => decide
  | note => decide

theorem Mapping.Writable.isWord_words {mapping : Mapping} (h : mapping.Writable) :
    ∀ word ∈ mapping.words, IsWord word := by
  simp only [Mapping.words, List.cons_append, List.nil_append, List.forall_mem_cons]
  exact ⟨mapping.input.isWord_mnemonic, isWord_binary32 h.fromLo, isWord_binary32 h.fromHi,
    isWord_numeral _, isWord_numeral _, mapping.destination.isWord_words⟩

theorem Config.Writable.isWord_words {config : Config} (h : config.Writable) :
    ∀ word ∈ config.words, IsWord word := by
  have hintervals : ∀ word ∈ config.intervals.map Numeral.text, IsWord word := by
    intro word hword
    obtain ⟨interval, -, rfl⟩ := List.mem_map.mp hword
    exact isWord_numeral interval
  have hmappings : ∀ word ∈ config.mappings.flatMap ("MAP" :: ·.words), IsWord word := by
    intro word hword
    obtain ⟨mapping, hmapping, hword⟩ := List.mem_flatMap.mp hword
    rcases List.mem_cons.mp hword with rfl | hword
    · decide
    · exact (h.mapping mapping hmapping).isWord_words word hword
  have hkeywords : ∀ word ∈ ["CHAN", "ROOT", "SCALE", "OCTAVES", "BPM", "DIV", "END."],
      IsWord word := by
    decide
  simp only [List.forall_mem_cons] at hkeywords
  obtain ⟨hchan, hroot, hscale, hoctaves, hbpm, hdiv, hend, hnil⟩ := hkeywords
  simp only [Config.words, List.forall_mem_append, List.forall_mem_cons]
  exact ⟨⟨⟨⟨⟨hchan, isWord_numeral _, hroot, config.root.isWord_name, hscale, hnil⟩, hintervals⟩,
    hoctaves, isWord_numeral _, isWord_numeral _, hbpm, isWord_numeral _, hdiv,
    isWord_binary32 h.division, hnil⟩, hmappings⟩, hend, hnil⟩

end MotionMidi
