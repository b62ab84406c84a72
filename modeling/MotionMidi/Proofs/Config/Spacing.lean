import MotionMidi.Proofs.Config.Grammar
import MotionMidi.Proofs.Config.Layout

/-!
# The blanks of a text

A text without comments is told by its words: which blanks separate them, and how many, does not
matter, and neither do blanks in front of the first word or behind the last one.

## Main definitions

- `Laid` — a text that has these words, with blanks between them
- `SamePlace` — the places of a word in two texts, or the ends of both

Main statements: `laid_iff`, `Config.parse_laid`.
-/

namespace MotionMidi

open Grammar

/-- The words of a text: there are blanks between them, and there may be some in front of the first
one and behind the last one. -/
inductive Laid : List (List Char) → List Char → Prop where
  | blank {text : List Char} (blank : ∀ c ∈ text, isBlank c) : Laid [] text
  | word {word : List Char} {words : List (List Char)} {text rest : List Char}
      (next : NextWord text word rest) (others : Laid words rest) : Laid (word :: words) text

/-- The places of a word in two texts that have the same words, or the ends of both. -/
inductive SamePlace (text text' : List Char) : Nat → Nat → Prop where
  | word {index : Nat} {token token' : Token} (h : (Token.scan text)[index]? = some token)
      (h' : (Token.scan text')[index]? = some token') :
      SamePlace text text' token.position token'.position
  | ending : SamePlace text text' (byteLength text) (byteLength text')

variable {words : List (List Char)} {text text' : List Char}

theorem Laid.chars_of_follow (h : Laid words text) {tokens : List Token}
    (hfollow : Token.Follow tokens text) : tokens.map Token.chars = words := by
  induction h generalizing tokens with
  | blank blank =>
    rw [hfollow.eq_nil blank]
    rfl
  | word next others ih =>
    obtain ⟨token, tokens, rfl, hchars, hbehind⟩ := hfollow.of_nextWord next
    rw [List.map_cons, hchars, ih hbehind.follow]

theorem laid_of_follow {tokens : List Token} (h : Token.Follow tokens text) :
    Laid (tokens.map Token.chars) text := by
  induction tokens generalizing text with
  | nil =>
    rcases blank_or_nextWord text with hblank | ⟨c, word, rest, hword⟩
    · exact .blank hblank
    · exact absurd hword h.not_nextWord
  | cons token tokens ih =>
    obtain ⟨rest, hword, hbehind⟩ := h.nextWord
    exact .word hword (ih hbehind.follow)

/-- Every text is laid out with its words, and with no others. -/
theorem laid_iff : Laid words text ↔ (Token.scan text).map Token.chars = words := by
  constructor
  · intro h
    exact h.chars_of_follow (Token.follow_scan text)
  · rintro rfl
    exact laid_of_follow (Token.follow_scan text)

/-- Words that come in the same order stand at the same places. -/
theorem sameWord_scan
    (h : (Token.scan text).map Token.chars = (Token.scan text').map Token.chars) :
    List.Forall₂ (Token.SameWord (SamePlace text text')) (Token.scan text) (Token.scan text') := by
  rw [← List.forall₂_eq_eq_eq, List.forall₂_map_left_iff, List.forall₂_map_right_iff,
    List.forall₂_iff_get] at h
  rw [List.forall₂_iff_get]
  refine ⟨h.1, fun index hindex hindex' => ⟨h.2 index hindex hindex', ?_⟩⟩
  have hplace : SamePlace text text' (Token.scan text)[index].position
      (Token.scan text')[index].position :=
    .word (List.getElem?_eq_getElem hindex) (List.getElem?_eq_getElem hindex')
  exact hplace

namespace Config

/-- Blanks do not matter in a text without comments. -/
theorem parse_laid {text text' : String} (h : Laid words text.toList)
    (h' : Laid words text'.toList) (hcomment : ∀ word ∈ words, word.head? ≠ some '#') :
    SameOutcome (SamePlace text.toList text'.toList) (parse text) (parse text') := by
  rw [laid_iff] at h h'
  have hplain : ∀ token ∈ Token.scan text.toList, token.first ≠ '#' := by
    intro token htoken hfirst
    refine hcomment token.chars ?_ (congrArg some hfirst)
    rw [← h]
    exact List.mem_map_of_mem htoken
  have hsame := (List.forall₂_and_left _ _).mpr ⟨hplain, sameWord_scan (h.trans h'.symm)⟩
  refine parse_alike (Command.readAll_agree (fun _ _ h => h.2) ?_ hsame) .ending
  -- There is no comment, so it does not matter where lines end.
  exact fun _ _ _ _ htoken _ hhash => absurd hhash htoken.1

end Config

end MotionMidi
