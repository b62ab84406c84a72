import MotionMidi.Proofs.Config.Words

/-!
# The grammar of configuration texts

What a text has to look like, said of its characters alone: which words follow one another, and
where comments end.

## Main definitions

- `Grammar.NextWord` — the next word of a text, and what follows it
- `Grammar.IsInteger`, `IsNumber`, `IsKey`, `IsInput` — the kinds of words
- `Grammar.Intervals`, `Window`, `Target` — the arguments of a scale and of a mapping
- `Grammar.Arguments` — the arguments that go with the first letter of a command
- `Grammar.Commands` — a text that is a sequence of commands and comments
- `Token.Follow` — the tokens of a text, wherever it starts

## Design notes

A form relates a text to what is left of it, so forms are put together by naming the texts in
between. Where the next word decides what comes next, the form looks at it and leaves it in place:
a list of intervals ends at the first word that does not start with a digit.
-/

namespace MotionMidi

namespace Grammar

/-- After some blanks a text goes on with a word, and `rest` comes behind that word. -/
def NextWord (text word rest : List Char) : Prop :=
  ∃ blanks, text = blanks ++ (word ++ rest) ∧ (∀ c ∈ blanks, isBlank c) ∧ word ≠ [] ∧
    (∀ c ∈ word, isBlank c = false) ∧ ∀ c ∈ rest.head?, isBlank c

/-- An optional sign and at least one digit, with the number they stand for. -/
inductive IsInteger : List Char → Int → Prop where
  | unsigned {digits : List Char} (some : digits ≠ []) (all : ∀ c ∈ digits, c.isDigit) :
      IsInteger digits (Numeral.value digits)
  | plus {digits : List Char} (some : digits ≠ []) (all : ∀ c ∈ digits, c.isDigit) :
      IsInteger ('+' :: digits) (Numeral.value digits)
  | minus {digits : List Char} (some : digits ≠ []) (all : ∀ c ∈ digits, c.isDigit) :
      IsInteger ('-' :: digits) (-(Numeral.value digits : Int))

/-- A word that is read as a finite number. -/
def IsNumber (word : List Char) : Prop :=
  ∃ x, Binary32.parse? word = some x

/-- A letter from A to G in either case, and at most one flat or sharp. -/
def IsKey (word : List Char) : Prop :=
  ∃ letter, letter.toUpper ∈ ['A', 'B', 'C', 'D', 'E', 'F', 'G'] ∧
    (word = [letter] ∨ word = [letter, 'b'] ∨ word = [letter, '#'])

/-- The name of an input in either case. -/
def IsInput (word : List Char) : Prop :=
  ∃ name ∈ ["ax", "ay", "az", "jx", "jy", "jx+", "jx-", "jy+", "jy-"],
    word.map Char.toLower = name.toList

/-- So many integers: all words up to the first one that does not start with a digit. -/
inductive Intervals : Nat → List Char → List Char → Prop where
  | done {text : List Char}
      (ends : ∀ c word rest, NextWord text (c :: word) rest → c.isDigit = false) :
      Intervals 0 text text
  | more {count : Nat} {c : Char} {word text middle rest : List Char} {n : Int}
      (next : NextWord text (c :: word) middle) (digit : c.isDigit)
      (integer : IsInteger (c :: word) n) (others : Intervals count middle rest) :
      Intervals (count + 1) text rest

/-- Two numbers and two integers, of which the integers are told. They are left out unless the next
word starts with something other than a letter. -/
inductive Window : List Char → Option (Int × Int) → List Char → Prop where
  | absent {text : List Char} (letter : ∀ c word rest, NextWord text (c :: word) rest → c.isAlpha) :
      Window text none text
  | present {c : Char} {word₁ word₂ word₃ word₄ text text₁ text₂ text₃ rest : List Char}
      {lo hi : Int} (next₁ : NextWord text (c :: word₁) text₁) (other : c.isAlpha = false)
      (fromLo : IsNumber (c :: word₁)) (next₂ : NextWord text₁ word₂ text₂)
      (fromHi : IsNumber word₂) (next₃ : NextWord text₂ word₃ text₃) (toLo : IsInteger word₃ lo)
      (next₄ : NextWord text₃ word₄ rest) (toHi : IsInteger word₄ hi) :
      Window text (some (lo, hi)) rest

/-- A word whose first letter, in either case, tells the destination. An integer follows that of a
controller. -/
inductive Target : List Char → List Char → Prop where
  | controller {c : Char} {word digits text middle rest : List Char} {n : Int}
      (next : NextWord text (c :: word) middle) (letter : c.toLower = 'c')
      (next' : NextWord middle digits rest) (integer : IsInteger digits n) : Target text rest
  | pitchBend {c : Char} {word text rest : List Char} (next : NextWord text (c :: word) rest)
      (letter : c.toLower = 'p') : Target text rest
  | note {c : Char} {word text rest : List Char} (next : NextWord text (c :: word) rest)
      (letter : c.toLower = 'n') : Target text rest

/-- The arguments of the command that starts with a letter. -/
inductive Arguments : Char → List Char → List Char → Prop where
  | channel {word text rest : List Char} {n : Int} (next : NextWord text word rest)
      (integer : IsInteger word n) : Arguments 'C' text rest
  | root {word text rest : List Char} (next : NextWord text word rest) (key : IsKey word) :
      Arguments 'R' text rest
  | scale {count : Nat} {text rest : List Char} (intervals : Intervals count text rest)
      (few : count ≤ 16) : Arguments 'S' text rest
  | octaves {word word' text middle rest : List Char} {n n' : Int}
      (next : NextWord text word middle) (integer : IsInteger word n)
      (next' : NextWord middle word' rest) (integer' : IsInteger word' n') :
      Arguments 'O' text rest
  | tempo {word text rest : List Char} {n : Int} (next : NextWord text word rest)
      (integer : IsInteger word n) : Arguments 'B' text rest
  | division {word text rest : List Char} (next : NextWord text word rest)
      (number : IsNumber word) : Arguments 'D' text rest
  | map {word text text₁ text₂ rest : List Char} {bounds : Option (Int × Int)}
      (next : NextWord text word text₁) (input : IsInput word) (window : Window text₁ bounds text₂)
      (target : Target text₂ rest)
      (ordered : ∀ lo hi, bounds = some (lo, hi) →
        max 0 (min lo 65535) ≤ max 0 (min hi 65535)) : Arguments 'M' text rest
  | finish {text : List Char} : Arguments 'E' text text

/-- A text that is a sequence of commands, with the first letters of these. A word that starts with
`#` where a command is expected starts a comment, which ends with its line. -/
inductive Commands : List Char → List Char → Prop where
  | done {text : List Char} (blank : ∀ c ∈ text, isBlank c) : Commands text []
  | comment {blanks body rest letters : List Char} (blank : ∀ c ∈ blanks, isBlank c)
      (line : ∀ c ∈ body, isLineEnd c = false) (ends : ∀ c ∈ rest.head?, isLineEnd c)
      (others : Commands rest letters) : Commands (blanks ++ '#' :: (body ++ rest)) letters
  | command {letter : Char} {word text middle rest letters : List Char}
      (next : NextWord text (letter :: word) middle) (arguments : Arguments letter middle rest)
      (others : Commands rest letters) : Commands text (letter :: letters)

/-! ## Words -/

theorem isLineEnd_eq_false {c : Char} (h : isBlank c = false) : isLineEnd c = false := by
  by_cases hend : isLineEnd c
  · rw [isBlank_of_isLineEnd hend] at h
    cases h
  · exact Bool.eq_false_iff.mpr hend

/-- What is left behind the characters that fail a test starts with one that passes it. -/
theorem of_mem_head?_dropWhile {test : Char → Bool} {text : List Char} {c : Char}
    (h : c ∈ (text.dropWhile (!test ·)).head?) : test c := by
  have hhead := List.head?_dropWhile_not (!test ·) text
  rw [Option.mem_def.mp h] at hhead
  simpa using hhead

/-- A word ends in front of the next blank. -/
theorem word_append (c : Char) (text : List Char) :
    (c :: text.takeWhile (!isBlank ·)) ++ text.dropWhile (!isBlank ·) = c :: text := by
  rw [List.cons_append, List.takeWhile_append_dropWhile]

theorem isBlank_of_mem_word {c : Char} {text : List Char} (h : isBlank c = false) :
    ∀ d ∈ c :: text.takeWhile (!isBlank ·), isBlank d = false := by
  rw [List.forall_mem_cons]
  refine ⟨h, ?_⟩
  intro d hd
  simpa using List.mem_takeWhile_imp hd

/-- A text consists of blanks, or it has a next word. -/
theorem blank_or_nextWord (text : List Char) :
    (∀ c ∈ text, isBlank c) ∨ ∃ c word rest, NextWord text (c :: word) rest := by
  induction text with
  | nil => exact .inl nofun
  | cons first text ih =>
    by_cases hfirst : isBlank first
    · rcases ih with hblank | ⟨c, word, rest, blanks, rfl, hblanks, hword⟩
      · left
        rw [List.forall_mem_cons]
        exact ⟨hfirst, hblank⟩
      · right
        refine ⟨c, word, rest, first :: blanks, rfl, ?_, hword⟩
        rw [List.forall_mem_cons]
        exact ⟨hfirst, hblanks⟩
    · right
      rw [Bool.not_eq_true] at hfirst
      exact ⟨first, text.takeWhile (!isBlank ·), text.dropWhile (!isBlank ·), [],
        (word_append first text).symm, nofun, List.cons_ne_nil _ _, isBlank_of_mem_word hfirst,
        fun c hc => of_mem_head?_dropWhile hc⟩

/-- A comment takes its word, and the rest of the line. -/
theorem NextWord.comment {text word rest : List Char} (h : NextWord text ('#' :: word) rest) :
    ∃ blanks body, text = blanks ++ '#' :: (body ++ rest.dropWhile (!isLineEnd ·)) ∧
      (∀ c ∈ blanks, isBlank c) ∧ ∀ c ∈ body, isLineEnd c = false := by
  obtain ⟨blanks, rfl, hblanks, -, hplain, -⟩ := h
  refine ⟨blanks, word ++ rest.takeWhile (!isLineEnd ·), ?_, hblanks, ?_⟩
  · rw [List.append_assoc, List.takeWhile_append_dropWhile, List.cons_append]
  · rw [List.forall_mem_append]
    constructor
    · intro c hc
      exact isLineEnd_eq_false (hplain c (List.mem_cons_of_mem _ hc))
    · intro c hc
      simpa using List.mem_takeWhile_imp hc

theorem nextWord_comment {blanks body rest : List Char} (hblanks : ∀ c ∈ blanks, isBlank c)
    (hbody : ∀ c ∈ body, isLineEnd c = false) (hrest : ∀ c ∈ rest.head?, isLineEnd c) :
    ∃ word behind, NextWord (blanks ++ '#' :: (body ++ rest)) ('#' :: word) behind ∧
      behind.dropWhile (!isLineEnd ·) = rest := by
  have hdrop : rest.dropWhile (!isLineEnd ·) = rest := by
    cases rest with
    | nil => rfl
    | cons c rest => simp [hrest c rfl]
  refine ⟨body.takeWhile (!isBlank ·), body.dropWhile (!isBlank ·) ++ rest,
    ⟨blanks, ?_, hblanks, List.cons_ne_nil _ _, isBlank_of_mem_word rfl, ?_⟩, ?_⟩
  · rw [← List.append_assoc (_ :: _), word_append, List.cons_append]
  · intro c hc
    rw [List.head?_append] at hc
    rcases Option.or_eq_some_iff.mp hc with hc | ⟨-, hc⟩
    · exact of_mem_head?_dropWhile hc
    · exact isBlank_of_isLineEnd (hrest c hc)
  · rw [List.dropWhile_append_of_pos, hdrop]
    intro c hc
    rw [hbody c (List.dropWhile_suffix _ |>.subset hc)]
    rfl

end Grammar

namespace Token

open Grammar

variable {text word rest : List Char} {token : Token} {tokens : List Token}

/-! ## The tokens of a text -/

/-- The tokens are those of the text, wherever it starts. -/
def Follow (tokens : List Token) (text : List Char) : Prop :=
  ∃ position startsLine, tokens = scanFrom position startsLine text

/-- The tokens are those of a text that comes behind a word. -/
def Behind (tokens : List Token) (text : List Char) : Prop :=
  ∃ position, tokens = scanFrom position false text

theorem follow_scan (text : List Char) : Follow (scan text) text :=
  ⟨0, false, rfl⟩

theorem Behind.follow (h : Behind tokens text) : Follow tokens text := by
  obtain ⟨position, rfl⟩ := h
  exact ⟨position, false, rfl⟩

/-- Blanks in front of a text are passed over. -/
theorem Follow.of_blanks {blanks : List Char} (hblanks : ∀ c ∈ blanks, isBlank c)
    (h : Follow tokens (blanks ++ text)) : Follow tokens text := by
  obtain ⟨position, startsLine, rfl⟩ := h
  induction blanks generalizing position startsLine with
  | nil => exact ⟨position, startsLine, rfl⟩
  | cons c blanks ih =>
    rw [List.forall_mem_cons] at hblanks
    rw [List.cons_append, scanFrom_blank hblanks.1]
    exact ih hblanks.2 _ _

theorem Follow.eq_nil (hblank : ∀ c ∈ text, isBlank c) (h : Follow tokens text) : tokens = [] := by
  rw [← List.append_nil text] at h
  obtain ⟨position, startsLine, rfl⟩ := h.of_blanks hblank
  rw [scanFrom]

/-- The first token is the next word. -/
theorem Follow.of_nextWord (hword : NextWord text word rest) (h : Follow tokens text) :
    ∃ token tokens', tokens = token :: tokens' ∧ token.chars = word ∧ Behind tokens' rest := by
  obtain ⟨blanks, rfl, hblanks, hne, hplain, hrest⟩ := hword
  obtain ⟨position, startsLine, rfl⟩ := h.of_blanks hblanks
  have hisWord : IsWord (String.ofList word) := by
    rw [IsWord, String.toList_ofList]
    exact ⟨hne, hplain⟩
  obtain ⟨token, hchars, hscan⟩ := scanFrom_word position startsLine hisWord rest hrest
  rw [String.toList_ofList] at hchars hscan
  exact ⟨token, _, hscan, hchars, _, rfl⟩

theorem Follow.head_of_nextWord (hword : NextWord text word rest)
    (h : Follow (token :: tokens) text) : token.chars = word ∧ Behind tokens rest := by
  obtain ⟨token', tokens', htokens, hchars, hbehind⟩ := h.of_nextWord hword
  cases htokens
  exact ⟨hchars, hbehind⟩

theorem Follow.nextWord (h : Follow (token :: tokens) text) :
    ∃ rest, NextWord text token.chars rest ∧ Behind tokens rest := by
  rcases blank_or_nextWord text with hblank | ⟨c, word, rest, hword⟩
  · cases h.eq_nil hblank
  · obtain ⟨hchars, hbehind⟩ := h.head_of_nextWord hword
    rw [hchars]
    exact ⟨rest, hword, hbehind⟩

theorem Follow.not_nextWord (h : Follow [] text) : ¬NextWord text word rest := by
  intro hword
  obtain ⟨token, tokens, htokens, -⟩ := h.of_nextWord hword
  cases htokens

/-- At the start of a line there is nothing to be left out of it. -/
theorem dropWhile_scanFrom_startsLine (position : Nat) (text : List Char) :
    (scanFrom position true text).dropWhile (!·.startsLine) = scanFrom position true text := by
  induction text generalizing position with
  | nil => simp
  | cons c text ih =>
    rw [scanFrom]
    split
    · exact ih _
    · rfl

/-- Behind the end of the line the words are those of the text from there. -/
theorem dropWhile_scanFrom (position : Nat) (text : List Char) :
    ∃ startsLine, (scanFrom position false text).dropWhile (!·.startsLine) =
      scanFrom (position + byteLength (text.takeWhile (!isLineEnd ·))) startsLine
        (text.dropWhile (!isLineEnd ·)) := by
  generalize hflag : false = startsLine
  induction position, startsLine, text using scanFrom.induct with
  | case1 position startsLine => exact ⟨false, by simp⟩
  | case2 position startsLine c text hblank ih =>
    subst hflag
    rw [scanFrom_blank hblank]
    by_cases hend : isLineEnd c
    · rw [hend, Bool.or_true, dropWhile_scanFrom_startsLine,
        List.dropWhile_cons_of_neg (by simp [hend]), List.takeWhile_cons_of_neg (by simp [hend])]
      refine ⟨true, ?_⟩
      rw [scanFrom_blank hblank, Bool.true_or]
      rfl
    · rw [Bool.not_eq_true] at hend
      obtain ⟨startsLine, hbehind⟩ := ih (by rw [hend]; rfl)
      refine ⟨startsLine, ?_⟩
      rw [List.dropWhile_cons_of_pos (by simp [hend]), List.takeWhile_cons_of_pos (by simp [hend]),
        hbehind, byteLength, Nat.add_assoc]
  | case3 position startsLine c text hplain word ih =>
    subst hflag
    obtain ⟨startsLine, hbehind⟩ := ih rfl
    -- No line ends within a word.
    have hline : ∀ d ∈ c :: word, (!isLineEnd d) = true := by
      intro d hd
      rw [isLineEnd_eq_false (isBlank_of_mem_word (by simpa using hplain) d hd)]
      rfl
    refine ⟨startsLine, ?_⟩
    rw [scanFrom, if_neg hplain, List.dropWhile_cons_of_pos (by rfl), ← word_append c text,
      List.dropWhile_append_of_pos hline, List.takeWhile_append_of_pos hline, byteLength_append,
      ← Nat.add_assoc]
    exact hbehind

theorem Behind.dropWhile (h : Behind tokens text) :
    Follow (tokens.dropWhile (!·.startsLine)) (text.dropWhile (!isLineEnd ·)) := by
  obtain ⟨position, rfl⟩ := h
  obtain ⟨startsLine, hbehind⟩ := dropWhile_scanFrom position text
  exact ⟨_, startsLine, hbehind⟩

end Token

end MotionMidi
