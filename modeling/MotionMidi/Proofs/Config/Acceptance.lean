import MotionMidi.Proofs.Config.Grammar

/-!
# The accepted texts

A text is read without an error exactly if it belongs to the grammar and declares no more mappings
than a configuration holds.

## Design notes

The words of a text and its characters are gone through together: `Token.Follow` says that some
tokens are those of some text. Sentences then take the same words as the forms of the grammar, in
one case for each command, first from the words to the characters and then back.

Main statements: `Composed.commands`, `Grammar.Commands.composed`, `Config.parse_isOk_iff`.
-/

namespace MotionMidi

open Grammar

/-! ## Words -/

theorem Numeral.integer?_eq_some_iff {word : List Char} {n : Int} :
    integer? word = some n ↔ IsInteger word n := by
  constructor
  · intro h
    unfold integer? at h
    split at h
    case h_1 negative digits hsplit =>
      split at h
      case isTrue hdigits =>
        cases h
        have hall := List.all_eq_true.mp hdigits.2
        -- The cases of the sign.
        unfold splitSign at hsplit
        split at hsplit <;> cases hsplit
        · exact .minus hdigits.1 hall
        · exact .plus hdigits.1 hall
        · exact .unsigned hdigits.1 hall
      case isFalse => cases h
  · rintro (⟨hne, hall⟩ | ⟨hne, hall⟩ | ⟨hne, hall⟩)
    all_goals have hdigits := List.all_eq_true.mpr hall
    · have hsplit := splitSign_signed false hne hdigits []
      rw [if_neg Bool.false_ne_true, List.append_nil] at hsplit
      simp [integer?, hsplit, hne, hdigits]
    · simp [integer?, splitSign, hne, hdigits]
    · simp [integer?, splitSign, hne, hdigits]

theorem Key.exists_natural?_iff {letter : Char} :
    (∃ key, natural? letter = some key) ↔
      letter.toUpper ∈ ['A', 'B', 'C', 'D', 'E', 'F', 'G'] := by
  unfold natural?
  split <;> simp_all

theorem Key.exists_parse?_iff {word : List Char} :
    (∃ key, parse? word = some key) ↔ IsKey word := by
  constructor
  · rintro ⟨key, h⟩
    unfold parse? at h
    split at h
    case h_1 letter => exact ⟨letter, exists_natural?_iff.mp ⟨key, h⟩, .inl rfl⟩
    case h_2 letter =>
      obtain ⟨natural, hnatural, -⟩ := Option.map_eq_some_iff.mp h
      exact ⟨letter, exists_natural?_iff.mp ⟨natural, hnatural⟩, .inr (.inl rfl)⟩
    case h_3 letter =>
      obtain ⟨natural, hnatural, -⟩ := Option.map_eq_some_iff.mp h
      exact ⟨letter, exists_natural?_iff.mp ⟨natural, hnatural⟩, .inr (.inr rfl)⟩
    case h_4 => cases h
  · rintro ⟨letter, hletter, rfl | rfl | rfl⟩
    all_goals obtain ⟨natural, hnatural⟩ := exists_natural?_iff.mpr hletter
    · exact ⟨natural, hnatural⟩
    · exact ⟨natural.transpose 11, by rw [parse?, hnatural]; rfl⟩
    · exact ⟨natural.transpose 1, by rw [parse?, hnatural]; rfl⟩

theorem Input.exists_parse?_iff {word : List Char} :
    (∃ input, parse? word = some input) ↔ IsInput word := by
  rw [← Option.isSome_iff_exists, parse?, List.find?_isSome]
  constructor
  · rintro ⟨input, -, h⟩
    refine ⟨input.mnemonic, ?_, (of_decide_eq_true h).symm⟩
    rcases input with ⟨_ | _, _ | _ | _⟩ | ⟨_ | _ | _⟩ <;> decide
  · rintro ⟨name, hname, h⟩
    have hnames : ∀ name ∈ ["ax", "ay", "az", "jx", "jy", "jx+", "jx-", "jy+", "jy-"],
        ∃ input ∈ all, input.mnemonic = name := by
      decide
    obtain ⟨input, hinput, rfl⟩ := hnames name hname
    exact ⟨input, hinput, by simp [h]⟩

/-- A word that is an integer is one for every field. -/
theorem Reader.exists_literal?_iff {field : Field} {token : Token} {n : Int} :
    (∃ literal, literal? field token = some literal ∧ literal.value = n) ↔
      IsInteger token.chars n := by
  rw [← Numeral.integer?_eq_some_iff]
  constructor
  · rintro ⟨literal, hliteral, rfl⟩
    obtain ⟨value, hvalue, rfl⟩ := Option.map_eq_some_iff.mp hliteral
    exact hvalue
  · intro hvalue
    exact ⟨⟨field, token.position, n⟩, by rw [literal?, hvalue]; rfl, rfl⟩

theorem Reader.isInteger_of_literal? {field : Field} {token : Token} {literal : Literal}
    (h : literal? field token = some literal) : IsInteger token.chars literal.value :=
  exists_literal?_iff.mp ⟨literal, h, rfl⟩

theorem Grammar.IsInteger.exists_literal? {token : Token} {n : Int} (h : IsInteger token.chars n)
    (field : Field) : ∃ literal, Reader.literal? field token = some literal ∧ literal.value = n :=
  Reader.exists_literal?_iff.mpr h

/-! ## Arguments -/

section Arguments

variable {text text' : List Char} {tokens words rest : List Token}

theorem Target.Spelled.target {target : Target} (h : Target.Spelled words target)
    (hfollow : Token.Follow (words ++ rest) text) :
    ∃ text', Grammar.Target text text' ∧ Token.Follow rest text' := by
  cases h with
  | controlChange letter integer =>
    obtain ⟨middle, hname, hbehind⟩ := hfollow.nextWord
    obtain ⟨text', hword, hbehind'⟩ := hbehind.follow.nextWord
    exact ⟨text', .controller hname letter hword (Reader.isInteger_of_literal? integer),
      hbehind'.follow⟩
  | pitchBend letter =>
    obtain ⟨text', hname, hbehind⟩ := hfollow.nextWord
    exact ⟨text', .pitchBend hname letter, hbehind.follow⟩
  | note letter =>
    obtain ⟨text', hname, hbehind⟩ := hfollow.nextWord
    exact ⟨text', .note hname letter, hbehind.follow⟩

theorem Grammar.Target.spelled (h : Grammar.Target text text')
    (hfollow : Token.Follow tokens text) :
    ∃ words rest target, tokens = words ++ rest ∧ Target.Spelled words target ∧
      Token.Follow rest text' := by
  cases h with
  | controller next letter next' integer =>
    obtain ⟨name, tokens, rfl, hname, hbehind⟩ := hfollow.of_nextWord next
    obtain ⟨token, rest, rfl, rfl, hbehind'⟩ := hbehind.follow.of_nextWord next'
    obtain ⟨literal, hliteral, -⟩ := integer.exists_literal? .controller
    rw [← Token.first_of_chars hname] at letter
    exact ⟨[name, token], rest, _, rfl, .controlChange letter hliteral, hbehind'.follow⟩
  | pitchBend next letter =>
    obtain ⟨name, rest, rfl, hname, hbehind⟩ := hfollow.of_nextWord next
    rw [← Token.first_of_chars hname] at letter
    exact ⟨[name], rest, _, rfl, .pitchBend letter, hbehind.follow⟩
  | note next letter =>
    obtain ⟨name, rest, rfl, hname, hbehind⟩ := hfollow.of_nextWord next
    rw [← Token.first_of_chars hname] at letter
    exact ⟨[name], rest, _, rfl, .note letter, hbehind.follow⟩

/-- The bounds of an output range, as they were written. -/
def Window.bounds (window : Window) : Int × Int :=
  (window.toLo.value, window.toHi.value)

/-- The first letter of the next word, as long as there is one. -/
theorem Token.Follow.first {P : Char → Prop} (hfollow : Token.Follow tokens text)
    (h : ∀ token ∈ tokens.head?, P token.first) {c : Char} {word rest : List Char}
    (hword : NextWord text (c :: word) rest) : P c := by
  obtain ⟨token, tokens, rfl, hchars, -⟩ := hfollow.of_nextWord hword
  rw [← Token.first_of_chars hchars]
  exact h token rfl

theorem Token.Follow.head {P : Char → Prop} (hfollow : Token.Follow tokens text)
    (h : ∀ c word rest, NextWord text (c :: word) rest → P c) :
    ∀ token ∈ tokens.head?, P token.first := by
  intro token htoken
  obtain ⟨tokens, rfl⟩ := List.head?_eq_some_iff.mp htoken
  obtain ⟨rest, hword, -⟩ := hfollow.nextWord
  exact h _ _ _ hword

theorem Window.Spelled.window {window? : Option Window} (h : Window.Spelled words window?)
    (hnext : window? = none → ∀ token ∈ rest.head?, token.first.isAlpha)
    (hfollow : Token.Follow (words ++ rest) text) :
    ∃ text', Grammar.Window text (window?.map Window.bounds) text' ∧ Token.Follow rest text' := by
  cases h with
  | absent =>
    exact ⟨text, .absent fun _ _ _ => hfollow.first (P := (·.isAlpha)) (hnext rfl), hfollow⟩
  | present other fromLo fromHi toLo toHi =>
    obtain ⟨text₁, hword₁, hbehind₁⟩ := hfollow.nextWord
    obtain ⟨text₂, hword₂, hbehind₂⟩ := hbehind₁.follow.nextWord
    obtain ⟨text₃, hword₃, hbehind₃⟩ := hbehind₂.follow.nextWord
    obtain ⟨text₄, hword₄, hbehind₄⟩ := hbehind₃.follow.nextWord
    exact ⟨text₄, .present hword₁ other ⟨_, fromLo⟩ hword₂ ⟨_, fromHi⟩ hword₃
      (Reader.isInteger_of_literal? toLo) hword₄ (Reader.isInteger_of_literal? toHi),
      hbehind₄.follow⟩

theorem Grammar.Window.spelled {bounds : Option (Int × Int)} (h : Grammar.Window text bounds text')
    (hfollow : Token.Follow tokens text) :
    ∃ words rest window?, tokens = words ++ rest ∧ Window.Spelled words window? ∧
      window?.map Window.bounds = bounds ∧ Token.Follow rest text' := by
  cases h with
  | absent letter => exact ⟨[], tokens, none, rfl, .absent, rfl, hfollow⟩
  | present next₁ other fromLo next₂ fromHi next₃ toLo next₄ toHi =>
    obtain ⟨t₁, tokens, rfl, hchars, hbehind₁⟩ := hfollow.of_nextWord next₁
    obtain ⟨t₂, tokens, rfl, rfl, hbehind₂⟩ := hbehind₁.follow.of_nextWord next₂
    obtain ⟨t₃, tokens, rfl, rfl, hbehind₃⟩ := hbehind₂.follow.of_nextWord next₃
    obtain ⟨t₄, rest, rfl, rfl, hbehind₄⟩ := hbehind₃.follow.of_nextWord next₄
    rw [← Token.first_of_chars hchars] at other
    rw [← hchars] at fromLo
    obtain ⟨x, hx⟩ := fromLo
    obtain ⟨y, hy⟩ := fromHi
    obtain ⟨lo, hlo, rfl⟩ := toLo.exists_literal? .output
    obtain ⟨hi, hhi, rfl⟩ := toHi.exists_literal? .output
    let window : MotionMidi.Window := ⟨x, y, lo, hi⟩
    exact ⟨[t₁, t₂, t₃, t₄], rest, some window, rfl,
      @MotionMidi.Window.Spelled.present _ _ _ _ window other hx hy hlo hhi, rfl, hbehind₄.follow⟩

/-- The integers of a scale, up to a word that does not start with a digit. -/
theorem intervals_of_spelled {literals : List Literal}
    (integers : List.Forall₂ (Reader.literal? .interval · = some ·) words literals)
    (digits : ∀ token ∈ words, token.first.isDigit) (hends : Command.Ends 'S' rest)
    (hfollow : Token.Follow (words ++ rest) text) :
    ∃ text', Intervals words.length text text' ∧ Token.Follow rest text' := by
  induction integers generalizing text with
  | nil =>
    exact ⟨text, .done fun _ _ _ => hfollow.first (P := (·.isDigit = false)) (hends rfl), hfollow⟩
  | cons integer integers ih =>
    rw [List.forall_mem_cons] at digits
    obtain ⟨middle, hword, hbehind⟩ := hfollow.nextWord
    obtain ⟨text', hintervals, hfollow'⟩ := ih digits.2 hbehind.follow
    exact ⟨text', .more hword digits.1 (Reader.isInteger_of_literal? integer) hintervals, hfollow'⟩

theorem Grammar.Intervals.spelled {count : Nat} (h : Intervals count text text')
    (hfollow : Token.Follow tokens text) :
    ∃ words rest literals, tokens = words ++ rest ∧ words.length = count ∧
      List.Forall₂ (Reader.literal? .interval · = some ·) words literals ∧
      (∀ token ∈ words, token.first.isDigit) ∧ Command.Ends 'S' rest ∧
      Token.Follow rest text' := by
  induction h generalizing tokens with
  | done ends => exact ⟨[], tokens, [], rfl, rfl, .nil, nofun, fun _ => hfollow.head ends, hfollow⟩
  | more next digit integer others ih =>
    obtain ⟨token, tokens, rfl, hchars, hbehind⟩ := hfollow.of_nextWord next
    obtain ⟨words, rest, literals, rfl, rfl, hliterals, hdigits, hends, hfollow'⟩ :=
      ih hbehind.follow
    rw [← hchars] at integer
    obtain ⟨literal, hliteral, -⟩ := integer.exists_literal? .interval
    refine ⟨token :: words, rest, literal :: literals, rfl, rfl, .cons hliteral hliterals, ?_,
      hends, hfollow'⟩
    rw [List.forall_mem_cons, Token.first_of_chars hchars]
    exact ⟨digit, hdigits⟩

/-- An output range is ascending as it was written if it is so when its bounds are brought into
range. -/
theorem Window.Typed.ordered_iff {window : Window} (h : window.Typed) :
    window.Ordered ↔
      max 0 (min window.toLo.value 65535) ≤ max 0 (min window.toHi.value 65535) := by
  have hclamped (literal : Literal) (hfield : literal.field = .output) :
      (literal.clamped : Int) = max 0 (min literal.value 65535) := by
    rw [Literal.clamped, hfield]
    simp only [Field.lowest, Field.highest]
    omega
  rw [Window.Ordered, ← Int.ofNat_le, hclamped _ h.toLo, hclamped _ h.toHi]

theorem Command.Spelled.arguments {letter : Char} {command : Command}
    (h : Command.Spelled letter words command) (hends : Command.Ends letter rest)
    (hfollow : Token.Follow (words ++ rest) text) :
    ∃ text', Arguments letter text text' ∧ Token.Follow rest text' := by
  cases h with
  | channel integer =>
    obtain ⟨text', hword, hbehind⟩ := hfollow.nextWord
    exact ⟨text', .channel hword (Reader.isInteger_of_literal? integer), hbehind.follow⟩
  | root pitch =>
    obtain ⟨text', hword, hbehind⟩ := hfollow.nextWord
    exact ⟨text', .root hword (Key.exists_parse?_iff.mp ⟨_, pitch⟩), hbehind.follow⟩
  | scale integers digits few =>
    obtain ⟨text', hintervals, hfollow'⟩ := intervals_of_spelled integers digits hends hfollow
    exact ⟨text', .scale hintervals few, hfollow'⟩
  | octaves integer integer' =>
    obtain ⟨middle, hword, hbehind⟩ := hfollow.nextWord
    obtain ⟨text', hword', hbehind'⟩ := hbehind.follow.nextWord
    exact ⟨text', .octaves hword (Reader.isInteger_of_literal? integer) hword'
      (Reader.isInteger_of_literal? integer'), hbehind'.follow⟩
  | tempo integer =>
    obtain ⟨text', hword, hbehind⟩ := hfollow.nextWord
    exact ⟨text', .tempo hword (Reader.isInteger_of_literal? integer), hbehind.follow⟩
  | division number =>
    obtain ⟨text', hword, hbehind⟩ := hfollow.nextWord
    exact ⟨text', .division hword ⟨_, number⟩, hbehind.follow⟩
  | @map token words words' declaration input window target =>
    rw [List.cons_append, List.append_assoc] at hfollow
    obtain ⟨text₁, hword, hbehind⟩ := hfollow.nextWord
    obtain ⟨text₂, hwindow, hfollow₂⟩ :=
      window.window (fun _ => target.isAlpha_head rest) hbehind.follow
    obtain ⟨text', htarget, hfollow'⟩ := target.target hfollow₂
    refine ⟨text', .map hword (Input.exists_parse?_iff.mp ⟨_, input⟩) hwindow htarget ?_, hfollow'⟩
    intro lo hi hbounds
    obtain ⟨w, hw, ⟨⟩⟩ := Option.map_eq_some_iff.mp hbounds
    exact (window.typed w hw).ordered_iff.mp (declaration.ordered w hw)
  | finish => exact ⟨text, .finish, hfollow⟩

theorem Grammar.Arguments.spelled {letter : Char} (h : Arguments letter text text')
    (hfollow : Token.Follow tokens text) :
    ∃ words rest command, tokens = words ++ rest ∧ Command.Spelled letter words command ∧
      Command.Ends letter rest ∧ Token.Follow rest text' := by
  cases h with
  | channel next integer =>
    obtain ⟨token, rest, rfl, rfl, hbehind⟩ := hfollow.of_nextWord next
    obtain ⟨literal, hliteral, -⟩ := integer.exists_literal? .channel
    exact ⟨[token], rest, _, rfl, .channel hliteral, .of_ne (by decide) rest, hbehind.follow⟩
  | root next key =>
    obtain ⟨token, rest, rfl, rfl, hbehind⟩ := hfollow.of_nextWord next
    obtain ⟨key, hkey⟩ := Key.exists_parse?_iff.mpr key
    exact ⟨[token], rest, _, rfl, .root hkey, .of_ne (by decide) rest, hbehind.follow⟩
  | scale intervals few =>
    obtain ⟨words, rest, literals, rfl, rfl, hliterals, hdigits, hends, hfollow'⟩ :=
      intervals.spelled hfollow
    exact ⟨words, rest, _, rfl, .scale hliterals hdigits few, hends, hfollow'⟩
  | octaves next integer next' integer' =>
    obtain ⟨token, tokens, rfl, rfl, hbehind⟩ := hfollow.of_nextWord next
    obtain ⟨token', rest, rfl, rfl, hbehind'⟩ := hbehind.follow.of_nextWord next'
    obtain ⟨first, hfirst, -⟩ := integer.exists_literal? .octave
    obtain ⟨last, hlast, -⟩ := integer'.exists_literal? .octave
    exact ⟨[token, token'], rest, _, rfl, .octaves hfirst hlast, .of_ne (by decide) rest,
      hbehind'.follow⟩
  | tempo next integer =>
    obtain ⟨token, rest, rfl, rfl, hbehind⟩ := hfollow.of_nextWord next
    obtain ⟨literal, hliteral, -⟩ := integer.exists_literal? .tempo
    exact ⟨[token], rest, _, rfl, .tempo hliteral, .of_ne (by decide) rest, hbehind.follow⟩
  | division next number =>
    obtain ⟨token, rest, rfl, rfl, hbehind⟩ := hfollow.of_nextWord next
    obtain ⟨x, hx⟩ := number
    exact ⟨[token], rest, _, rfl, .division hx, .of_ne (by decide) rest, hbehind.follow⟩
  | map next input window target ordered =>
    obtain ⟨token, tokens, rfl, rfl, hbehind⟩ := hfollow.of_nextWord next
    obtain ⟨input, hinput⟩ := Input.exists_parse?_iff.mpr input
    obtain ⟨words, tokens, window?, rfl, hwindow, rfl, hfollow₂⟩ := window.spelled hbehind.follow
    obtain ⟨words', rest, target, rfl, htarget, hfollow'⟩ := target.spelled hfollow₂
    have hordered : ∀ w ∈ window?, w.Ordered := by
      rintro w hw
      cases hw
      exact (hwindow.typed w rfl).ordered_iff.mpr (ordered _ _ rfl)
    let declaration : Declaration := ⟨input, window?, target, hordered⟩
    refine ⟨token :: (words ++ words'), rest, .map declaration, ?_,
      @Command.Spelled.map _ _ _ declaration hinput hwindow htarget, .of_ne (by decide) rest,
      hfollow'⟩
    rw [List.cons_append, List.append_assoc]
  | finish => exact ⟨[], tokens, _, rfl, .finish, .of_ne (by decide) tokens, hfollow⟩

end Arguments

/-! ## Texts -/

section Texts

variable {text letters : List Char} {tokens : List Token} {sentences : List Sentence}

theorem Composed.commands (h : Composed tokens sentences) (hfollow : Token.Follow tokens text) :
    Commands text (sentences.map (·.name.first)) := by
  induction h generalizing text with
  | done =>
    rcases blank_or_nextWord text with hblank | ⟨c, word, rest, hword⟩
    · exact .done hblank
    · exact absurd hword hfollow.not_nextWord
  | comment hash others ih =>
    obtain ⟨rest, hword, hbehind⟩ := hfollow.nextWord
    rw [Token.chars, hash] at hword
    obtain ⟨blanks, body, rfl, hblanks, hbody⟩ := hword.comment
    exact .comment hblanks hbody (fun c hc => of_mem_head?_dropWhile hc) (ih hbehind.dropWhile)
  | @sentence sentence rest sentences ends others ih =>
    obtain ⟨middle, hword, hbehind⟩ := hfollow.nextWord
    obtain ⟨behind, harguments, hfollow'⟩ := sentence.spelled.arguments ends hbehind.follow
    exact .command hword harguments (ih hfollow')

theorem Grammar.Commands.composed (h : Commands text letters) (hfollow : Token.Follow tokens text) :
    ∃ sentences, Composed tokens sentences ∧ sentences.map (·.name.first) = letters := by
  induction h generalizing tokens with
  | done blank =>
    rw [hfollow.eq_nil blank]
    exact ⟨[], .done, rfl⟩
  | comment blank line ends others ih =>
    obtain ⟨word, behind, hword, rfl⟩ := nextWord_comment blank line ends
    obtain ⟨token, tokens, rfl, hchars, hbehind⟩ := hfollow.of_nextWord hword
    obtain ⟨sentences, hcomposed, hletters⟩ := ih hbehind.dropWhile
    exact ⟨sentences, .comment (Token.first_of_chars hchars) hcomposed, hletters⟩
  | command next arguments others ih =>
    obtain ⟨name, tokens, rfl, hname, hbehind⟩ := hfollow.of_nextWord next
    obtain ⟨words, rest, command, rfl, hspelled, hends, hfollow'⟩ :=
      arguments.spelled hbehind.follow
    obtain ⟨sentences, hcomposed, rfl⟩ := ih hfollow'
    obtain rfl := Token.first_of_chars hname
    exact ⟨⟨name, words, command, hspelled⟩ :: sentences,
      @Composed.sentence ⟨name, words, command, hspelled⟩ _ _ hends hcomposed, rfl⟩

/-- The mappings of a text are told by the letters of its commands. -/
theorem length_declarations (sentences : List Sentence) :
    ((sentences.map Sentence.command).filterMap Command.declaration?).length =
      (sentences.map (·.name.first)).count 'M' := by
  induction sentences with
  | nil => rfl
  | cons sentence sentences ih =>
    have hletter := sentence.spelled.declaration?_isSome
    rw [List.map_cons, List.map_cons, List.filterMap_cons, List.count_cons, ← ih]
    cases hdeclaration : sentence.command.declaration? <;> simp_all

end Texts

namespace Config

/-- The texts that are read without an error. -/
theorem parse_isOk_iff (text : String) :
    (∃ parsed, parse text = .ok parsed) ↔
      ∃ letters, Commands text.toList letters ∧ letters.count 'M' ≤ 10 := by
  have hfollow := Token.follow_scan text.toList
  constructor
  · rintro ⟨parsed, hparsed⟩
    obtain ⟨sentences, hcomposed, hroom, -⟩ := parse_eq_ok_iff.mp hparsed
    rw [length_declarations] at hroom
    exact ⟨_, hcomposed.commands hfollow, hroom⟩
  · rintro ⟨letters, hletters, hroom⟩
    obtain ⟨sentences, hcomposed, rfl⟩ := hletters.composed hfollow
    rw [← length_declarations] at hroom
    exact ⟨_, parse_eq_ok_iff.mpr ⟨sentences, hcomposed, hroom, rfl⟩⟩

end Config

end MotionMidi
