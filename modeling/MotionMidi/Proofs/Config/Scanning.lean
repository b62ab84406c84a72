import MotionMidi.Proofs.Config.Acceptance
import MotionMidi.Proofs.Config.Cursor
import MotionMidi.Proofs.Config.Progress

/-!
# What the cursor reads

Reading with a cursor comes to the same as reading the words one after the other. No slice is ever
out of bounds or cuts a character in two.

## Main definitions

- `Cursor.Follows` — the words that are left behind the cursor
- `Cursor.Simulates` — a scan that does what a reader does

## Design notes

The cursor may stand anywhere between words or behind one, but not within one, so there is no word
that runs across it (`Apart`). Every move keeps it that way.

Main statement: `Cursor.parse_eq`.
-/

namespace MotionMidi

namespace Cursor

open Scan

variable {text : List Char}

/-! ## Words behind the cursor -/

variable (text) in
/-- The words that are left behind the cursor. -/
def Follows (cursor : Nat) (tokens : List Token) : Prop :=
  ∃ front back startsLine, text = front ++ back ∧ byteLength front = cursor ∧ Apart front back ∧
    tokens = Token.scanFrom cursor startsLine back

variable (text) in
/-- The words that are left, of which the first one starts at the cursor. -/
def Faces (cursor : Nat) (tokens : List Token) : Prop :=
  ∃ front back startsLine, text = front ++ back ∧ byteLength front = cursor ∧ Apart front back ∧
    tokens = Token.scanFrom cursor startsLine back ∧ ∀ c ∈ back.head?, isBlank c = false

section Words

variable {start : Nat} {tokens rest : List Token} {word : Token}

theorem follows_scan (text : List Char) : Follows text 0 (Token.scan text) :=
  ⟨[], text, false, rfl, rfl, apart_nil text, rfl⟩

theorem Faces.follows (h : Faces text start tokens) : Follows text start tokens := by
  obtain ⟨front, back, startsLine, htext, hstart, hapart, htokens, -⟩ := h
  exact ⟨front, back, startsLine, htext, hstart, hapart, htokens⟩

/-- Behind the blanks the next word starts. -/
theorem Follows.faces (h : Follows text start tokens) :
    Faces text (skipBlanks text start) tokens := by
  obtain ⟨front, back, startsLine, rfl, rfl, hapart, rfl⟩ := h
  have hblanks : ∀ c ∈ back.takeWhile isBlank, isBlank c :=
    fun c hc => List.mem_takeWhile_imp (p := isBlank) hc
  have hback : ∀ c ∈ (back.dropWhile isBlank).head?, isBlank c = false := by
    intro c hc
    have hhead := List.head?_dropWhile_not isBlank back
    rw [Option.mem_def.mp hc] at hhead
    simpa using hhead
  have hsplit : back.takeWhile isBlank ++ back.dropWhile isBlank = back :=
    List.takeWhile_append_dropWhile
  generalize back.takeWhile isBlank = blanks at hblanks hsplit
  generalize back.dropWhile isBlank = behind at hback hsplit
  subst hsplit
  have hlast : ∀ c ∈ blanks.getLast?, isBlank c :=
    fun c hc => hblanks c (List.mem_of_getLast? hc)
  obtain ⟨startsLine', happend⟩ := Token.scanFrom_append (byteLength front) startsLine blanks
  have hnone : Token.scanFrom (byteLength front) startsLine blanks = [] :=
    Token.Follow.eq_nil hblanks ⟨_, _, rfl⟩
  refine ⟨front ++ blanks, behind, startsLine', by rw [List.append_assoc], ?_, ?_, ?_, hback⟩
  · rw [byteLength_append, skipBlanks_append front blanks behind hblanks hback]
  · cases blanks with
    | nil => rwa [List.append_nil]
    | cons c blanks =>
      left
      rwa [List.getLast?_append_of_ne_nil _ (List.cons_ne_nil c blanks)]
  · rw [happend behind (.inl hlast), hnone, skipBlanks_append front blanks behind hblanks hback]
    rfl

theorem Faces.eq_end (h : Faces text start []) : start = byteLength text := by
  obtain ⟨front, back, startsLine, rfl, rfl, -, htokens, hback⟩ := h
  cases back with
  | nil => rw [List.append_nil]
  | cons c back =>
    rw [Token.scanFrom, if_neg (by rw [hback c rfl]; exact Bool.false_ne_true)] at htokens
    cases htokens

theorem Faces.cons (h : Faces text start (word :: rest)) :
    word.position = start ∧ ∃ front back, text = front ++ (word.chars ++ back) ∧
      byteLength front = start ∧ (∀ c ∈ word.chars, isBlank c = false) ∧
      (∀ c ∈ back.head?, isBlank c) ∧
      rest = Token.scanFrom (start + byteLength word.chars) false back := by
  obtain ⟨front, back, startsLine, rfl, rfl, -, htokens, hback⟩ := h
  cases back with
  | nil =>
    rw [Token.scanFrom] at htokens
    cases htokens
  | cons c back =>
    have hplain := hback c rfl
    rw [Token.scanFrom, if_neg (by rw [hplain]; exact Bool.false_ne_true)] at htokens
    obtain ⟨rfl, rfl⟩ := List.cons.inj htokens
    exact ⟨rfl, front, back.dropWhile (!isBlank ·), congrArg _ (Grammar.word_append c back).symm,
      rfl, Grammar.isBlank_of_mem_word hplain, fun d hd => Grammar.of_mem_head?_dropWhile hd, rfl⟩

/-! ## Moves and words -/

theorem position_eq (text : List Char) (start : Nat) :
    position text start = some (.ok (skipBlanks text start, skipBlanks text start)) :=
  rfl

theorem token_nil (h : Follows text start []) :
    token text start = some (.error (.malformedToken (byteLength text))) := by
  have hseek : seek isBlank text [] (byteLength text) = byteLength text := rfl
  rw [token, bind_ok (position_eq text start), h.faces.eq_end,
    bind_ok (checked_some (dropBytes?_length text) _), hseek, if_pos rfl]
  rfl

theorem token_cons (h : Follows text start (word :: rest)) :
    ∃ stop, token text start = some (.ok ((word.position, word.chars), stop)) ∧
      Follows text stop rest := by
  obtain ⟨hposition, front, back, rfl, hfront, hplain, hback, hrest⟩ := h.faces.cons
  have htake : (word.chars ++ back).takeWhile (!isBlank ·) = word.chars := by
    rw [List.takeWhile_append_of_pos (by simpa using hplain)]
    cases back with
    | nil => simp
    | cons c back => simp [hback c rfl]
  have hdrop := dropBytes?_append front (word.chars ++ back)
  have hseek := seek_eq isBlank front (word.chars ++ back)
  have hslice := slice?_append front word.chars back
  rw [hfront] at hdrop hseek hslice
  rw [htake] at hseek
  have hne : ¬skipBlanks (front ++ (word.chars ++ back)) start + byteLength word.chars =
      skipBlanks (front ++ (word.chars ++ back)) start := by
    have := byteLength_pos (List.cons_ne_nil word.first word.rest)
    rw [Token.chars]
    omega
  refine ⟨_, ?_, front ++ word.chars, back, false, (List.append_assoc ..).symm, ?_, .inr hback,
    hrest⟩
  · rw [token, bind_ok (position_eq _ start), bind_ok (checked_some hdrop _), hseek, if_neg hne,
      hposition]
    exact bind_ok (checked_some hslice _) _
  · simp [hfront]

theorem peekToken_nil (h : Follows text start []) :
    peekToken text start = some (.ok (none, start)) := by
  rw [peekToken, token_nil h]

theorem peekToken_cons (h : Follows text start (word :: rest)) :
    peekToken text start = some (.ok (some word.chars, start)) := by
  obtain ⟨stop, htoken, -⟩ := token_cons h
  rw [peekToken, htoken]

theorem peekByte_nil (h : Follows text start []) :
    ∃ stop, peekByte text start = some (.ok (none, stop)) := by
  refine ⟨skipBlanks text start, ?_⟩
  have hbyte : byteAt? text (skipBlanks text start) = none := by
    simp [h.faces.eq_end]
  rw [peekByte, bind_ok (position_eq text start), hbyte]
  rfl

/-- The next byte is the first character of the next word, or neither of them is ASCII. -/
theorem peekByte_cons (h : Follows text start (word :: rest)) :
    ∃ byte stop, peekByte text start = some (.ok (some byte, stop)) ∧
      Faces text stop (word :: rest) ∧
      (byte = word.first ∨ 128 ≤ word.first.toNat ∧ 128 ≤ byte.toNat) := by
  have hfaces := h.faces
  obtain ⟨-, front, back, htext, hfront, -⟩ := h.faces.cons
  obtain ⟨byte, hbyte, hfirst⟩ := byteAt?_head word.first (word.rest ++ back)
  refine ⟨byte, skipBlanks text start, ?_, hfaces, hfirst⟩
  have hbyte : byteAt? text (skipBlanks text start) = some byte := by
    rw [← hfront, htext]
    simpa [Token.chars] using hbyte
  rw [peekByte, bind_ok (position_eq text start), hbyte]
  rfl

end Words

/-! ## Scans that do what readers do -/

section Simulates

variable {α β : Type}

variable (text) in
/-- The same outcome, and the same words are left; or else the error for the same fault. -/
inductive Same : Option (Except Error (α × Nat)) → Except Fault (α × List Token) → Prop where
  | ok {a : α} {stop : Nat} {rest : List Token} (h : Follows text stop rest) :
      Same (some (.ok (a, stop))) (.ok (a, rest))
  | error (fault : Fault) : Same (some (.error (fault.error (byteLength text)))) (.error fault)

variable (text) in
/-- The scan does what the reader does with the words behind the cursor. -/
def Simulates (scan : Scan α) (reader : Reader α) : Prop :=
  ∀ ⦃start tokens⦄, Follows text start tokens → Same text (scan start) (reader tokens)

namespace Simulates

theorem pure (a : α) : Simulates text (pure a) (pure a) :=
  fun _ _ h => .ok h

theorem fail (fault : Fault) :
    Simulates text (throw (fault.error (byteLength text)) : Scan α) (Reader.fail fault) :=
  fun _ _ _ => .error fault

theorem bind {scan : Scan α} {reader : Reader α} (first : Simulates text scan reader)
    {next : α → Scan β} {next' : α → Reader β} (second : ∀ a, Simulates text (next a) (next' a)) :
    Simulates text (scan >>= next) (reader >>= next') := by
  intro start tokens h
  have hfirst := first h
  generalize hread : reader tokens = result at hfirst
  generalize hscan : scan start = outcome at hfirst
  cases hfirst with
  | @ok a stop rest hrest =>
    rw [Scan.bind_ok hscan, Reader.bind_ok hread]
    exact second a hrest
  | error fault =>
    rw [Scan.bind_error hscan]
    simp only [Bind.bind, StateT.bind, Except.bind, hread]
    exact .error fault

/-- The scan may tell more than the reader does, as long as it is told by the outcome and the place
where the scan starts. -/
theorem bind_map {γ : Type} {scan : Scan β} {reader : Reader α} {f : Nat → α → β}
    (first : ∀ ⦃start tokens⦄, Follows text start tokens →
      Same text (scan start) ((f start <$> reader) tokens)) {next : β → Scan γ}
    {next' : α → Reader γ} (second : ∀ start a, Simulates text (next (f start a)) (next' a)) :
    Simulates text (scan >>= next) (reader >>= next') := by
  intro start tokens h
  have hfirst := first h
  cases hread : reader tokens with
  | ok outcome =>
    obtain ⟨a, rest⟩ := outcome
    rw [Reader.map_ok hread] at hfirst
    generalize hscan : scan start = outcome at hfirst
    cases hfirst with
    | ok hrest =>
      rw [Scan.bind_ok hscan, Reader.bind_ok hread]
      exact second start a hrest
  | error fault =>
    have hmap : (f start <$> reader) tokens = .error fault := by
      simp only [Functor.map, StateT.map, hread]
      rfl
    rw [hmap] at hfirst
    generalize hscan : scan start = outcome at hfirst
    cases hfirst with
    | error =>
      rw [Scan.bind_error hscan]
      simp only [Bind.bind, StateT.bind, Except.bind, hread]
      exact .error fault

theorem map {scan : Scan α} {reader : Reader α} (h : Simulates text scan reader) (f : α → β) :
    Simulates text (do return f (← scan)) (f <$> reader) :=
  h.bind fun a => .pure (f a)

/-- Blanks may be passed over at any time. -/
theorem position {scan : Scan α} {reader : Reader α} (h : Simulates text scan reader) :
    Simulates text (do let _ ← position text; scan) reader := by
  intro start tokens hfollows
  rw [Scan.bind_ok (position_eq text start)]
  exact h hfollows.faces.follows

/-- A word is taken together with the place where it starts. -/
theorem token {next : Nat × List Char → Scan α} {next' : Token → Reader α}
    (h : ∀ token, Simulates text (next (token.position, token.chars)) (next' token)) :
    Simulates text (token text >>= next) (Reader.word some >>= next') := by
  intro start tokens hfollows
  cases tokens with
  | nil =>
    rw [Scan.bind_error (token_nil hfollows)]
    exact .error .missing
  | cons word rest =>
    obtain ⟨stop, htoken, hrest⟩ := token_cons hfollows
    rw [Scan.bind_ok htoken]
    exact h word hrest

/-- A word is understood. -/
theorem word {parse? : Token → Option α} {next : Nat × List Char → Scan α}
    (h : ∀ token : Token, next (token.position, token.chars) =
      understood token.position (parse? token)) :
    Simulates text (Cursor.token text >>= next) (Reader.word parse?) := by
  intro start tokens hfollows
  cases tokens with
  | nil =>
    rw [Scan.bind_error (token_nil hfollows)]
    exact .error .missing
  | cons word rest =>
    obtain ⟨stop, htoken, hrest⟩ := token_cons hfollows
    rw [Scan.bind_ok htoken, h, Reader.word, Reader.understand]
    cases parse? word with
    | none => exact .error (.malformed word.position)
    | some a => exact .ok hrest

end Simulates

/-! ## Arguments -/

/-- A sign is one byte, so what is behind it can be sliced off. -/
theorem integer?_eq (word : List Char) : integer? word = some (Numeral.integer? word) := by
  cases word with
  | nil => rfl
  | cons c word =>
    have hdigits (digits : List Char) : (bytes digits).all (fun byte => (byteChar byte).isDigit) =
        digits.all Char.isDigit :=
      all_bytes (fun _ => isDigit_of_le) digits
    obtain ⟨sign, hsign, hcases⟩ := byteAt?_head c word
    simp only [integer?, hsign, hdigits]
    by_cases hminus : c = '-'
    · subst hminus
      obtain rfl : sign = '-' := hcases.resolve_right fun h => absurd h.1 (by decide)
      have hdrop : dropBytes? ('-' :: word) 1 = some word := dropBytes?_append ['-'] word
      simp [hdrop, Numeral.integer?, Numeral.splitSign]
    by_cases hplus : c = '+'
    · subst hplus
      obtain rfl : sign = '+' := hcases.resolve_right fun h => absurd h.1 (by decide)
      have hdrop : dropBytes? ('+' :: word) 1 = some word := dropBytes?_append ['+'] word
      simp [hdrop, Numeral.integer?, Numeral.splitSign]
    · have hother : sign ≠ '-' ∧ sign ≠ '+' := by
        rcases hcases with rfl | ⟨-, hsign⟩
        · exact ⟨hminus, hplus⟩
        · constructor <;> rintro rfl <;> exact absurd hsign (by decide)
      simp [hother, Numeral.integer?, Numeral.splitSign, hminus, hplus]

theorem simulates_integer (field : Field) :
    Simulates text (integer text field) (Reader.integer field) := by
  refine .word fun token => ?_
  funext start
  dsimp only
  rw [Scan.bind_ok (checked_some (integer?_eq token.chars) start), Reader.literal?]
  cases Numeral.integer? token.chars <;> rfl

theorem simulates_understand (parse? : List Char → Option α) :
    Simulates text (understand text parse?) (Reader.word fun token => parse? token.chars) :=
  .word fun _ => rfl

theorem simulates_number : Simulates text (number text) Reader.number :=
  simulates_understand Binary32.parse?

theorem firstByte_head (token : Token) (start : Nat) :
    ∃ c, firstByte token.chars start = some (.ok (c, start)) ∧
      (c = token.first ∨ 128 ≤ token.first.toNat ∧ 128 ≤ c.toNat) := by
  obtain ⟨c, hc, hcases⟩ := byteAt?_head token.first token.rest
  exact ⟨c, checked_some hc start, hcases⟩

theorem firstByte_ascii {token : Token} (h : token.first.toNat < 128) (start : Nat) :
    firstByte token.chars start = some (.ok (token.first, start)) := by
  obtain ⟨c, hc, rfl | ⟨hfirst, -⟩⟩ := firstByte_head token start
  · exact hc
  · omega

theorem firstByte_test {test : Char → Bool} (htest : ∀ c, 128 ≤ c.toNat → test c = false)
    (token : Token) (start : Nat) :
    ∃ c, firstByte token.chars start = some (.ok (c, start)) ∧ test c = test token.first := by
  obtain ⟨c, hc, htest⟩ := byteAt?_test htest token.first token.rest
  exact ⟨c, checked_some hc start, htest⟩

theorem bind_word {parse? : Token → Option α} {next : α → Reader β} (token : Token)
    (rest : List Token) : (Reader.word parse? >>= next) (token :: rest) =
      (Reader.understand parse? token).bind fun a => next a rest := by
  simp only [Bind.bind, StateT.bind, Except.bind, Reader.word]
  cases Reader.understand parse? token <;> rfl

/-- The intervals are taken one by one. -/
theorem simulates_scale {room : Nat} {taken : List Literal}
    (h : taken.length + room = maxScaleNotes) :
    Simulates text (scale text room taken) (Reader.intervalsFrom taken) := by
  induction room using Nat.strongRecOn generalizing taken with
  | ind room ih =>
  intro start tokens hfollows
  cases tokens with
  | nil =>
    unfold scale
    rw [Scan.bind_ok (peekToken_nil hfollows)]
    exact .ok hfollows
  | cons word rest =>
    obtain ⟨c, hc, hdigit⟩ := firstByte_test (fun _ => isDigit_of_le) word start
    unfold scale
    rw [Scan.bind_ok (peekToken_cons hfollows)]
    dsimp only
    rw [Scan.bind_ok hc, hdigit, Reader.intervalsFrom]
    split
    case isFalse => exact .ok hfollows
    case isTrue =>
      cases room with
      | zero =>
        rw [if_pos (by omega)]
        exact .error .tooManyScaleNotes
      | succ room =>
        have hmore (literal : Literal) : (taken ++ [literal]).length + room = maxScaleNotes := by
          rw [List.length_append, List.length_singleton]
          omega
        have hnext := ((simulates_integer .interval).bind fun literal =>
          ih room (Nat.lt_succ_self room) (hmore literal)) hfollows
        rw [if_neg (by omega)]
        rw [Reader.integer, bind_word] at hnext
        exact hnext

theorem destination_other {letter : Char}
    (h : letter.toLower ≠ 'c' ∧ letter.toLower ≠ 'p' ∧ letter.toLower ≠ 'n') (start : Nat) :
    destination text start letter = Scan.throw (.malformedToken start) := by
  unfold destination
  split
  case h_1 hc => exact absurd hc h.1
  case h_2 hp => exact absurd hp h.2.1
  case h_3 hn => exact absurd hn h.2.2
  case h_4 => rfl

theorem simulates_target : Simulates text (target text) Reader.target := by
  refine .token fun token => ?_
  -- Only ASCII letters tell a destination, and of these the first byte is the first character.
  have hfirst {name : Char} (h : token.first.toLower = name) (hname : name.toNat < 128)
      (start : Nat) : firstByte token.chars start = some (.ok (token.first, start)) := by
    refine firstByte_ascii (Nat.lt_of_not_le fun hle => ?_) start
    rw [← h, toLower_of_le hle] at hname
    omega
  dsimp only
  split
  case h_1 h =>
    intro start tokens hfollows
    rw [Scan.bind_ok (hfirst h (by decide) start), destination]
    simp only [h]
    exact ((simulates_integer .controller).map Target.controlChange).position hfollows
  case h_2 h =>
    intro start tokens hfollows
    rw [Scan.bind_ok (hfirst h (by decide) start), destination]
    simp only [h]
    exact .ok hfollows
  case h_3 h =>
    intro start tokens hfollows
    rw [Scan.bind_ok (hfirst h (by decide) start), destination]
    simp only [h]
    exact .ok hfollows
  case h_4 hc hp hn =>
    intro start tokens hfollows
    obtain ⟨letter, hletter, hcases⟩ := firstByte_head token start
    rw [Scan.bind_ok hletter, destination_other]
    · exact .error (.malformed token.position)
    · rcases hcases with rfl | ⟨-, hother⟩
      · exact ⟨hc, hp, hn⟩
      · rw [toLower_of_le hother]
        refine ⟨?_, ?_, ?_⟩ <;> rintro rfl <;> exact absurd hother (by decide)

/-- An integer stands where the next word starts. -/
theorem simulates_place {field : Field} {next : Nat → Literal → Scan α}
    {next' : Literal → Reader α} (h : ∀ a, Simulates text (next a.position a) (next' a)) :
    Simulates text (do next (← position text) (← integer text field))
      (Reader.integer field >>= next') := by
  intro start tokens hfollows
  have hfaces := hfollows.faces
  rw [Scan.bind_ok (position_eq text start)]
  cases tokens with
  | nil =>
    have hmissing : integer text field (skipBlanks text start) =
        some (.error (.malformedToken (byteLength text))) :=
      Scan.bind_error (token_nil hfaces.follows) _
    rw [Scan.bind_error hmissing]
    exact .error .missing
  | cons word rest =>
    have hinteger := simulates_integer field hfaces.follows
    generalize hscan : integer text field (skipBlanks text start) = outcome at hinteger
    rw [Reader.integer] at hinteger ⊢
    cases hparse : Reader.literal? field word with
    | none =>
      have hread : Reader.word (Reader.literal? field) (word :: rest) =
          .error (.malformed word.position) := by
        rw [Reader.word, Reader.understand, hparse]
        rfl
      rw [hread] at hinteger
      cases hinteger
      rw [Scan.bind_error hscan, bind_word, Reader.understand, hparse]
      exact .error (.malformed word.position)
    | some a =>
      have hplace : a.position = skipBlanks text start := by
        obtain ⟨value, -, rfl⟩ := Option.map_eq_some_iff.mp hparse
        exact hfaces.cons.1
      have hread := Reader.word_ok hparse rest
      rw [hread] at hinteger
      cases hinteger with
      | ok hrest =>
        rw [Scan.bind_ok hscan, Reader.bind_ok hread, ← hplace]
        exact h a hrest

/-- The place of the range is that of its lower bound, or where the next word starts. -/
def place (text : List Char) (start : Nat) (window : Option Window) : Nat × Option Window :=
  (window.elim (skipBlanks text start) (·.toLo.position), window)

theorem same_window ⦃start : Nat⦄ ⦃tokens : List Token⦄ (h : Follows text start tokens) :
    Same text (window text start) ((place text start <$> Reader.window) tokens) := by
  have hpresent : Simulates text (do
      let fromLo ← number text
      let fromHi ← number text
      let position ← position text
      let toLo ← integer text .output
      let toHi ← integer text .output
      return (position, some { fromLo, fromHi, toLo, toHi }))
      (place text start <$> Reader.presentWindow) := by
    rw [Reader.presentWindow]
    simp only [map_bind, map_pure]
    exact simulates_number.bind fun _ => simulates_number.bind fun _ => simulates_place fun _ =>
      (simulates_integer .output).bind fun _ => .pure _
  cases tokens with
  | nil =>
    rw [window, Scan.bind_ok (peekToken_nil h)]
    exact .ok h.faces.follows
  | cons word rest =>
    obtain ⟨c, hc, halpha⟩ := firstByte_test (fun _ => isAlpha_of_le) word start
    rw [window, Scan.bind_ok (peekToken_cons h)]
    dsimp only
    rw [Scan.bind_ok hc, halpha]
    split
    case isTrue hletter =>
      rw [Reader.map_ok (Reader.window_letter hletter rest)]
      exact .ok h.faces.follows
    case isFalse hletter =>
      rw [Bool.not_eq_true] at hletter
      have hwindow : (place text start <$> Reader.window) (word :: rest) =
          (place text start <$> Reader.presentWindow) (word :: rest) := by
        simp only [Functor.map, StateT.map, Reader.window_other hletter]
      rw [hwindow]
      exact hpresent h

theorem simulates_declaration : Simulates text (declaration text) Reader.declaration := by
  refine (simulates_understand Input.parse?).bind fun input =>
    Simulates.bind_map same_window fun start window => simulates_target.bind fun target => ?_
  cases window with
  | none => exact .pure _
  | some w =>
    by_cases hordered : w.Ordered
    · have hdeclared : declared? input (some w) target =
          some { input, window := some w, target, ordered := by simpa using hordered } :=
        dif_pos (by simpa using hordered)
      dsimp only [place]
      rw [hdeclared, dif_pos hordered]
      exact .pure _
    · have hdeclared : declared? input (some w) target = none :=
        dif_neg (by simpa using hordered)
      dsimp only [place]
      rw [hdeclared, dif_neg hordered]
      exact .fail (.malformed w.toLo.position)

/-! ## Commands -/

theorem command_other {letter : Char} (h : letter ∉ ['C', 'R', 'S', 'O', 'B', 'D', 'M', 'E'])
    (declared start : Nat) :
    command text declared start letter = Scan.throw (.malformedToken start) := by
  unfold command
  split
  case h_9 => rfl
  all_goals exact absurd (by decide) h

theorem simulates_command (declared : Nat) (name : Token) :
    Simulates text (do command text declared name.position (← firstByte name.chars))
      (Command.reader declared name) := by
  have hfirst {letter : Char} (h : name.first = letter) (hascii : letter.toNat < 128) :
      (do command text declared name.position (← firstByte name.chars)) =
        command text declared name.position letter := by
    funext start
    rw [Scan.bind_ok (firstByte_ascii (by rwa [h]) start), h]
  unfold Command.reader
  split
  case h_1 h =>
    rw [hfirst h (by decide)]
    exact ((simulates_integer .channel).map Command.channel).position
  case h_2 h =>
    rw [hfirst h (by decide)]
    exact (simulates_understand Key.parse?).map Command.root
  case h_3 h =>
    rw [hfirst h (by decide), Reader.intervals_eq_intervalsFrom]
    exact (simulates_scale rfl).map Command.scale
  case h_4 h =>
    rw [hfirst h (by decide)]
    simp only [seq_eq_bind_map, bind_map_left]
    exact (simulates_integer .octave).bind fun first =>
      (simulates_integer .octave).map (Command.octaves first)
  case h_5 h =>
    rw [hfirst h (by decide)]
    exact ((simulates_integer .tempo).map Command.tempo).position
  case h_6 h =>
    rw [hfirst h (by decide)]
    exact simulates_number.map Command.division
  case h_7 h =>
    rw [hfirst h (by decide), command]
    split
    · exact .fail .tooManyMappings
    · exact simulates_declaration.map Command.map
  case h_8 h =>
    rw [hfirst h (by decide)]
    exact .pure _
  case h_9 hc hr hs ho hb hd hm he =>
    intro start tokens hfollows
    obtain ⟨letter, hletter, hcases⟩ := firstByte_head name start
    rw [Scan.bind_ok hletter, command_other]
    · exact .error (.malformed name.position)
    · rcases hcases with rfl | ⟨-, hother⟩
      · simp only [List.mem_cons, List.not_mem_nil, or_false, not_or]
        exact ⟨hc, hr, hs, ho, hb, hd, hm, he⟩
      · intro hmem
        have hascii : ∀ c ∈ ['C', 'R', 'S', 'O', 'B', 'D', 'M', 'E'], c.toNat < 128 := by
          simp
        exact absurd hother (Nat.not_le.mpr (hascii letter hmem))

/-- At the end of its line a comment is left behind. -/
theorem skipComment_eq {start : Nat} {word : Token} {rest : List Token}
    (h : Faces text start (word :: rest)) :
    ∃ stop, skipComment text start = some (.ok ((), stop)) ∧
      Follows text stop (rest.dropWhile (!·.startsLine)) := by
  obtain ⟨-, front, back, rfl, rfl, hplain, -, rfl⟩ := h.cons
  have hline : ∀ c ∈ word.chars, (!isLineEnd c) = true := by
    intro c hc
    rw [Grammar.isLineEnd_eq_false (hplain c hc)]
    rfl
  have hseek := seek_eq isLineEnd front (word.chars ++ back)
  rw [List.takeWhile_append_of_pos hline, byteLength_append, ← Nat.add_assoc] at hseek
  obtain ⟨startsLine, hbehind⟩ :=
    Token.dropWhile_scanFrom (byteLength front + byteLength word.chars) back
  refine ⟨_, ?_, front ++ (word.chars ++ back.takeWhile (!isLineEnd ·)),
    back.dropWhile (!isLineEnd ·), startsLine, ?_, ?_, .inr fun c hc => ?_, hbehind⟩
  · have hdrop := dropBytes?_append front (word.chars ++ back)
    rw [skipComment, Scan.bind_ok rfl, Scan.bind_ok (checked_some hdrop _), hseek]
    rfl
  · rw [List.append_assoc, List.append_assoc, List.takeWhile_append_dropWhile]
  · rw [byteLength_append, byteLength_append, Nat.add_assoc]
  · exact isBlank_of_isLineEnd (Grammar.of_mem_head?_dropWhile hc)

/-- The scan reads the same commands. -/
theorem commands_eq {turns declared start : Nat} {tokens : List Token}
    (h : Follows text start tokens) (hturns : tokens.length < turns) :
    (commands text turns declared start).map (·.map Prod.fst) =
      some ((Command.readAll declared tokens).mapError (Fault.error (byteLength text))) := by
  induction turns generalizing declared start tokens with
  | zero => exact absurd hturns (Nat.not_lt_zero _)
  | succ turns ih =>
  cases tokens with
  | nil =>
    obtain ⟨stop, hpeek⟩ := peekByte_nil h
    rw [commands, Scan.bind_ok hpeek, Command.readAll]
    rfl
  | cons word rest =>
    obtain ⟨byte, stop, hpeek, hfaces, hcases⟩ := peekByte_cons h
    rw [List.length_cons] at hturns
    rw [commands, Scan.bind_ok hpeek, Command.readAll_cons]
    dsimp only
    by_cases hhash : word.first = '#'
    case pos =>
      have hbyte : byte = '#' := by
        rcases hcases with rfl | ⟨hother, -⟩
        · exact hhash
        · rw [hhash] at hother
          exact absurd hother (by decide)
      obtain ⟨stop', hskip, hfollows⟩ := skipComment_eq hfaces
      have hshorter := (List.dropWhile_suffix (!·.startsLine) (l := rest)).length_le
      rw [if_pos hbyte, if_pos hhash, Scan.bind_ok hskip]
      exact ih hfollows (by omega)
    case neg =>
      have hbyte : byte ≠ '#' := by
        rcases hcases with rfl | ⟨-, hother⟩
        · exact hhash
        · rintro rfl
          exact absurd hother (by decide)
      obtain ⟨behind, htoken, hrest⟩ := token_cons hfaces.follows
      obtain ⟨letter, hletter, -⟩ := firstByte_head word behind
      have hcommand := simulates_command declared word hrest
      rw [Scan.bind_ok hletter] at hcommand
      rw [if_neg hbyte, if_neg hhash, Scan.bind_ok htoken]
      dsimp only
      rw [Scan.bind_ok hletter]
      generalize hscan : command text declared word.position letter behind = outcome at hcommand
      cases hread : Command.reader declared word rest with
      | error fault =>
        rw [hread] at hcommand
        cases hcommand
        rw [Scan.bind_error hscan]
        rfl
      | ok taken =>
        obtain ⟨command, rest'⟩ := taken
        rw [hread] at hcommand
        cases hcommand with
        | ok hfollows =>
          have hshorter := (Command.consumes_reader _ _ _ _ _ hread).length_le
          have hmore := @ih (declared + command.declaration?.toList.length) _ _ hfollows (by omega)
          rw [Scan.bind_ok hscan]
          change _ = some (((Command.readAll _ rest').map (command :: ·)).mapError _)
          simp only [bind]
          generalize commands text turns _ _ = outcome at hmore ⊢
          generalize Command.readAll _ rest' = result at hmore ⊢
          cases outcome with
          | none => cases hmore
          | some outcome => cases outcome <;> cases result <;> cases hmore <;> rfl

end Simulates

/-- Reading with a cursor comes to the same, and no slice and no index fails. -/
theorem parse_eq (text : List Char) : parse text = some (Command.parse text) :=
  commands_eq (follows_scan text)
    (Nat.lt_succ_of_le (Token.length_scanFrom_le 0 false text))

end Cursor

end MotionMidi
