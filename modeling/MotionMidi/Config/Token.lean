/-!
# Tokens

The words of a configuration text, with the places where they start.

## Main definitions

- `Token` — a word, its byte offset, and whether a line ended in front of it
- `Token.scan` — the words of a text, in order
- `Token.starting?` — the word at a byte offset

## Design notes

Comments run to the end of a line, but a `#` opens one only where a command is expected, so they
cannot be removed before the words are understood. A word remembers whether a line ended between
its predecessor and itself; a comment is then a word and its successors on the same line.
-/

namespace MotionMidi

/-- The characters that separate words: space, tab, line feed, form feed, and carriage return. -/
def isBlank (c : Char) : Bool :=
  c = ' ' || c = '\t' || c = '\n' || c = '\x0c' || c = '\r'

/-- The characters that end a line. -/
def isLineEnd (c : Char) : Bool :=
  c = '\n' || c = '\r'

theorem isBlank_of_isLineEnd {c : Char} (h : isLineEnd c) : isBlank c := by
  simp only [isLineEnd, Bool.or_eq_true, decide_eq_true_eq] at h
  rcases h with rfl | rfl <;> rfl

/-- The bytes that encode the characters of a text. -/
def byteLength : List Char → Nat
  | [] => 0
  | c :: text => c.utf8Size + byteLength text

@[simp] theorem byteLength_nil : byteLength [] = 0 := rfl

@[simp] theorem byteLength_cons (c : Char) (text : List Char) :
    byteLength (c :: text) = c.utf8Size + byteLength text := rfl

@[simp] theorem byteLength_append (front back : List Char) :
    byteLength (front ++ back) = byteLength front + byteLength back := by
  induction front with
  | nil => simp
  | cons c front ih => simp [ih, Nat.add_assoc]

/-- A word of a text: a maximal run of characters other than blanks. -/
structure Token where
  /-- Bytes of the text in front of the word. -/
  position : Nat
  /-- A line ends between the preceding word, or the start of the text, and this one. -/
  startsLine : Bool
  /-- The first character. -/
  first : Char
  /-- The other characters. -/
  rest : List Char
  deriving DecidableEq, Repr

namespace Token

/-- The characters of a word. -/
def chars (token : Token) : List Char :=
  token.first :: token.rest

/-- The characters of a word, as text. -/
def text (token : Token) : String :=
  String.ofList token.chars

/-- The words of a text that follows `position` bytes. The flag tells whether a line has ended
since the last word. -/
def scanFrom (position : Nat) (startsLine : Bool) : List Char → List Token
  | [] => []
  | c :: text =>
    if isBlank c then scanFrom (position + c.utf8Size) (startsLine || isLineEnd c) text
    else
      let rest := text.takeWhile (!isBlank ·)
      { position, startsLine, first := c, rest } ::
        scanFrom (position + byteLength (c :: rest)) false (text.dropWhile (!isBlank ·))
termination_by text => text.length
decreasing_by
  · simp
  · have := (List.dropWhile_suffix (!isBlank ·) (l := text)).length_le
    simp
    omega

@[simp] theorem scanFrom_nil (position : Nat) (startsLine : Bool) :
    scanFrom position startsLine [] = [] := by
  rw [scanFrom]

theorem scanFrom_blank {position : Nat} {startsLine : Bool} {c : Char} {text : List Char}
    (h : isBlank c) : scanFrom position startsLine (c :: text) =
      scanFrom (position + c.utf8Size) (startsLine || isLineEnd c) text := by
  rw [scanFrom, if_pos h]

/-- The words of a text. -/
def scan (text : List Char) : List Token :=
  scanFrom 0 false text

/-- The word of a text that starts at a byte offset. -/
def starting? (text : List Char) (position : Nat) : Option Token :=
  (scan text).find? (·.position = position)

end Token

end MotionMidi
