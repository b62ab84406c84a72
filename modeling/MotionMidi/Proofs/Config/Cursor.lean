import MotionMidi.Config.Reader
import MotionMidi.Proofs.Config.Slices

/-!
# Reading with a cursor

Commands can be read by moving a cursor over the bytes of a text: words are sliced out of the text
where the cursor stands, and the next word is looked at by moving the cursor and putting it back.

## Main definitions

- `Cursor.Scan` — what comes of moving the cursor, unless a slice or an index fails
- `Cursor.position`, `Cursor.token`, `Cursor.peekToken`, `Cursor.skipComment` — moves of the cursor
- `Cursor.commands`, `Cursor.parse` — the commands of a text
-/

namespace MotionMidi

namespace Cursor

/-- What comes of moving a cursor: an outcome and the place where the cursor stands then, or an
error. Nothing comes of it if a slice or an index is out of bounds or within a character. -/
def Scan (α : Type) : Type :=
  Nat → Option (Except Error (α × Nat))

namespace Scan

variable {α β : Type}

instance : Monad Scan where
  pure a := fun cursor => some (.ok (a, cursor))
  bind scan next := fun cursor =>
    match scan cursor with
    | none => none
    | some (.error error) => some (.error error)
    | some (.ok (a, cursor)) => next a cursor

/-- Where the cursor stands. -/
def cursor : Scan Nat :=
  fun cursor => some (.ok (cursor, cursor))

/-- Moves the cursor. -/
def move (cursor : Nat) : Scan Unit :=
  fun _ => some (.ok ((), cursor))

/-- Stops the reading. -/
def throw (error : Error) : Scan α :=
  fun _ => some (.error error)

/-- A slice or an index, which must not fail. -/
def checked (a? : Option α) : Scan α :=
  fun cursor => a?.map fun a => .ok (a, cursor)

/-- What a word at an offset is understood as, or an error. -/
def understood (position : Nat) : Option α → Scan α
  | some a => pure a
  | none => throw (.malformedToken position)

theorem bind_ok {scan : Scan α} {start stop : Nat} {a : α}
    (h : scan start = some (.ok (a, stop))) (next : α → Scan β) :
    (scan >>= next) start = next a stop := by
  simp only [bind, h]

theorem bind_error {scan : Scan α} {start : Nat} {error : Error}
    (h : scan start = some (.error error)) (next : α → Scan β) :
    (scan >>= next) start = some (.error error) := by
  simp only [bind, h]

theorem checked_some {a? : Option α} {a : α} (h : a? = some a) (start : Nat) :
    checked a? start = some (.ok (a, start)) := by
  rw [checked, h]
  rfl

end Scan

open Scan

variable (text : List Char)

/-! ## Moves -/

/-- Moves behind the blanks. -/
def position : Scan Nat := do
  move (skipBlanks text (← cursor))
  cursor

/-- Takes the next word. -/
def token : Scan (Nat × List Char) := do
  let position ← position text
  let stop := seek isBlank text (← checked (dropBytes? text position)) position
  if stop = position then throw (.malformedToken position)
  else do
    move stop
    return (position, ← checked (slice? text position stop))

/-- Looks at the next word, if there is one, and puts the cursor back. -/
def peekToken : Scan (Option (List Char)) := fun cursor =>
  match token text cursor with
  | none => none
  | some (.error _) => some (.ok (none, cursor))
  | some (.ok ((_, word), _)) => some (.ok (some word, cursor))

/-- Looks at the next byte that is not a blank. -/
def peekByte : Scan (Option Char) := do
  return byteAt? text (← position text)

/-- Moves to the end of the line. -/
def skipComment : Scan Unit := do
  let start ← cursor
  move (seek isLineEnd text (← checked (dropBytes? text start)) start)

/-- The first byte of a word. -/
def firstByte (word : List Char) : Scan Char :=
  checked (byteAt? word 0)

/-! ## Arguments -/

/-- Reads a word as an integer: the sign is cut off, and the other bytes have to be digits. -/
def integer? (word : List Char) : Option (Option Int) :=
  match byteAt? word 0 with
  | none => some none
  | some sign =>
    (if sign = '-' ∨ sign = '+' then dropBytes? word 1 else some word).map fun digits =>
      if digits ≠ [] ∧ (bytes digits).all (byteChar · |>.isDigit) then
        some (if sign = '-' then -(Numeral.value digits : Int) else Numeral.value digits)
      else none

/-- Takes an integer for a field. -/
def integer (field : Field) : Scan Literal := do
  let (position, word) ← token text
  let value ← understood position (← checked (integer? word))
  return { field, position, value }

/-- Takes a word and understands it. -/
def understand {α : Type} (parse? : List Char → Option α) : Scan α := do
  let (position, word) ← token text
  understood position (parse? word)

/-- Takes a finite number. -/
def number : Scan Binary32 :=
  understand text Binary32.parse?

/-- Takes intervals as long as words start with a digit and there is room. -/
def scale : Nat → List Literal → Scan (List Literal)
  | room, taken => do
    match ← peekToken text with
    | none => return taken
    | some word =>
      if (← firstByte word).isDigit then
        match room with
        | 0 => throw .tooManyScaleNotes
        | room + 1 => scale room (taken ++ [← integer text .interval])
      else return taken

/-- Takes a window, unless the next word starts with a letter or there is none. The place of the
range is looked up in either case. -/
def window : Scan (Nat × Option Window) := do
  match ← peekToken text with
  | none => return (← position text, none)
  | some word =>
    if (← firstByte word).isAlpha then return (← position text, none)
    else
      let fromLo ← number text
      let fromHi ← number text
      let position ← position text
      let toLo ← integer text .output
      let toHi ← integer text .output
      return (position, some { fromLo, fromHi, toLo, toHi })

/-- Takes what belongs to the destination that starts with a letter. -/
def destination (start : Nat) (letter : Char) : Scan Target :=
  match letter.toLower with
  | 'c' => do
    let _ ← position text
    return .controlChange (← integer text .controller)
  | 'p' => return .pitchBend
  | 'n' => return .note
  | _ => throw (.malformedToken start)

/-- Takes a destination. -/
def target : Scan Target := do
  let (start, word) ← token text
  destination text start (← firstByte word)

/-- What is declared, unless the range is reversed. -/
def declared? (input : Input) (window : Option Window) (target : Target) : Option Declaration :=
  if ordered : ∀ w ∈ window, w.Ordered then some { input, window, target, ordered } else none

/-- Takes the arguments of `MAP`. -/
def declaration : Scan Declaration := do
  let input ← understand text Input.parse?
  let (position, window) ← window text
  let target ← target text
  understood position (declared? input window target)

/-! ## Commands -/

/-- Takes the arguments of a command that starts with a letter, after so many mappings. -/
def command (declared start : Nat) : Char → Scan Command
  | 'C' => do
    let _ ← position text
    return .channel (← integer text .channel)
  | 'R' => return .root (← understand text Key.parse?)
  | 'S' => return .scale (← scale text maxScaleNotes [])
  | 'O' => do
    let first ← integer text .octave
    let last ← integer text .octave
    return .octaves first last
  | 'B' => do
    let _ ← position text
    return .tempo (← integer text .tempo)
  | 'D' => return .division (← number text)
  | 'M' =>
    if declared = maxMappings then throw .tooManyMappings
    else return .map (← declaration text)
  | 'E' => return .finish
  | _ => throw (.malformedToken start)

/-- The commands behind the cursor, after so many mappings. Every turn takes a word at least. -/
def commands : Nat → Nat → Scan (List Command)
  | 0, _ => checked none
  | turns + 1, declared => do
    match ← peekByte text with
    | none => return []
    | some byte =>
      if byte = '#' then
        skipComment text
        commands turns declared
      else
        let (start, word) ← token text
        let command ← command text declared start (← firstByte word)
        return command ::
          (← commands turns (declared + command.declaration?.toList.length))

/-- The commands of a text. -/
def parse : Option (Except Error (List Command)) :=
  (commands text (byteLength text + 1) 0 0).map (·.map Prod.fst)

end Cursor

end MotionMidi
