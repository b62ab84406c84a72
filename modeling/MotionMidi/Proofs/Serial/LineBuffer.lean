import MotionMidi.Proofs.Serial.Lines

/-!
# A reader of lines that clears its buffer late

The line that a reader gives out is a view of its buffer, so the buffer must stay until the caller
is done with it: it is cleared only when the next byte arrives, and a mark says that this is due.
Seen from outside, such a reader is a `LineReader`, which clears at once.

## Main definitions

- `LineBuffer` — a buffer with the mark that its line is complete
- `LineBuffer.push` — takes one byte, clearing what an earlier byte has completed
- `LineBuffer.toReader` — the reader that has cleared already

Main statements: `LineBuffer.push_toReader`, one byte gives the same line and corresponding states;
`LineBuffer.feed_toReader`, so does a whole stream; `LineBuffer.feed_new`, the lines of a stream are
those of its pieces; `LineBuffer.buffer_of_push`, a line that was given out is still in the buffer.
-/

namespace MotionMidi

/-- The bytes of a line, which stay for one step when the line is complete. -/
structure LineBuffer where
  /-- The longest line, in bytes. -/
  capacity : Nat := longestLine
  buffer : List UInt8 := []
  /-- Bytes of this line were lost for want of room. -/
  overflowed : Bool := false
  /-- The line in the buffer has ended, and makes room when the next byte arrives. -/
  complete : Bool := false
  deriving DecidableEq, Repr, Inhabited

namespace LineBuffer

/-- Makes room for the next line if the last one has ended. -/
def release (reader : LineBuffer) : LineBuffer :=
  if reader.complete then { reader with buffer := [], complete := false } else reader

/-- The text in the buffer, unless it is empty or no text. -/
def text? (reader : LineBuffer) : Option String :=
  match Utf8.decode? reader.buffer with
  | some line => if line = "" then none else some line
  | none => none

/-- Marks the line as complete, and gives it out unless it has overflowed. -/
def finish (reader : LineBuffer) : Option String × LineBuffer :=
  (if reader.overflowed then none else reader.text?,
    { reader with overflowed := false, complete := true })

/-- Adds a byte to the line if there is room. -/
def append (reader : LineBuffer) (byte : UInt8) : LineBuffer :=
  if reader.buffer.length < reader.capacity then
    { reader with buffer := reader.buffer ++ [byte] }
  else { reader with overflowed := true }

/-- Takes one byte. The line that it completes is valid until the next one. -/
def push (reader : LineBuffer) (byte : UInt8) : Option String × LineBuffer :=
  let reader := reader.release
  if LineReader.endsLine byte then reader.finish
  else if byte = 0 then (none, reader)
  else (none, reader.append byte)

/-- Takes some bytes and gives the lines that they complete. -/
def feed (reader : LineBuffer) : List UInt8 → List String × LineBuffer
  | [] => ([], reader)
  | byte :: bytes =>
    let (line, reader) := reader.push byte
    let (lines, reader) := reader.feed bytes
    (line.toList ++ lines, reader)

/-- The reader that has made room already. -/
def toReader (reader : LineBuffer) : LineReader where
  capacity := reader.capacity
  buffer := if reader.complete then [] else reader.buffer
  overflowed := reader.overflowed

variable {reader : LineBuffer} {byte : UInt8}

/-! ## One byte -/

@[simp] theorem toReader_release (reader : LineBuffer) :
    reader.release.toReader = reader.toReader := by
  cases h : reader.complete <;> simp [release, toReader, h]

@[simp] theorem complete_release (reader : LineBuffer) : reader.release.complete = false := by
  cases h : reader.complete <;> simp [release, h]

theorem text?_eq (reader : LineBuffer) :
    reader.text? = if reader.buffer = [] then none else Utf8.decode? reader.buffer := by
  have hempty : Utf8.decode? reader.buffer = some "" ↔ reader.buffer = [] :=
    Utf8.decode?_eq_some_iff
  unfold text?
  cases h : Utf8.decode? reader.buffer <;> simp_all

/-- With room made, what completes the line completes that of the other reader. -/
theorem finish_toReader (h : reader.complete = false) :
    reader.finish.map id toReader = (reader.toReader.line?, reader.toReader.clear) := by
  cases hover : reader.overflowed <;>
    simp [finish, toReader, LineReader.line?, LineReader.clear, text?_eq, h, hover]

theorem append_toReader (h : reader.complete = false) :
    (reader.append byte).toReader = reader.toReader.append byte := by
  unfold append LineReader.append
  simp only [toReader, h, Bool.false_eq_true, if_false]
  split <;> rfl

/-- One byte gives the same line, and the states correspond again. -/
theorem push_toReader (reader : LineBuffer) (byte : UInt8) :
    (reader.push byte).map id toReader = reader.toReader.push byte := by
  rw [← toReader_release reader]
  have hroom := complete_release reader
  unfold push LineReader.push
  split
  case isTrue => exact finish_toReader hroom
  case isFalse =>
    split
    case isTrue => rfl
    case isFalse => exact Prod.ext rfl (append_toReader hroom)

/-- A line that was given out is still in the buffer. -/
theorem buffer_of_push {line : String} (h : (reader.push byte).1 = some line) :
    (reader.push byte).2.buffer = Utf8.encode line := by
  unfold push at h ⊢
  split at h
  case isTrue hend =>
    rw [if_pos hend]
    simp only [finish, text?_eq] at h ⊢
    split at h
    · cases h
    split at h
    · cases h
    exact Utf8.eq_encode_of_decode? h
  case isFalse =>
    split at h <;> cases h

/-! ## A stream -/

/-- A stream gives the same lines, whichever state the buffer is in. -/
theorem feed_toReader (reader : LineBuffer) (bytes : List UInt8) :
    (reader.feed bytes).map id toReader = reader.toReader.feed bytes := by
  induction bytes generalizing reader with
  | nil => rfl
  | cons byte bytes ih =>
    rw [LineReader.feed_cons, ← push_toReader reader byte]
    dsimp only [Prod.map]
    rw [← ih (reader.push byte).2]
    rfl

/-- So the lines of a stream are those of its pieces that have ended. -/
theorem feed_new {capacity : Nat} (bytes : List UInt8) :
    (({ capacity } : LineBuffer).feed bytes).1 =
      (bytes.splitOnP LineReader.endsLine).dropLast.filterMap (LineReader.delivered capacity) := by
  rw [← LineReader.feed_new]
  exact congrArg Prod.fst (feed_toReader { capacity } bytes)

end LineBuffer

end MotionMidi
