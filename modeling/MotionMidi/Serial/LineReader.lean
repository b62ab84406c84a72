import MotionMidi.Utf8

/-!
# Lines of a byte stream

Splits the bytes that arrive over the serial line into lines of text.

## Main definitions

- `LineReader` — the bytes since the last line end
- `LineReader.push` — takes one byte, and gives the line that it completes
- `LineReader.feed` — takes some bytes, and gives the lines that they complete

## Design notes

Either of carriage return and line feed ends a line, so a pair of them ends a line and an empty
one. Empty lines, lines that are too long and lines that are no text are dropped whole.
-/

namespace MotionMidi

/-- The longest line of the console, in bytes. -/
def longestLine : Nat := 1024

/-- The bytes since the last line end. -/
structure LineReader where
  /-- The longest line, in bytes. -/
  capacity : Nat := longestLine
  buffer : List UInt8 := []
  /-- Bytes of this line were lost for want of room. -/
  overflowed : Bool := false
  deriving DecidableEq, Repr, Inhabited

namespace LineReader

/-- A byte that ends a line. -/
def endsLine (byte : UInt8) : Bool :=
  byte = 0x0d || byte = 0x0a

/-- The line that the bytes since the last line end make, unless there are none, too many, or they
are no text. -/
def line? (reader : LineReader) : Option String :=
  if reader.overflowed ∨ reader.buffer = [] then none else Utf8.decode? reader.buffer

/-- The reader in front of a new line. -/
def clear (reader : LineReader) : LineReader :=
  { reader with buffer := [], overflowed := false }

/-- Adds a byte to the line if there is room. -/
def append (reader : LineReader) (byte : UInt8) : LineReader :=
  if reader.buffer.length < reader.capacity then
    { reader with buffer := reader.buffer ++ [byte] }
  else { reader with overflowed := true }

/-- Takes one byte; a line end gives the line in front of it. NUL is dropped. -/
def push (reader : LineReader) (byte : UInt8) : Option String × LineReader :=
  if endsLine byte then (reader.line?, reader.clear)
  else if byte = 0 then (none, reader)
  else (none, reader.append byte)

/-- Takes some bytes and gives what each of them completes. -/
def pushAll (reader : LineReader) : List UInt8 → List (Option String) × LineReader
  | [] => ([], reader)
  | byte :: bytes =>
    let (line, reader) := reader.push byte
    let (lines, reader) := reader.pushAll bytes
    (line :: lines, reader)

/-- Takes some bytes and gives the lines that they complete. -/
def feed (reader : LineReader) (bytes : List UInt8) : List String × LineReader :=
  let (lines, reader) := reader.pushAll bytes
  (lines.filterMap id, reader)

end LineReader

end MotionMidi
