import Mathlib.Data.List.DropRight
import MotionMidi.Proofs.Serial.Lines

/-!
# Lines as they are delivered

However bytes are handed to a reader, one at a time or in packets, it gives the same lines, each of
them on the byte that ends it.

## Main definitions

- `Handing` — bytes that are handed to a reader at one go
- `LineReader.take`, `LineReader.takeAll` — what a reader gives for one handing, and for several
- `LineReader.unfinished` — the bytes since the last line end

Main statement: `lines_delivered`.
-/

namespace MotionMidi

/-- Bytes that are handed to a reader at one go. -/
inductive Handing where
  | push (byte : UInt8)
  | feed (bytes : List UInt8)
  deriving DecidableEq, Repr

/-- The bytes that are handed over. -/
def Handing.bytes : Handing → List UInt8
  | push byte => [byte]
  | feed bytes => bytes

namespace LineReader

/-- The lines that are completed by what is handed over. -/
def take (reader : LineReader) : Handing → List String × LineReader
  | .push byte => ((reader.push byte).1.toList, (reader.push byte).2)
  | .feed bytes => reader.feed bytes

/-- The lines that are completed by each of several handings. -/
def takeAll (reader : LineReader) : List Handing → List (List String) × LineReader
  | [] => ([], reader)
  | handing :: handings =>
    let (lines, reader) := reader.take handing
    let (others, reader) := reader.takeAll handings
    (lines :: others, reader)

/-- The bytes since the last line end. -/
def unfinished (bytes : List UInt8) : List UInt8 :=
  bytes.rtakeWhile fun byte => !endsLine byte

/-! ## Handing over -/

theorem take_eq_feed (reader : LineReader) (handing : Handing) :
    reader.take handing = reader.feed handing.bytes := by
  cases handing with
  | push byte =>
    rw [Handing.bytes, feed_cons]
    simp [take, feed, pushAll]
  | feed bytes => rfl

/-- Cutting a stream up makes no difference. -/
theorem takeAll_eq_feed (reader : LineReader) (handings : List Handing) :
    ((reader.takeAll handings).1.flatten, (reader.takeAll handings).2) =
      reader.feed (handings.flatMap Handing.bytes) := by
  induction handings generalizing reader with
  | nil => rfl
  | cons handing handings ih =>
    rw [List.flatMap_cons, feed_append, ← take_eq_feed, ← ih]
    rfl

/-! ## The unfinished line -/

variable {capacity : Nat} {byte : UInt8}

theorem unfinished_concat_of_endsLine (h : endsLine byte) (bytes : List UInt8) :
    unfinished (bytes ++ [byte]) = [] := by
  rw [unfinished, List.rtakeWhile_concat, h]
  rfl

theorem unfinished_concat_of_not_endsLine (h : endsLine byte = false) (bytes : List UInt8) :
    unfinished (bytes ++ [byte]) = unfinished bytes ++ [byte] := by
  rw [unfinished, List.rtakeWhile_concat, h]
  rfl

/-- A reader remembers nothing but the unfinished line. -/
theorem feed_new_state (bytes : List UInt8) :
    (({ capacity } : LineReader).feed bytes).2 = holding capacity (unfinished bytes) := by
  induction bytes using List.reverseRecOn with
  | nil => exact holding_nil.symm
  | append_singleton bytes byte ih =>
    rw [feed_append, ih, feed_cons]
    by_cases hend : endsLine byte
    case pos =>
      rw [push_of_endsLine hend, unfinished_concat_of_endsLine hend]
      rfl
    case neg =>
      rw [Bool.not_eq_true] at hend
      rw [push_of_not_endsLine hend, unfinished_concat_of_not_endsLine hend]
      rfl

/-- What comes behind some bytes only meets the line that they have not finished. -/
theorem feed_new_append (front back : List UInt8) :
    (({ capacity } : LineReader).feed (front ++ back)).1 =
      (({ capacity } : LineReader).feed front).1 ++
        ((holding capacity (unfinished front)).feed back).1 := by
  rw [feed_append, feed_new_state]

/-- A byte gives the line that it ends. -/
theorem push_holding (piece : List UInt8) :
    ((holding capacity piece).push byte).1 =
      if endsLine byte then delivered capacity piece else none := by
  by_cases hend : endsLine byte
  case pos => rw [push_of_endsLine hend, if_pos hend]
  case neg =>
    rw [if_neg hend]
    rw [Bool.not_eq_true] at hend
    rw [push_of_not_endsLine hend]

/-- The bytes of one line, its end, and what comes behind. -/
theorem feed_line {piece : List UInt8} (hpiece : ∀ b ∈ piece, endsLine b = false)
    (hend : endsLine byte) (back : List UInt8) :
    ((holding capacity []).feed (piece ++ byte :: back)).1 =
      (delivered capacity piece).toList ++ ((holding capacity []).feed back).1 := by
  have hnone : ∀ b ∈ ([] : List UInt8), endsLine b = false := List.forall_mem_nil _
  rw [feed_holding hnone, feed_holding hnone, List.nil_append, List.nil_append,
    List.splitOnP_append_cons_of_forall_mem hpiece byte hend,
    List.dropLast_cons_of_ne_nil (List.splitOnP_ne_nil _ _)]
  cases h : delivered capacity piece <;> simp [h]

/-- A line that is dropped might as well not have been there. -/
theorem feed_of_dropped {front piece : List UInt8} (hfront : unfinished front = [])
    (hpiece : ∀ b ∈ piece, endsLine b = false) (hend : endsLine byte)
    (hdropped : delivered capacity piece = none) (back : List UInt8) :
    (({ capacity } : LineReader).feed (front ++ piece ++ byte :: back)).1 =
      (({ capacity } : LineReader).feed (front ++ back)).1 := by
  rw [List.append_assoc, feed_new_append, feed_new_append, hfront, feed_line hpiece hend, hdropped]
  rfl

end LineReader

open LineReader

/-- However a stream is handed to a new reader, the lines are those of the pieces that line ends cut
the stream into, without the last one, which has not ended: the NULs of a piece are left out, and
it is dropped if it is empty, too long or no text. Each line is given on the byte that ends it, and
what is dropped makes no difference to the other lines. -/
theorem lines_delivered (capacity : Nat) (handings : List Handing) :
    let stream := handings.flatMap Handing.bytes
    let lines := (({ capacity } : LineReader).takeAll handings).1.flatten
    let reader := (({ capacity } : LineReader).takeAll handings).2
    lines = (stream.splitOnP endsLine).dropLast.filterMap (delivered capacity) ∧
      (∀ byte, (reader.push byte).1 =
        if endsLine byte then delivered capacity (unfinished stream) else none) ∧
      ∀ front piece byte back, stream = front ++ piece ++ byte :: back → unfinished front = [] →
        (∀ b ∈ piece, endsLine b = false) → endsLine byte → delivered capacity piece = none →
          lines = (({ capacity } : LineReader).feed (front ++ back)).1 := by
  intro stream lines reader
  have hfeed : (lines, reader) = ({ capacity } : LineReader).feed stream :=
    takeAll_eq_feed { capacity } handings
  have hlines : lines = (({ capacity } : LineReader).feed stream).1 := congrArg Prod.fst hfeed
  have hreader : reader = (({ capacity } : LineReader).feed stream).2 := congrArg Prod.snd hfeed
  refine ⟨?_, ?_, ?_⟩
  · rw [hlines, feed_new]
  · intro byte
    rw [hreader, feed_new_state, push_holding]
  · intro front piece byte back hstream hfront hpiece hend hdropped
    rw [hlines, hstream]
    exact feed_of_dropped hfront hpiece hend hdropped back

/-- A line that is too long, and whose end comes in a later packet, in front of one with a NUL. -/
theorem lines_delivered_behind_overflow :
    let handings : List Handing :=
      [.feed [0x61, 0x62, 0x63], .push 0x0d, .feed [0x64, 0x00], .feed [0x65, 0x0a, 0x66]]
    (({ capacity := 2 } : LineReader).takeAll handings).1.flatten = ["de"] ∧
      (({ capacity := 2 } : LineReader).takeAll handings).1.flatten =
        (({ capacity := 2 } : LineReader).feed [0x64, 0x00, 0x65, 0x0a, 0x66]).1 := by
  intro handings
  obtain ⟨hlines, -, hdropped⟩ := lines_delivered 2 handings
  refine ⟨hlines.trans ?_, ?_⟩
  · decide +kernel
  · exact hdropped [] [0x61, 0x62, 0x63] 0x0d [0x64, 0x00, 0x65, 0x0a, 0x66] rfl rfl
      (by decide +kernel) (by decide +kernel) (by decide +kernel)

end MotionMidi
