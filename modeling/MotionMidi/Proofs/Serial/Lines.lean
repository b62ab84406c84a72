import Mathlib.Data.List.Basic
import MotionMidi.Config.Token
import MotionMidi.Serial.LineReader

/-!
# Lines of a stream

What a reader of lines delivers depends on the stream alone, not on the packets it arrives in.

## Main definitions

- `LineReader.holding` — the reader after the bytes of a line that has not ended
- `LineReader.delivered` — the line that the bytes between two line ends make
- `lines` — the lines of a text: what stands between line ends, unless it is empty

Main statements: `LineReader.feed_append`, `LineReader.feed_new`, `LineReader.feed_encode`.
-/

namespace MotionMidi

namespace LineReader

/-! ## Bytes -/

/-- The reader after some bytes of a line. -/
def holding (capacity : Nat) (piece : List UInt8) : LineReader where
  capacity
  buffer := (piece.filter (· ≠ 0)).take capacity
  overflowed := decide (capacity < (piece.filter (· ≠ 0)).length)

/-- The line that some bytes make. NULs are left out; what is empty, too long or no text makes
none. -/
def delivered (capacity : Nat) (piece : List UInt8) : Option String :=
  let bytes := piece.filter (· ≠ 0)
  if bytes = [] ∨ capacity < bytes.length then none else Utf8.decode? bytes

variable {capacity : Nat} {byte : UInt8}

@[simp] theorem clear_holding (piece : List UInt8) :
    (holding capacity piece).clear = { capacity } := rfl

@[simp] theorem holding_nil : holding capacity [] = { capacity } := by
  simp [holding]

@[simp] theorem line?_holding (piece : List UInt8) :
    (holding capacity piece).line? = delivered capacity piece := by
  unfold line? delivered holding
  dsimp only
  generalize piece.filter (· ≠ 0) = bytes
  by_cases hlong : capacity < bytes.length
  · simp [hlong]
  · rw [List.take_of_length_le (Nat.le_of_not_lt hlong)]
    simp [hlong]

/-- At the end of a line its bytes are delivered, and the next line starts afresh. -/
theorem push_of_endsLine (h : endsLine byte) (piece : List UInt8) :
    (holding capacity piece).push byte = (delivered capacity piece, holding capacity []) := by
  simp [push, h]

theorem append_holding (hzero : byte ≠ 0) (piece : List UInt8) :
    (holding capacity piece).append byte = holding capacity (piece ++ [byte]) := by
  have hfilter : (piece ++ [byte]).filter (· ≠ 0) = piece.filter (· ≠ 0) ++ [byte] := by
    rw [List.filter_append]
    simp [hzero]
  unfold append holding
  rw [hfilter]
  generalize piece.filter (· ≠ 0) = bytes
  dsimp only
  by_cases hroom : bytes.length < capacity
  · rw [List.take_of_length_le (l := bytes) (by omega), if_pos hroom,
      List.take_of_length_le (by rw [List.length_append, List.length_singleton]; omega)]
    congr 1
    rw [decide_eq_decide, List.length_append, List.length_singleton]
    omega
  · have hfull : (bytes.take capacity).length = capacity := by
      rw [List.length_take]
      omega
    rw [if_neg (by omega), List.take_append_of_le_length (by omega)]
    simp only [List.length_append, List.length_singleton, mk.injEq, true_and]
    exact (decide_eq_true (by omega)).symm

theorem push_of_not_endsLine (h : endsLine byte = false) (piece : List UInt8) :
    (holding capacity piece).push byte = (none, holding capacity (piece ++ [byte])) := by
  rw [push, h, if_neg Bool.false_ne_true]
  by_cases hzero : byte = 0
  · rw [if_pos hzero]
    simp [holding, hzero]
  · rw [if_neg hzero, append_holding hzero]

theorem feed_cons (reader : LineReader) (byte : UInt8) (bytes : List UInt8) :
    reader.feed (byte :: bytes) = (((reader.push byte).1.toList ++
      ((reader.push byte).2.feed bytes).1), ((reader.push byte).2.feed bytes).2) := by
  rw [feed, pushAll]
  cases h : (reader.push byte).1 <;> simp [feed, h]

theorem feed_append (reader : LineReader) (front back : List UInt8) :
    reader.feed (front ++ back) = ((reader.feed front).1 ++ ((reader.feed front).2.feed back).1,
      ((reader.feed front).2.feed back).2) := by
  induction front generalizing reader with
  | nil => rfl
  | cons byte front ih =>
    rw [List.cons_append, feed_cons, feed_cons, ih]
    simp only [List.append_assoc]

/-- Bytes behind those of a line that has not ended. -/
theorem feed_holding {piece : List UInt8}
    (hpiece : ∀ b ∈ piece, endsLine b = false) (bytes : List UInt8) :
    ((holding capacity piece).feed bytes).1 =
      ((piece ++ bytes).splitOnP endsLine).dropLast.filterMap (delivered capacity) := by
  induction bytes generalizing piece with
  | nil =>
    rw [List.append_nil, List.splitOnP_eq_singleton hpiece]
    rfl
  | cons byte bytes ih =>
    rw [feed_cons]
    by_cases hend : endsLine byte
    · rw [push_of_endsLine hend, List.splitOnP_append_cons_of_forall_mem hpiece byte hend,
        List.dropLast_cons_of_ne_nil (List.splitOnP_ne_nil _ _), ih (List.forall_mem_nil _)]
      cases h : delivered capacity piece <;> simp [h]
    · rw [Bool.not_eq_true] at hend
      have hpiece' : ∀ b ∈ piece ++ [byte], endsLine b = false := by
        rw [List.forall_mem_append, List.forall_mem_singleton]
        exact ⟨hpiece, hend⟩
      rw [push_of_not_endsLine hend, ih hpiece', List.append_assoc]
      rfl

/-- The lines of a stream are those of its pieces that have ended. -/
theorem feed_new (bytes : List UInt8) :
    (({ capacity } : LineReader).feed bytes).1 =
      (bytes.splitOnP endsLine).dropLast.filterMap (delivered capacity) := by
  rw [← holding_nil, feed_holding (List.forall_mem_nil _)]
  rfl

end LineReader

/-! ## Texts -/

variable {c : Char} {byte : UInt8}

theorem endsLine_of_mem (h : byte ∈ String.utf8EncodeChar c) :
    LineReader.endsLine byte = isLineEnd c := by
  have hends : LineReader.endsLine byte ↔ byte.toNat = 13 ∨ byte.toNat = 10 := by
    simp [LineReader.endsLine, ← UInt8.toNat_inj]
  have hline : isLineEnd c ↔ c.toNat = 10 ∨ c.toNat = 13 := by
    simp [isLineEnd, ← Char.toNat_inj]
  rw [Bool.eq_iff_iff, hends, hline]
  rcases Utf8.encodeChar_cases c with ⟨hlow, hencode⟩ | ⟨hhigh, hbytes⟩
  · rw [hencode, List.mem_singleton] at h
    rw [h, UInt8.toNat_ofNat', Nat.mod_eq_of_lt (by omega)]
    exact or_comm
  · have := hbytes byte h
    omega

theorem ne_zero_of_mem (h : byte ∈ String.utf8EncodeChar c) (hc : c ≠ '\x00') : byte ≠ 0 := by
  rw [ne_eq, ← Char.toNat_inj] at hc
  rw [ne_eq, ← UInt8.toNat_inj]
  rcases Utf8.encodeChar_cases c with ⟨hlow, hencode⟩ | ⟨hhigh, hbytes⟩
  · rw [hencode, List.mem_singleton] at h
    rw [h, UInt8.toNat_ofNat', Nat.mod_eq_of_lt (by omega)]
    exact hc
  · have := hbytes byte h
    rw [UInt8.toNat_zero]
    omega

theorem encodeChar_of_isLineEnd (h : isLineEnd c) : ∃ byte, String.utf8EncodeChar c = [byte] := by
  simp only [isLineEnd, Bool.or_eq_true, decide_eq_true_eq] at h
  rcases h with rfl | rfl
  · exact ⟨0x0a, rfl⟩
  · exact ⟨0x0d, rfl⟩

section Splitting

variable {α : Type} {p : α → Bool}

theorem splitOnP_append_of_forall {front : List α} (h : ∀ a ∈ front, p a = false)
    (back : List α) : (front ++ back).splitOnP p = (back.splitOnP p).modifyHead (front ++ ·) := by
  induction front with
  | nil =>
    rw [List.nil_append]
    cases back.splitOnP p <;> rfl
  | cons a front ih =>
    rw [List.forall_mem_cons] at h
    rw [List.cons_append, List.splitOnP_cons_eq_if_modifyHead, h.1, if_neg Bool.false_ne_true,
      ih h.2, List.modifyHead_modifyHead]
    rfl

/-- What stands between separators holds none of them, and nothing new. -/
theorem mem_of_mem_splitOnP {all piece : List α} (h : piece ∈ all.splitOnP p) {a : α}
    (ha : a ∈ piece) : a ∈ all ∧ p a = false := by
  induction all generalizing piece with
  | nil =>
    rw [List.splitOnP_nil, List.mem_singleton] at h
    rw [h] at ha
    cases ha
  | cons b all ih =>
    rw [List.splitOnP_cons_eq_if_modifyHead] at h
    split at h
    case isTrue =>
      rcases List.mem_cons.mp h with rfl | h
      · cases ha
      · exact (ih h ha).imp_left (List.mem_cons_of_mem _)
    case isFalse hb =>
      obtain ⟨first, others, hsplit⟩ := List.exists_cons_of_ne_nil (all.splitOnP_ne_nil p)
      rw [hsplit, List.modifyHead_cons] at h
      rcases List.mem_cons.mp h with rfl | h
      · rcases List.mem_cons.mp ha with rfl | ha
        · exact ⟨List.mem_cons_self .., Bool.eq_false_iff.mpr hb⟩
        · have hfirst : first ∈ all.splitOnP p := by
            rw [hsplit]
            exact List.mem_cons_self ..
          exact (ih hfirst ha).imp_left (List.mem_cons_of_mem _)
      · have hother : piece ∈ all.splitOnP p := by
          rw [hsplit]
          exact List.mem_cons_of_mem _ h
        exact (ih hother ha).imp_left (List.mem_cons_of_mem _)

end Splitting

theorem splitOnP_encode (text : List Char) :
    (text.flatMap String.utf8EncodeChar).splitOnP LineReader.endsLine =
      (text.splitOnP isLineEnd).map (List.flatMap String.utf8EncodeChar) := by
  induction text with
  | nil => simp
  | cons c text ih =>
    rw [List.flatMap_cons, List.splitOnP_cons_eq_if_modifyHead]
    by_cases hend : isLineEnd c
    · obtain ⟨byte, hbyte⟩ := encodeChar_of_isLineEnd hend
      have hends : LineReader.endsLine byte := by
        rw [endsLine_of_mem (by rw [hbyte]; exact List.mem_singleton_self byte), hend]
      rw [hbyte, List.singleton_append, List.splitOnP_cons_eq_if_modifyHead, if_pos hends,
        if_pos hend, ih]
      rfl
    · rw [Bool.not_eq_true] at hend
      have hplain : ∀ byte ∈ String.utf8EncodeChar c, LineReader.endsLine byte = false := by
        intro byte hbyte
        rw [endsLine_of_mem hbyte, hend]
      rw [splitOnP_append_of_forall hplain, ih, hend, if_neg Bool.false_ne_true]
      obtain ⟨first, others, hsplit⟩ := List.exists_cons_of_ne_nil (text.splitOnP_ne_nil isLineEnd)
      rw [hsplit]
      rfl

/-- The lines of a text: what stands between line ends, unless it is empty. -/
def linesOf (text : String) : List String :=
  ((text.toList.splitOnP isLineEnd).filter (· ≠ [])).map String.ofList

theorem LineReader.delivered_encode {capacity : Nat} {piece : List Char}
    (hnul : '\x00' ∉ piece) (hshort : (String.ofList piece).utf8ByteSize ≤ capacity) :
    delivered capacity (piece.flatMap String.utf8EncodeChar) =
      if piece = [] then none else some (String.ofList piece) := by
  have hfilter : (piece.flatMap String.utf8EncodeChar).filter (· ≠ 0) =
      Utf8.encode (String.ofList piece) := by
    rw [Utf8.encode_ofList, List.filter_eq_self]
    intro byte hbyte
    obtain ⟨c, hc, hbyte⟩ := List.mem_flatMap.mp hbyte
    exact decide_eq_true (ne_zero_of_mem hbyte (by rintro rfl; exact hnul hc))
  rw [delivered, hfilter, Utf8.length_encode, Utf8.decode?_encode]
  by_cases hempty : piece = []
  · rw [if_pos hempty, if_pos]
    left
    rw [hempty]
    rfl
  · rw [if_neg hempty, if_neg]
    rintro (hnone | hlong)
    · have hdecode := Utf8.decode?_encode (String.ofList piece)
      rw [hnone, show Utf8.decode? [] = some "" from Utf8.decode?_encode ""] at hdecode
      apply hempty
      rw [← String.toList_ofList (l := piece), ← Option.some.inj hdecode]
      rfl
    · exact absurd hlong (Nat.not_lt.mpr hshort)

/-- A text without NUL that ends with a line end is delivered line by line. -/
theorem LineReader.feed_encode {capacity : Nat} {text : String} (hnul : '\x00' ∉ text.toList)
    (hends : ∃ c, text.toList.getLast? = some c ∧ isLineEnd c)
    (hshort : ∀ line ∈ linesOf text, line.utf8ByteSize ≤ capacity) :
    (({ capacity } : LineReader).feed (Utf8.encode text)).1 = linesOf text := by
  obtain ⟨c, hlast, hend⟩ := hends
  obtain ⟨front, hfront⟩ := List.getLast?_eq_some_iff.mp hlast
  -- Nothing comes behind the last line end.
  have hsplit : text.toList.splitOnP isLineEnd = front.splitOnP isLineEnd ++ [[]] := by
    rw [hfront, List.splitOnP_append_cons _ _ hend, List.splitOnP_nil]
  have hlines : linesOf text =
      (front.splitOnP isLineEnd).filterMap fun piece =>
        if piece = [] then none else some (String.ofList piece) := by
    rw [linesOf, hsplit, List.filter_append, ← List.filterMap_eq_map, List.filterMap_append,
      List.filterMap_filter]
    simp
  have hpiece : ∀ piece ∈ front.splitOnP isLineEnd, piece ≠ [] →
      String.ofList piece ∈ linesOf text := by
    intro piece hpiece hne
    rw [hlines, List.mem_filterMap]
    exact ⟨piece, hpiece, if_neg hne⟩
  rw [feed_new, Utf8.encode_eq_flatMap, splitOnP_encode, hsplit, List.map_append,
    List.map_singleton, List.dropLast_concat, List.filterMap_map, hlines]
  apply List.filterMap_congr
  intro piece hmem
  rw [Function.comp_apply]
  by_cases hempty : piece = []
  · rw [hempty]
    rfl
  · refine delivered_encode ?_ (hshort _ (hpiece piece hmem hempty))
    intro hmem'
    apply hnul
    rw [hfront]
    exact List.mem_append_left _ (mem_of_mem_splitOnP hmem hmem').1

end MotionMidi
