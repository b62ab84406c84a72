import MotionMidi.Flash.Region
import MotionMidi.Flash.SaveSlot

/-!
# The bytes of a record

What the pages of a record leave in the medium, programmed one after the other.

## Main definitions

- `SaveSlot.paddedRecord` — a record, with erased bytes up to the end of its last page
- `SaveSlot.programAll` — the bytes of a medium after some pages were programmed

Main statements: `SaveSlot.programAll_programs`, all pages of a record leave the whole record, and
`SaveSlot.not_isComplete_programAll_take`, fewer of them leave no complete one.
-/

namespace MotionMidi

open Flash

namespace Flash

@[simp] theorem length_wordBytes (n : Nat) : (wordBytes n).length = 4 := rfl

theorem wordValue_wordBytes {n : Nat} (h : n < 2 ^ 32) : wordValue (wordBytes n) = n := by
  simp only [wordBytes, wordValue, List.map_cons, List.map_nil, List.foldr_cons, List.foldr_nil,
    UInt8.toNat_ofNat']
  omega

theorem unitsCovering_mul_ge {size : Nat} (hs : 0 < size) (length : Nat) :
    length ≤ unitsCovering size length * size := by
  have h := Nat.lt_div_mul_add (a := length + size - 1) hs
  unfold unitsCovering
  omega

theorem unitsCovering_mul_lt {size : Nat} (hs : 0 < size) (length : Nat) :
    unitsCovering size length * size < length + size := by
  have h := Nat.div_mul_le_self (length + size - 1) size
  unfold unitsCovering
  omega

namespace Header

@[simp] theorem length_encode (header : Header) : header.encode.length = size := rfl

theorem decode_encode {header : Header} (hm : header.magic < 2 ^ 32) (hf : header.flags < 2 ^ 32)
    (hl : header.length < 2 ^ 32) : decode header.encode = header := by
  have h (a b c : List UInt8) (ha : a.length = 4) (hb : b.length = 4) (hc : c.length = 4) :
      decode (a ++ b ++ c) = ⟨wordValue a, wordValue b, wordValue c⟩ := by
    simp [decode, ha, hb, hc, List.drop_append, List.take_of_length_le, List.drop_eq_nil_of_le]
  rw [encode, h _ _ _ (by simp) (by simp) (by simp), wordValue_wordBytes hm,
    wordValue_wordBytes hf, wordValue_wordBytes hl]

@[simp] theorem isComplete_make (complete : Bool) (textLength : Nat) :
    (make complete textLength).IsComplete ↔ complete = true := by
  cases complete <;> simp [make, IsComplete, flagsOf]

/-- Erased bytes tell no complete header. -/
theorem not_isComplete_erased : ¬ (decode (List.replicate size erasedByte)).IsComplete := by
  decide

end Header

end Flash

namespace SaveSlot

@[simp] theorem length_recordBytes (complete : Bool) (text : List UInt8) :
    (recordBytes complete text).length = Header.size + text.length + 1 := by
  simp [recordBytes, Nat.add_assoc]

@[simp] theorem take_recordBytes (complete : Bool) (text : List UInt8) :
    (recordBytes complete text).take Header.size = (Header.make complete text.length).encode := by
  rw [recordBytes, List.append_assoc, List.take_left' (Header.length_encode _)]

@[simp] theorem drop_recordBytes (complete : Bool) (text : List UInt8) :
    (recordBytes complete text).drop Header.size = text ++ [0] := by
  rw [recordBytes, List.append_assoc, List.drop_left' (Header.length_encode _)]

theorem decode_recordBytes (complete : Bool) {text : List UInt8} (h : text.length ≤ longestText) :
    Header.decode ((recordBytes complete text).take Header.size) =
      Header.make complete text.length := by
  rw [take_recordBytes]
  refine Header.decode_encode ?_ ?_ ?_
  · simp [Header.make, magicNumber]
  · cases complete <;> simp [Header.make, flagsOf]
  · simp only [Header.make, longestText] at h ⊢
    omega

/-- A record, with erased bytes up to the end of its last page. -/
def paddedRecord (size : Nat) (complete : Bool) (text : List UInt8) : List UInt8 :=
  let record := recordBytes complete text
  record ++ List.replicate (unitsCovering size record.length * size - record.length) erasedByte

/-- The pages of a record. -/
def pageCount (size : Nat) (text : List UInt8) : Nat :=
  unitsCovering size (Header.size + text.length + 1)

/-- The bytes of a medium after some pages were programmed, one after the other. -/
def programAll (pages : List (Nat × List UInt8)) (bytes : List UInt8) : List UInt8 :=
  pages.foldl (fun bytes page => Region.overwrite bytes page.1 page.2) bytes

theorem programAll_append (pages more : List (Nat × List UInt8)) (bytes : List UInt8) :
    programAll (pages ++ more) bytes = programAll more (programAll pages bytes) :=
  List.foldl_append

section Pages

variable {size : Nat} (hs : 0 < size) (text : List UInt8)

include hs in
theorem length_paddedRecord (complete : Bool) :
    (paddedRecord size complete text).length = pageCount size text * size := by
  have h := unitsCovering_mul_ge hs (recordBytes complete text).length
  simp only [paddedRecord, pageCount, length_recordBytes, List.length_append,
    List.length_replicate] at h ⊢
  omega

/-- How far the padding of some bytes goes does not show in front of its end. -/
theorem take_append_replicate (bytes : List UInt8) {n a b : Nat} (ha : n ≤ bytes.length + a)
    (hb : n ≤ bytes.length + b) (byte : UInt8) :
    (bytes ++ List.replicate a byte).take n = (bytes ++ List.replicate b byte).take n := by
  rw [List.take_append, List.take_append, List.take_replicate, List.take_replicate,
    Nat.min_eq_left (by omega), Nat.min_eq_left (by omega)]

include hs in
theorem page_eq (complete : Bool) {index : Nat} (hi : index < pageCount size text) :
    page size (recordBytes complete text) index =
      ((paddedRecord size complete text).drop (index * size)).take size := by
  have hlt := unitsCovering_mul_lt hs (recordBytes complete text).length
  have hge := unitsCovering_mul_ge hs (recordBytes complete text).length
  have hend : (index + 1) * size ≤ pageCount size text * size := Nat.mul_le_mul_right size hi
  rw [Nat.add_mul, Nat.one_mul] at hend
  simp only [pageCount, length_recordBytes] at hlt hge hend
  simp only [page, paddedRecord, List.take_drop]
  congr 1
  apply take_append_replicate
  · simp only [length_recordBytes]
    omega
  · simp only [length_recordBytes]
    omega

/-- After some pages from the first one on, the record reaches as far as they do. -/
theorem programAll_range (padded : List UInt8) (pages : Nat → List UInt8) (count : Nat)
    (hp : ∀ i < count, pages i = (padded.drop (i * size)).take size)
    (hlen : count * size ≤ padded.length) (bytes : List UInt8) :
    programAll ((List.range count).map fun i => (i * size, pages i)) bytes =
      padded.take (count * size) ++ bytes.drop (count * size) := by
  -- Each page is put down where the ones in front of it end.
  induction count with
  | zero => simp [programAll]
  | succ count ih =>
    rw [Nat.add_mul, Nat.one_mul] at hlen
    have hprev := ih (fun i hi => hp i (by omega)) (by omega)
    have hpage : (pages count).length = size := by
      rw [hp count (by omega)]
      simp only [List.length_take, List.length_drop]
      omega
    have htake : (padded.take (count * size)).length = count * size := by
      rw [List.length_take]
      omega
    rw [List.range_succ, List.map_append, programAll_append, hprev]
    simp only [List.map_cons, List.map_nil, programAll, List.foldl_cons, List.foldl_nil,
      Region.overwrite, hpage]
    rw [List.take_left' htake, ← List.drop_drop, List.drop_left' htake, List.drop_drop,
      hp count (by omega), ← List.take_add, Nat.add_mul, Nat.one_mul]

/-- The two forms of a record differ in the header only. -/
theorem paddedRecord_eq (size : Nat) (text : List UInt8) : ∃ body, ∀ complete,
    paddedRecord size complete text = (Header.make complete text.length).encode ++ body := by
  refine ⟨text ++ [0] ++ List.replicate
    (pageCount size text * size - (Header.size + text.length + 1)) erasedByte, ?_⟩
  intro complete
  rw [paddedRecord, length_recordBytes, recordBytes, pageCount]
  simp only [List.append_assoc]

theorem drop_paddedRecord (hh : Header.size ≤ size) :
    (paddedRecord size false text).drop size = (paddedRecord size true text).drop size := by
  obtain ⟨body, hbody⟩ := paddedRecord_eq size text
  have hdrop (complete : Bool) :
      (paddedRecord size complete text).drop size = body.drop (size - Header.size) := by
    rw [hbody, List.drop_append, List.drop_eq_nil_of_le hh, List.nil_append,
      Header.length_encode]
  rw [hdrop, hdrop]

include hs in
theorem pageCount_pos : 0 < pageCount size text := by
  have h := unitsCovering_mul_ge hs (Header.size + text.length + 1)
  rw [← pageCount] at h
  rcases Nat.eq_zero_or_pos (pageCount size text) with h0 | h0
  · rw [h0] at h
    omega
  · exact h0

theorem programs_eq : programs size text =
    if pageCount size text = 1 then [(0, page size (recordBytes true text) 0)]
    else (List.range (pageCount size text)).map (fun index =>
      (index * size, page size (recordBytes false text) index)) ++
        [(0, page size (recordBytes true text) 0)] := by
  rw [programs, length_recordBytes, pageCount]

theorem length_programs :
    (programs size text).length =
      if pageCount size text = 1 then 1 else pageCount size text + 1 := by
  rw [programs_eq]
  split <;> simp

/-- The pages of a record, all programmed, leave the complete record and touch nothing behind
their last one. -/
theorem programAll_programs (hh : Header.size ≤ size) (bytes : List UInt8) :
    programAll (programs size text) bytes =
      paddedRecord size true text ++ bytes.drop (pageCount size text * size) := by
  have hs : 0 < size := by
    have : Header.size = 12 := rfl
    omega
  have hpos := pageCount_pos hs text
  have hall (complete : Bool) := programAll_range (paddedRecord size complete text)
    (page size (recordBytes complete text)) (pageCount size text)
    (fun i hi => page_eq hs text complete hi)
    (Nat.le_of_eq (length_paddedRecord hs text complete).symm) bytes
  have htake (complete : Bool) : (paddedRecord size complete text).take
      (pageCount size text * size) = paddedRecord size complete text :=
    List.take_of_length_le (Nat.le_of_eq (length_paddedRecord hs text complete))
  simp only [htake] at hall
  rw [programs_eq]
  split
  -- A single page has the complete header at once. Otherwise the first page is programmed again
  -- when all the others are there.
  case isTrue h1 =>
    have h := hall true
    rw [h1] at h ⊢
    simpa [programAll, List.range_succ] using h
  case isFalse h1 =>
    have hfirst := page_eq hs text true hpos
    have hlen := length_paddedRecord hs text
    have hsize : size ≤ pageCount size text * size := Nat.le_mul_of_pos_left size hpos
    rw [Nat.zero_mul, List.drop_zero] at hfirst
    rw [programAll_append, hall false]
    simp only [programAll, List.foldl_cons, List.foldl_nil, Region.overwrite, hfirst,
      List.take_zero, List.nil_append, Nat.zero_add, List.length_take, hlen,
      Nat.min_eq_left hsize]
    rw [List.drop_append_of_le_length (by rw [hlen]; exact hsize), drop_paddedRecord text hh,
      ← List.append_assoc, List.take_append_drop]

/-- Fewer pages than all, programmed where the header is erased, leave no complete record. -/
theorem not_isComplete_programAll_take (hh : Header.size ≤ size)
    (ht : text.length ≤ longestText) {bytes : List UInt8}
    (hb : bytes.take Header.size = List.replicate Header.size erasedByte) {k : Nat}
    (hk : k < (programs size text).length) :
    ¬ (Header.decode ((programAll ((programs size text).take k) bytes).take
      Header.size)).IsComplete := by
  -- Without any page the header is still erased, and with the first one it is incomplete.
  rcases Nat.eq_zero_or_pos k with rfl | hk0
  · rw [List.take_zero, programAll, List.foldl_nil, hb]
    exact Header.not_isComplete_erased
  · have hs : 0 < size := by
      have : Header.size = 12 := rfl
      omega
    have hcount : pageCount size text ≠ 1 ∧ k ≤ pageCount size text := by
      rw [length_programs] at hk
      split at hk <;> omega
    obtain ⟨h1, hkc⟩ := hcount
    have hend : k * size ≤ pageCount size text * size := Nat.mul_le_mul_right size hkc
    have hlen := length_paddedRecord hs text false
    have hprefix := programAll_range (paddedRecord size false text)
      (page size (recordBytes false text)) k
      (fun i hi => page_eq hs text false (by omega)) (by omega) bytes
    have hsize : size ≤ k * size := Nat.le_mul_of_pos_left size hk0
    rw [programs_eq, if_neg h1, List.take_append_of_le_length (by simpa using hkc),
      ← List.map_take, List.take_range, Nat.min_eq_left hkc, hprefix,
      List.take_append_of_le_length (by rw [List.length_take]; omega), List.take_take,
      Nat.min_eq_left (by omega),
      paddedRecord, List.take_append_of_le_length (by simp; omega),
      decode_recordBytes false ht, Header.isComplete_make]
    decide

end Pages

end SaveSlot

end MotionMidi
