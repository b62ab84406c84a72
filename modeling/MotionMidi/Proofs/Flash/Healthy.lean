import Mathlib.Order.Bounds.Basic
import Mathlib.Tactic.Ring
import MotionMidi.Proofs.Flash.Writing

/-!
# Writing to a healthy medium

A text that has room is always saved as long as erases are let through and the power lasts, whatever
the medium held before.

## Main definitions

- `Flash.Region.Lasts` — the power lasts for so many programs
- `Flash.Region.Programmable` — pages lie in the medium and only clear bits when their turn comes

Main statement: `SaveSlot.write_of_healthy`.
-/

namespace MotionMidi

open Flash SaveSlot

namespace Flash

theorem Geometry.Supported.pageSize_pos {geometry : Geometry} (h : geometry.Supported) :
    0 < geometry.pageSize :=
  Nat.lt_of_lt_of_le (by decide) h.1

theorem isLeast_unitsCovering {size : Nat} (hs : 0 < size) (length : Nat) :
    IsLeast {n | length ≤ n * size} (unitsCovering size length) := by
  refine ⟨unitsCovering_mul_ge hs length, fun n hn => ?_⟩
  have hlt := unitsCovering_mul_lt hs length
  have hmul : unitsCovering size length * size < (n + 1) * size := by
    rw [Nat.add_mul, Nat.one_mul]
    exact Nat.lt_of_lt_of_le hlt (Nat.add_le_add_right hn size)
  exact Nat.le_of_lt_succ (Nat.lt_of_mul_lt_mul_right hmul)

/-- As sectors are whole pages, it does not matter that whole pages are counted first. -/
theorem pages_le_erasedLength {geometry : Geometry} (hs : geometry.Supported) (length : Nat) :
    unitsCovering geometry.pageSize length * geometry.pageSize ≤ erasedLength geometry length :=
  unitsCovering_mul_ge (hs.pageSize_pos.trans_le hs.2.2.1) _

theorem isLeast_erasedLength {geometry : Geometry} (hs : geometry.Supported) (length : Nat) :
    IsLeast {n | geometry.sectorSize ∣ n ∧ length ≤ n} (erasedLength geometry length) := by
  obtain ⟨hpage, -, hsector, hwhole, -⟩ := hs
  have hheader : Header.size = 12 := rfl
  have hpages := isLeast_unitsCovering (show 0 < geometry.pageSize by omega) length
  have hsectors := isLeast_unitsCovering (show 0 < geometry.sectorSize by omega)
    (unitsCovering geometry.pageSize length * geometry.pageSize)
  refine ⟨⟨Nat.dvd_mul_left _ _, hpages.1.trans hsectors.1⟩, ?_⟩
  rintro n ⟨⟨sectors, rfl⟩, hn⟩
  obtain ⟨perSector, hper⟩ := Nat.dvd_of_mod_eq_zero hwhole
  have hpageCount : unitsCovering geometry.pageSize length ≤ perSector * sectors := by
    apply hpages.2
    rwa [Set.mem_ofPred_eq, Nat.mul_comm, ← Nat.mul_assoc, ← hper]
  have hsectorCount : unitsCovering geometry.sectorSize
      (unitsCovering geometry.pageSize length * geometry.pageSize) ≤ sectors := by
    apply hsectors.2
    calc unitsCovering geometry.pageSize length * geometry.pageSize
        ≤ perSector * sectors * geometry.pageSize := Nat.mul_le_mul_right _ hpageCount
      _ = sectors * geometry.sectorSize := by rw [hper]; ring
  rw [erasedLength, Nat.mul_comm geometry.sectorSize]
  exact Nat.mul_le_mul_right _ hsectorCount

end Flash

namespace Flash.Region

variable {region : Region} {offset length size : Nat}

theorem check_of_aligned (hin : offset + length ≤ region.bytes.length)
    (hoffset : offset % size = 0) (hlength : length % size = 0) :
    check offset length size region = .ok () region := by
  have hlt : ¬ region.bytes.length < offset + length := by omega
  rw [check, get_bind]
  simp only [hlt, hoffset, hlength, if_false, ne_eq, not_true_eq_false, or_self]
  rfl

theorem erase_of_aligned (hin : offset + length ≤ region.bytes.length)
    (hoffset : offset % region.sectorSize = 0) (hlength : length % region.sectorSize = 0) :
    erase offset length region = .ok () { region with
      bytes := overwrite region.bytes offset (List.replicate length erasedByte)
      erases := region.erases + 1 } := by
  rw [erase, get_bind, bind_of_ok (check_of_aligned hin hoffset hlength)]
  rfl

/-- The power lasts for so many programs. -/
def Lasts (programs : Nat) (region : Region) : Prop :=
  ∀ left ∈ region.powerLeft, programs ≤ left

theorem spendPower_of_lasts {programs : Nat} (h : region.Lasts (programs + 1)) :
    ∃ powerLeft, spendPower region = .ok () { region with powerLeft } ∧
      ∀ left ∈ powerLeft, programs ≤ left := by
  obtain ⟨bytes, sectorSize, pageSize, powerLeft, done, erases⟩ := region
  match powerLeft with
  | none => exact ⟨none, rfl, nofun⟩
  | some 0 => exact absurd (h 0 rfl) (Nat.not_succ_le_zero programs)
  | some (left + 1) =>
    refine ⟨some left, rfl, ?_⟩
    rintro _ ⟨⟩
    exact Nat.le_of_succ_le_succ (h (left + 1) rfl)

theorem program_of_clears {programs : Nat} {new : List UInt8} (h : region.Lasts (programs + 1))
    (hin : offset + new.length ≤ region.bytes.length) (hoffset : offset % region.pageSize = 0)
    (hlength : new.length % region.pageSize = 0)
    (hclears : setsBits ((region.bytes.drop offset).take new.length) new = false) :
    ∃ region', program offset new region = .ok () region' ∧ SameSizes region region' ∧
      region'.Lasts programs ∧ region'.programs = region.programs + 1 ∧
      region'.bytes = overwrite region.bytes offset new := by
  obtain ⟨powerLeft, hspend, hlasts⟩ := spendPower_of_lasts h
  rw [program, get_bind, bind_of_ok (check_of_aligned hin hoffset hlength), bind_of_ok hspend,
    get_bind]
  simp only [hclears, Bool.false_eq_true, if_false]
  exact ⟨_, rfl, sameSizes_overwrite region offset hin powerLeft _ _, hlasts, rfl, rfl⟩

/-! ### Bits that are only cleared -/

theorem setsBits_append {old new : List UInt8} (h : old.length = new.length)
    (old' new' : List UInt8) :
    setsBits (old ++ old') (new ++ new') = (setsBits old new || setsBits old' new') := by
  rw [setsBits, List.zip_append h, List.any_append]
  rfl

@[simp] theorem setsBits_self (bytes : List UInt8) : setsBits bytes bytes = false := by
  induction bytes with
  | nil => rfl
  | cons byte bytes ih =>
    have hbyte : setsBits [byte] [byte] = false := by simp [setsBits, UInt8.and_not_self]
    rw [← List.singleton_append, setsBits_append rfl, hbyte, ih]
    rfl

@[simp] theorem setsBits_erased (count : Nat) (new : List UInt8) :
    setsBits (List.replicate count erasedByte) new = false := by
  rw [setsBits, List.any_eq_false]
  rintro ⟨o, n⟩ hmem
  obtain rfl : o = erasedByte := List.eq_of_mem_replicate (List.of_mem_zip hmem).1
  have hmask : ~~~erasedByte = 0 := rfl
  simp [hmask]

/-- Pages of some size lie in the medium, and each of them only clears bits when its turn comes. -/
def Programmable (size : Nat) : List (Nat × List UInt8) → List UInt8 → Prop
  | [], _ => True
  | (offset, page) :: pages, bytes =>
    offset % size = 0 ∧ page.length = size ∧ offset + size ≤ bytes.length ∧
      setsBits ((bytes.drop offset).take size) page = false ∧
      Programmable size pages (overwrite bytes offset page)

theorem programmable_append {pages more : List (Nat × List UInt8)} {bytes : List UInt8} :
    Programmable size (pages ++ more) bytes ↔
      Programmable size pages bytes ∧ Programmable size more (programAll pages bytes) := by
  induction pages generalizing bytes with
  | nil => simp [Programmable, programAll]
  | cons page pages ih =>
    obtain ⟨offset, page⟩ := page
    simp only [List.cons_append, Programmable, ih, and_assoc]
    rfl

/-- Pages that follow one another where the medium is erased. -/
theorem programmable_range {padded : List UInt8} {pages : Nat → List UInt8} {count : Nat}
    (hp : ∀ i < count, pages i = (padded.drop (i * size)).take size)
    (hlen : count * size ≤ padded.length) {bytes : List UInt8}
    (hin : count * size ≤ bytes.length)
    (hb : bytes.take (count * size) = List.replicate (count * size) erasedByte) :
    Programmable size ((List.range count).map fun i => (i * size, pages i)) bytes := by
  -- The last page is put down where the others end, and what follows them is still erased.
  induction count with
  | zero => exact trivial
  | succ count ih =>
    rw [Nat.add_mul, Nat.one_mul] at hlen hin hb
    have hprev : bytes.take (count * size) = List.replicate (count * size) erasedByte := by
      have h := congrArg (List.take (count * size)) hb
      rwa [List.take_take, List.take_replicate, Nat.min_eq_left (by omega)] at h
    have hlast : (bytes.drop (count * size)).take size = List.replicate size erasedByte := by
      have h := congrArg (List.drop (count * size)) hb
      rwa [List.drop_take, List.drop_replicate, Nat.add_sub_cancel_left] at h
    have hbytes := programAll_range padded pages count (fun i hi => hp i (by omega)) (by omega)
      bytes
    have hfront : (padded.take (count * size)).length = count * size := by
      rw [List.length_take]
      omega
    have hpage : (pages count).length = size := by
      rw [hp count (Nat.lt_succ_self count), List.length_take, List.length_drop]
      omega
    rw [List.range_succ, List.map_append, programmable_append]
    refine ⟨ih (fun i hi => hp i (by omega)) (by omega) (by omega) hprev, ?_⟩
    rw [hbytes]
    refine ⟨Nat.mul_mod_left count size, hpage, ?_, ?_, trivial⟩
    · rw [List.length_append, hfront, List.length_drop]
      omega
    · rw [List.drop_left' hfront, hlast]
      exact setsBits_erased size _

end Flash.Region

namespace SaveSlot

open Region

/-- The first page of a record is programmed twice. The second time it only clears bits. -/
theorem setsBits_first_page (text : List UInt8) {size : Nat} (hh : Header.size ≤ size) :
    setsBits ((paddedRecord size false text).take size)
      ((paddedRecord size true text).take size) = false := by
  obtain ⟨body, hbody⟩ := paddedRecord_eq size text
  have htake (complete : Bool) : (paddedRecord size complete text).take size =
      (Header.make complete text.length).encode ++ body.take (size - Header.size) := by
    rw [hbody, List.take_append, List.take_of_length_le hh, Header.length_encode]
  have hheader : setsBits (Header.make false text.length).encode
      (Header.make true text.length).encode = false := by
    have hflags : setsBits (wordBytes (flagsOf false)) (wordBytes (flagsOf true)) = false := by
      decide
    have hlength (a b c d : Nat) :
        (wordBytes a ++ wordBytes b).length = (wordBytes c ++ wordBytes d).length := rfl
    rw [Header.encode, Header.encode, setsBits_append (hlength _ _ _ _),
      setsBits_append (by simp)]
    simp [Header.make, hflags]
  rw [htake, htake, setsBits_append (by simp), hheader]
  simp

/-- The pages of a record, where all of them are erased. -/
theorem programmable_programs (text : List UInt8) {size : Nat} (hh : Header.size ≤ size)
    {bytes : List UInt8} (hin : pageCount size text * size ≤ bytes.length)
    (hb : bytes.take (pageCount size text * size) =
      List.replicate (pageCount size text * size) erasedByte) :
    Programmable size (programs size text) bytes := by
  have hs : 0 < size := by
    have : Header.size = 12 := rfl
    omega
  have hpos := pageCount_pos hs text
  have hlen := length_paddedRecord hs text
  have hsize : size ≤ pageCount size text * size := Nat.le_mul_of_pos_left size hpos
  have hall (complete : Bool) := programmable_range
    (fun i hi => page_eq hs text complete hi) (Nat.le_of_eq (hlen complete).symm) hin hb
  have hfirst := page_eq hs text true hpos
  rw [Nat.zero_mul, List.drop_zero] at hfirst
  rw [programs_eq]
  split
  case isTrue h1 =>
    have h := hall true
    rw [h1] at h
    simpa [List.range_succ] using h
  case isFalse h1 =>
    have hleft := programAll_range (paddedRecord size false text)
      (page size (recordBytes false text)) (pageCount size text)
      (fun i hi => page_eq hs text false hi) (Nat.le_of_eq (hlen false).symm) bytes
    rw [List.take_of_length_le (Nat.le_of_eq (hlen false))] at hleft
    rw [programmable_append, hleft, hfirst]
    refine ⟨hall false, Nat.zero_mod size, ?_, ?_, ?_, trivial⟩
    · rw [List.length_take, hlen]
      omega
    · rw [List.length_append, hlen, List.length_drop]
      omega
    · rw [List.drop_zero, List.take_append_of_le_length (by rw [hlen]; exact hsize)]
      exact setsBits_first_page text hh

/-- Pages that can be programmed are, one after the other. -/
theorem programEach_of_programmable {pages : List (Nat × List UInt8)} {m : Monitored Region}
    (h : Programmable m.medium.pageSize pages m.medium.bytes)
    (hlasts : m.medium.Lasts pages.length) :
    ∃ m', programEach pages m = .ok () m' ∧
      m'.medium.bytes = programAll pages m.medium.bytes ∧
      m'.medium.programs = m.medium.programs + pages.length ∧
      ∃ entries, m'.journal = entries ++ m.journal ∧ ∀ entry ∈ entries, entry.failure = none := by
  induction pages generalizing m with
  | nil => exact ⟨m, rfl, rfl, rfl, [], rfl, by simp⟩
  | cons page pages ih =>
    obtain ⟨offset, page⟩ := page
    obtain ⟨haligned, hlength, hin, hclears, hrest⟩ := h
    rw [← hlength] at hin hclears
    have hwhole : page.length % m.medium.pageSize = 0 := by rw [hlength, Nat.mod_self]
    obtain ⟨region, hprogram, hsizes, hleft, hprograms, hbytes⟩ :=
      program_of_clears hlasts hin haligned hwhole hclears
    have hcall := Monitored.program_admitted (m := m) hprogram
    have hstep : onMedium (Medium.program offset page) m =
        .ok () (m.after region (.program offset page.length)) := by
      simp only [onMedium, EStateM.adaptExcept, hcall]
    rw [programEach_cons, bind_of_ok hstep]
    have hsize : region.pageSize = m.medium.pageSize := congrArg Geometry.pageSize hsizes
    rw [← hsize, ← hbytes] at hrest
    obtain ⟨m', hall, hbytes', hprograms', entries, hjournal, hquiet⟩ :=
      ih (m := m.after region (.program offset page.length)) hrest hleft
    refine ⟨m', hall, ?_, ?_, entries ++ [⟨.program offset page.length, none⟩], ?_, ?_⟩
    · rw [hbytes', show (m.after region (.program offset page.length)).medium = region from rfl,
        hbytes]
      rfl
    · rw [hprograms', show (m.after region (.program offset page.length)).medium = region from rfl,
        hprograms, List.length_cons]
      omega
    · rw [hjournal, List.append_assoc]
      rfl
    · rw [List.forall_mem_append, List.forall_mem_singleton]
      exact ⟨hquiet, rfl⟩

theorem pageCount_eq_one_iff {size : Nat} (hs : 0 < size) {text : List UInt8} :
    pageCount size text = 1 ↔ Header.size + text.length + 1 ≤ size := by
  have hleast : IsLeast {n | Header.size + text.length + 1 ≤ n * size} (pageCount size text) :=
    isLeast_unitsCovering hs _
  constructor
  · intro hcount
    have hmem := hleast.1
    rwa [hcount, Set.mem_ofPred_eq, Nat.one_mul] at hmem
  · intro hle
    have hcount : pageCount size text ≤ 1 := hleast.2 (by rwa [Set.mem_ofPred_eq, Nat.one_mul])
    exact Nat.le_antisymm hcount (pageCount_pos hs text)

/-- The bytes of a complete record, header and all. -/
theorem recordBytes_complete (text : List UInt8) : recordBytes true text =
    [0x31, 0x4e, 0x55, 0x4e, 0xfe, 0xff, 0xff, 0xff] ++ wordBytes (text.length + 1) ++ text ++
      [0] := by
  have hmarks : wordBytes magicNumber ++ wordBytes (flagsOf true) =
      [0x31, 0x4e, 0x55, 0x4e, 0xfe, 0xff, 0xff, 0xff] := by
    decide
  rw [recordBytes, Header.encode, ← hmarks]
  rfl

theorem erasedBytes_eq (geometry : Geometry) (text : String) (bytes : List UInt8) :
    erasedBytes geometry text bytes =
      List.replicate (erasedLength geometry (12 + (Utf8.encode text).length + 1)) erasedByte ++
        bytes.drop (erasedLength geometry (12 + (Utf8.encode text).length + 1)) := by
  rw [erasedBytes, overwrite, List.take_zero, List.nil_append, List.length_replicate, Nat.zero_add]
  rfl

/-- What all pages of a record leave where its sectors were erased. -/
theorem programAll_erasedBytes {geometry : Geometry} (hs : geometry.Supported) (text : String)
    (bytes : List UInt8) :
    programAll (programs geometry.pageSize (Utf8.encode text)) (erasedBytes geometry text bytes) =
      recordBytes true (Utf8.encode text) ++
        List.replicate (erasedLength geometry (12 + (Utf8.encode text).length + 1) -
          (12 + (Utf8.encode text).length + 1)) erasedByte ++
        bytes.drop (erasedLength geometry (12 + (Utf8.encode text).length + 1)) := by
  have hrecord := length_recordBytes true (Utf8.encode text)
  have hpos := hs.pageSize_pos
  have hpages := unitsCovering_mul_ge hpos (12 + (Utf8.encode text).length + 1)
  have hsectors := pages_le_erasedLength hs (12 + (Utf8.encode text).length + 1)
  have hheader : Header.size = 12 := rfl
  rw [programAll_programs _ hs.1, paddedRecord, erasedBytes_eq, pageCount, hrecord, hheader,
    List.drop_append_of_le_length (by rw [List.length_replicate]; exact hsectors),
    List.drop_replicate, List.append_assoc, ← List.append_assoc (List.replicate _ _),
    List.replicate_append_replicate, List.append_assoc]
  congr 3
  omega

/-- The sectors of a text that has room are erased. -/
theorem erase_admitted {m : Monitored Region} {text : String}
    (hs : (Medium.geometry m).Supported) (hfits : Fits (Medium.geometry m) text)
    (admitted : m.erasesLeft = none) :
    ∃ m', onMedium (Medium.erase 0 (erasedLength (Medium.geometry m)
        (Header.size + (Utf8.encode text).length + 1))) m = .ok () m' ∧
      SameSizes m.medium m'.medium ∧ m'.medium.powerLeft = m.medium.powerLeft ∧
      m'.medium.programs = m.medium.programs ∧
      m'.medium.bytes = erasedBytes (Medium.geometry m) text m.medium.bytes ∧
      ∃ entry, m'.journal = entry :: m.journal ∧ entry.failure = none := by
  have herased := isLeast_erasedLength hs (Header.size + (Utf8.encode text).length + 1)
  have hin : 0 + erasedLength (Medium.geometry m) (Header.size + (Utf8.encode text).length + 1) ≤
      m.medium.bytes.length := by
    rw [Nat.zero_add]
    exact herased.2 ⟨Nat.dvd_of_mod_eq_zero hs.2.2.2.2.2, hfits.1⟩
  have hcall := Monitored.erase_admitted admitted
    (Region.erase_of_aligned hin (Nat.zero_mod _) (Nat.mod_eq_zero_of_dvd herased.1.1))
  refine ⟨_, onMedium_of_ok hcall, ?_, rfl, rfl, rfl, _, rfl, rfl⟩
  exact sameSizes_overwrite m.medium 0 (by rwa [List.length_replicate]) _ _ _

/-- A text that has room is written to the end. -/
theorem write_admitted {m : Monitored Region} {text : String}
    (hs : (Medium.geometry m).Supported) (hfits : Fits (Medium.geometry m) text)
    (admitted : m.erasesLeft = none)
    (powered : m.medium.Lasts (programs m.medium.pageSize (Utf8.encode text)).length) :
    ∃ m', write text m = .ok () m' ∧
      m'.medium.bytes = programAll (programs m.medium.pageSize (Utf8.encode text))
        (erasedBytes (Medium.geometry m) text m.medium.bytes) ∧
      m'.medium.programs =
        m.medium.programs + (programs m.medium.pageSize (Utf8.encode text)).length ∧
      ∃ entries, m'.journal = entries ++ m.journal ∧ ∀ entry ∈ entries, entry.failure = none := by
  obtain ⟨m₁, herase, hsizes, hpower, hprograms, hbytes, entry, hjournal, hentry⟩ :=
    erase_admitted hs hfits admitted
  have hsize : m₁.medium.pageSize = m.medium.pageSize := congrArg Geometry.pageSize hsizes
  have hlasts : m₁.medium.Lasts (programs m.medium.pageSize (Utf8.encode text)).length := by
    intro left hleft
    rw [hpower] at hleft
    exact powered left hleft
  have hlength : m₁.medium.bytes.length = m.medium.bytes.length :=
    congrArg Geometry.capacity hsizes
  have hrecord : 12 + (Utf8.encode text).length + 1 ≤ m.medium.bytes.length := hfits.1
  have herased := isLeast_erasedLength hs (12 + (Utf8.encode text).length + 1)
  have hpages := pages_le_erasedLength hs (12 + (Utf8.encode text).length + 1)
  have hin := herased.2 ⟨Nat.dvd_of_mod_eq_zero hs.2.2.2.2.2, hrecord⟩
  have hprogrammable : Programmable m₁.medium.pageSize
      (programs m.medium.pageSize (Utf8.encode text)) m₁.medium.bytes := by
    rw [hsize]
    apply programmable_programs _ hs.1
    · rw [hlength]
      exact hpages.trans hin
    · rw [hbytes, erasedBytes_eq, List.take_append_of_le_length, List.take_replicate,
        Nat.min_eq_left]
      · exact hpages
      · rw [List.length_replicate]
        exact hpages
  obtain ⟨m', hwrite, hbytes', hprograms', entries, hjournal', hentries⟩ :=
    programEach_of_programmable hprogrammable hlasts
  refine ⟨m', ?_, ?_, ?_, entries ++ [entry], ?_, ?_⟩
  · rw [write_of_fits hfits, bind_of_ok herase]
    exact hwrite
  · rw [hbytes', hbytes]
  · rw [hprograms', hprograms]
  · rw [hjournal', hjournal, List.append_assoc]
    rfl
  · rw [List.forall_mem_append, List.forall_mem_singleton]
    exact ⟨hentries, hentry⟩

/-- A medium that lets erases through and whose power lasts takes every text that has room, whatever
it held before. Its first sectors then hold the record of the text and are erased behind it, the
others are as they were, and the text is read back. A text that has no room changes nothing. -/
theorem write_of_healthy (m : Monitored Region) (accepted : check m = .ok () m)
    (admitted : m.erasesLeft = none) (text : String)
    (powered : m.medium.Lasts (programs m.medium.pageSize (Utf8.encode text)).length) :
    let length := (Utf8.encode text).length
    (12 + length + 1 ≤ m.medium.bytes.length ∧ length ≤ 4096 →
      ∃ pages erased m', IsLeast {n | 12 + length + 1 ≤ n * m.medium.pageSize} pages ∧
        IsLeast {n | m.medium.sectorSize ∣ n ∧ 12 + length + 1 ≤ n} erased ∧
        write text m = .ok () m' ∧
        (∃ entries, m'.journal = entries ++ m.journal ∧
          ∀ entry ∈ entries, entry.failure = none) ∧
        m'.medium.bytes =
          [0x31, 0x4e, 0x55, 0x4e, 0xfe, 0xff, 0xff, 0xff] ++ wordBytes (length + 1) ++
            Utf8.encode text ++ [0] ++ List.replicate (erased - (12 + length + 1)) 0xff ++
            m.medium.bytes.drop erased ∧
        m'.medium.programs = m.medium.programs +
          (if 12 + length + 1 ≤ m.medium.pageSize then 1 else pages + 1) ∧
        read m'.medium = .ok text m'.medium) ∧
    (¬ (12 + length + 1 ≤ m.medium.bytes.length ∧ length ≤ 4096) →
      write text m = .error .slotTooSmall m) := by
  intro length
  have hs := supported_of_check accepted
  refine ⟨fun hfits => ?_, fun hfits => write_of_not_fits hfits⟩
  obtain ⟨m', hwrite, hbytes, hprograms, hjournal⟩ := write_admitted hs hfits admitted powered
  have hlayout := hbytes.trans (programAll_erasedBytes hs text m.medium.bytes)
  have hholds : Holds text m'.medium.bytes := by
    refine ⟨hfits.2, ?_⟩
    rw [hlayout, List.append_assoc]
    exact List.prefix_append _ _
  have hpages := isLeast_unitsCovering hs.pageSize_pos (12 + length + 1)
  refine ⟨_, _, m', hpages, isLeast_erasedLength hs (12 + length + 1), hwrite, hjournal, ?_, ?_,
    read_of_holds hholds⟩
  · rw [hlayout, recordBytes_complete]
    rfl
  have hone : pageCount m.medium.pageSize (Utf8.encode text) = 1 ↔
      12 + length + 1 ≤ m.medium.pageSize := pageCount_eq_one_iff hs.pageSize_pos
  rw [hprograms, length_programs]
  simp only [hone]
  rfl

/-- A region of zeros, whose sectors are single pages and whose power lasts just long enough. -/
theorem write_over_zeros :
    let m : Monitored Region := { medium := {
      bytes := List.replicate 36 0, sectorSize := 12, pageSize := 12, powerLeft := some 3 } }
    check m = .ok () m ∧ m.erasesLeft = none ∧
      m.medium.Lasts (programs m.medium.pageSize (Utf8.encode "E")).length ∧
      ∃ m', write "E" m = .ok () m' ∧ m'.medium.programs = 3 ∧
        m'.medium.bytes = [0x31, 0x4e, 0x55, 0x4e, 0xfe, 0xff, 0xff, 0xff, 2, 0, 0, 0, 0x45, 0] ++
          List.replicate 10 0xff ++ List.replicate 12 0 ∧
        read m'.medium = .ok "E" m'.medium := by
  intro m
  have haccepted : check m = .ok () m := check_of_supported (by decide)
  have hpowered : m.medium.Lasts (programs m.medium.pageSize (Utf8.encode "E")).length := by
    rintro _ ⟨⟩
    decide +kernel
  have hlength : (Utf8.encode "E").length = 1 := by decide +kernel
  obtain ⟨hroom, -⟩ := write_of_healthy m haccepted rfl "E" hpowered
  rw [hlength] at hroom
  obtain ⟨pages, erased, m', hpages, herased, hwrite, -, hbytes, hprograms, hread⟩ :=
    hroom (by decide)
  obtain rfl : pages = 2 := by
    have hge : 12 + 1 + 1 ≤ pages * 12 := hpages.1
    have hle : pages ≤ 2 := hpages.2 (show 12 + 1 + 1 ≤ 2 * 12 by decide)
    omega
  obtain rfl : erased = 24 := by
    obtain ⟨⟨sectors, hsectors⟩, hge⟩ := herased.1
    have hle : erased ≤ 24 := herased.2 ⟨⟨2, rfl⟩, (show 12 + 1 + 1 ≤ 24 by decide)⟩
    have hsectors' : erased = 12 * sectors := hsectors
    omega
  refine ⟨haccepted, rfl, hpowered, m', hwrite, hprograms, ?_, hread⟩
  rw [hbytes]
  decide +kernel

end SaveSlot

end MotionMidi
