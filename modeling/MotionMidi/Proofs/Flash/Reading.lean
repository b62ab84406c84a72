import MotionMidi.Proofs.Effect
import MotionMidi.Proofs.Flash.Record

/-!
# What is read from a region

Reading never changes a region, and what is read depends on its bytes alone.

## Main definitions

- `SaveSlot.Holds` — the bytes start with the complete record of a text
- `SaveSlot.Incomplete` — the bytes start with no complete header
-/

namespace MotionMidi

open Flash

namespace Flash.Region

variable {region : Region} {offset length : Nat}

theorem check_of_lt {size : Nat} (h : region.bytes.length < offset + length) :
    check offset length size region = .error .outOfBounds region := by
  rw [check, get_bind]
  simp only [h, if_true]
  rfl

theorem read_of_le (h : offset + length ≤ region.bytes.length) :
    read offset length region = .ok ((region.bytes.drop offset).take length) region := by
  have hcheck : check offset length 1 region = .ok () region := by
    have hlt : ¬ region.bytes.length < offset + length := by omega
    rw [check, get_bind]
    simp only [hlt, if_false, Nat.mod_one, ne_eq, not_true_eq_false, or_self]
    rfl
  rw [read, bind_of_ok hcheck]
  rfl

end Flash.Region

theorem Flash.Geometry.Supported.header_le {geometry : Geometry} (h : geometry.Supported) :
    Header.size ≤ geometry.capacity := by
  obtain ⟨hpage, -, hsector, -, hcapacity, -⟩ := h
  omega

namespace SaveSlot

theorem attempt_of_ok {σ α : Type} {action : Action σ α} {s s' : σ} {a : α}
    (h : action s = .ok a s') : attempt action s = (.ok a, s') := by
  rw [attempt, h]

theorem attempt_of_error {σ α : Type} {action : Action σ α} {s s' : σ} {e : Error}
    (h : action s = .error e s') : attempt action s = (.error e, s') := by
  rw [attempt, h]

theorem onMedium_of_ok {σ α : Type} {action : Flash.Action σ α} {s s' : σ} {a : α}
    (h : action s = .ok a s') : onMedium action s = .ok a s' := by
  simp only [onMedium, EStateM.adaptExcept, h]

theorem check_of_supported {σ : Type} [Medium σ] {s : σ} (h : (Medium.geometry s).Supported) :
    check s = .ok () s := by
  rw [check, get_bind, if_neg (not_not_intro h)]
  rfl

theorem supported_of_check {σ : Type} [Medium σ] {s s' : σ} (h : check s = .ok () s') :
    (Medium.geometry s).Supported := by
  by_cases hs : (Medium.geometry s).Supported
  · exact hs
  · rw [check, get_bind, if_pos hs] at h
    cases h

variable {region : Region}

/-- The bytes start with the complete record of a text. -/
def Holds (text : String) (bytes : List UInt8) : Prop :=
  (Utf8.encode text).length ≤ longestText ∧ recordBytes true (Utf8.encode text) <+: bytes

/-- The bytes start with no complete header. -/
def Incomplete (bytes : List UInt8) : Prop :=
  ¬ (Header.decode (bytes.take Header.size)).IsComplete

theorem readRaw_of_le {offset length : Nat} (h : offset + length ≤ region.bytes.length) :
    readRaw offset length region = .ok ((region.bytes.drop offset).take length) region :=
  onMedium_of_ok (Region.read_of_le h)

theorem header_of_le (h : Header.size ≤ region.bytes.length) :
    header region = .ok (Header.decode (region.bytes.take Header.size)) region := by
  rw [header, bind_of_ok (readRaw_of_le (by omega))]
  rfl

theorem isValid_of_le (h : Header.size ≤ region.bytes.length) :
    isValid region =
      (decide (Header.decode (region.bytes.take Header.size)).IsComplete, region) := by
  rw [isValid, bind_run, attempt_of_ok (header_of_le h)]
  rfl

theorem isValid_of_incomplete (hs : (Medium.geometry region).Supported)
    (h : Incomplete region.bytes) : isValid region = (false, region) := by
  rw [isValid_of_le (hs.header_le), decide_eq_false h]

theorem read_of_incomplete (hs : (Medium.geometry region).Supported)
    (h : Incomplete region.bytes) : read region = .error .noValidRecord region := by
  rw [read, bind_of_ok (header_of_le (hs.header_le))]
  simp only [show ¬ (Header.decode (region.bytes.take Header.size)).IsComplete from h,
    not_false_eq_true, if_true]
  rfl

theorem Holds.decode_header {text : String} {bytes : List UInt8} (h : Holds text bytes) :
    Header.decode (bytes.take Header.size) = Header.make true (Utf8.encode text).length := by
  obtain ⟨hlen, rest, rfl⟩ := h
  rw [List.take_append_of_le_length (by simp; omega),
    decode_recordBytes true hlen]

theorem Holds.isComplete_header {text : String} {bytes : List UInt8} (h : Holds text bytes) :
    (Header.decode (bytes.take Header.size)).IsComplete := by
  rw [h.decode_header, Header.isComplete_make]

theorem Holds.length_le {text : String} {bytes : List UInt8} (h : Holds text bytes) :
    Header.size + (Utf8.encode text).length + 1 ≤ bytes.length := by
  obtain ⟨-, rest, rfl⟩ := h
  rw [List.length_append, length_recordBytes]
  omega

theorem Holds.take_text {text : String} {bytes : List UInt8} (h : Holds text bytes) :
    (bytes.drop Header.size).take (Utf8.encode text).length = Utf8.encode text := by
  obtain ⟨-, rest, rfl⟩ := h
  rw [List.drop_append_of_le_length (by simp; omega), drop_recordBytes,
    List.append_assoc, List.take_left]

theorem Holds.take_terminator {text : String} {bytes : List UInt8} (h : Holds text bytes) :
    (bytes.drop (Header.size + (Utf8.encode text).length)).take 1 = [0] := by
  obtain ⟨-, rest, rfl⟩ := h
  rw [← List.drop_drop, List.drop_append_of_le_length (by simp; omega),
    drop_recordBytes, List.append_assoc, List.drop_left]
  rfl

theorem isValid_of_holds {text : String} (h : Holds text region.bytes) :
    isValid region = (true, region) := by
  have hlen := h.length_le
  rw [isValid_of_le (by omega), decide_eq_true h.isComplete_header]

/-- A complete record gives its text back. -/
theorem read_of_holds {text : String} (h : Holds text region.bytes) :
    read region = .ok text region := by
  have hlen := h.length_le
  have htext : (Utf8.encode text).length ≤ longestText := h.1
  have hgeometry : (Medium.geometry region).capacity = region.bytes.length := rfl
  rw [read, bind_of_ok (header_of_le (by omega)), h.decode_header]
  simp only [Header.isComplete_make, not_true_eq_false, if_false]
  rw [get_bind]
  -- None of the checks along the way stops, and each read gives its part of the record.
  have hscreen : ¬ ((Header.make true (Utf8.encode text).length).length = 0 ∨
      longestText < (Header.make true (Utf8.encode text).length).length - 1 ∨
      (Medium.geometry region).capacity <
        Header.size + (Header.make true (Utf8.encode text).length).length) := by
    simp only [Header.make, hgeometry]
    omega
  have hterminator : readRaw (Header.size + (Header.make true (Utf8.encode text).length).length - 1)
      1 region = .ok [0] region := by
    rw [← h.take_terminator]
    exact readRaw_of_le hlen
  have hpayload : readRaw Header.size ((Header.make true (Utf8.encode text).length).length - 1)
      region = .ok (Utf8.encode text) region := by
    have hread : readRaw Header.size (Utf8.encode text).length region = _ :=
      readRaw_of_le (by omega)
    rw [h.take_text] at hread
    exact hread
  simp only [hscreen, if_false]
  rw [bind_of_ok hterminator]
  simp only [ne_eq, not_true_eq_false, if_false]
  rw [bind_of_ok hpayload]
  simp only [Utf8.decode?_encode]
  rfl

end SaveSlot

end MotionMidi
