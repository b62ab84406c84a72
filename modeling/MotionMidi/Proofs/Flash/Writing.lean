import MotionMidi.Proofs.Flash.Monitoring
import MotionMidi.Proofs.Flash.Reading

/-!
# What a write leaves

Every erase and every program happens as a whole or not at all, so a write that is cut short leaves
a prefix of its pages.

## Main definitions

- `Flash.Region.SameSizes` — two regions of one geometry
- `SaveSlot.Fits` — a text has room in the region

Main statements: `SaveSlot.write_cases`, the three ways in which a write ends, and
`SaveSlot.write_of_quiet`.
-/

namespace MotionMidi

open Flash

namespace Flash.Region

variable (region : Region) (offset : Nat)

theorem check_cases (length size : Nat) :
    (∃ failure, check offset length size region = .error failure region) ∨
      (offset + length ≤ region.bytes.length ∧
        check offset length size region = .ok () region) := by
  rcases Nat.lt_or_ge region.bytes.length (offset + length) with hlt | hle
  · exact .inl ⟨_, check_of_lt hlt⟩
  · have hlt : ¬ region.bytes.length < offset + length := by omega
    rw [check, get_bind]
    simp only [hlt, if_false]
    split
    · exact .inl ⟨_, rfl⟩
    · exact .inr ⟨hle, rfl⟩

theorem spendPower_cases :
    (∃ failure, spendPower region = .error failure region) ∨
      ∃ powerLeft, spendPower region = .ok () { region with powerLeft } := by
  obtain ⟨bytes, sectorSize, pageSize, powerLeft, programs, erases⟩ := region
  rcases powerLeft with _ | _ | left
  · exact .inr ⟨none, rfl⟩
  · exact .inl ⟨_, rfl⟩
  · exact .inr ⟨some left, rfl⟩

theorem length_overwrite {bytes new : List UInt8} {offset : Nat}
    (h : offset + new.length ≤ bytes.length) :
    (overwrite bytes offset new).length = bytes.length := by
  simp only [overwrite, List.length_append, List.length_take, List.length_drop]
  omega

/-- Two regions have the same sizes. -/
def SameSizes (region region' : Region) : Prop :=
  Medium.geometry region' = Medium.geometry region

theorem sameSizes_overwrite {new : List UInt8} (h : offset + new.length ≤ region.bytes.length)
    (powerLeft : Option Nat) (programs erases : Nat) :
    SameSizes region { region with
      bytes := overwrite region.bytes offset new, powerLeft, programs, erases } := by
  change Geometry.mk _ _ _ = Geometry.mk _ _ _
  rw [length_overwrite h]

/-- An erase happens as a whole or not at all. -/
theorem erase_cases (length : Nat) :
    (∃ failure region', erase offset length region = .error failure region' ∧ region' = region) ∨
      ∃ region', erase offset length region = .ok () region' ∧ SameSizes region region' ∧
        region'.erases = region.erases + 1 ∧
        region'.bytes = overwrite region.bytes offset (List.replicate length erasedByte) := by
  rcases check_cases region offset length region.sectorSize with ⟨failure, h⟩ | ⟨hle, h⟩
  · left
    exact ⟨failure, region, by rw [erase, get_bind, bind_of_error h], rfl⟩
  · right
    rw [erase, get_bind, bind_of_ok h]
    exact ⟨_, rfl, sameSizes_overwrite region offset (by simpa using hle) _ _ _, rfl, rfl⟩

/-- A program happens as a whole or not at all. -/
theorem program_cases (new : List UInt8) :
    (∃ failure region', program offset new region = .error failure region' ∧
        SameSizes region region' ∧ region'.erases = region.erases ∧
        region'.bytes = region.bytes) ∨
      ∃ region', program offset new region = .ok () region' ∧ SameSizes region region' ∧
        region'.erases = region.erases ∧
        region'.bytes = overwrite region.bytes offset new := by
  rw [program, get_bind]
  rcases check_cases region offset new.length region.pageSize with ⟨failure, h⟩ | ⟨hle, h⟩
  · exact .inl ⟨failure, region, bind_of_error h, rfl, rfl, rfl⟩
  rw [bind_of_ok h]
  rcases spendPower_cases region with ⟨failure, h⟩ | ⟨powerLeft, h⟩
  · exact .inl ⟨failure, region, bind_of_error h, rfl, rfl, rfl⟩
  rw [bind_of_ok h, get_bind]
  dsimp only
  -- Bits that are not erased can be refused once power was spent.
  split
  · exact .inl ⟨_, _, rfl, rfl, rfl, rfl⟩
  · exact .inr ⟨_, rfl, sameSizes_overwrite region offset hle powerLeft _ _, rfl, rfl⟩

end Flash.Region

namespace SaveSlot

open Monitored Region

/-- The text fits a medium. -/
def Fits (geometry : Geometry) (text : String) : Prop :=
  Header.size + (Utf8.encode text).length + 1 ≤ geometry.capacity ∧
    (Utf8.encode text).length ≤ longestText

instance (geometry : Geometry) (text : String) : Decidable (Fits geometry text) :=
  inferInstanceAs (Decidable (_ ∧ _))

/-- The bytes of a region after its first sectors were erased for a record. -/
def erasedBytes (geometry : Geometry) (text : String) (bytes : List UInt8) : List UInt8 :=
  overwrite bytes 0 (List.replicate
    (erasedLength geometry (Header.size + (Utf8.encode text).length + 1)) erasedByte)

/-- A monitored call ends as the medium itself would end it, or is refused on the way there. -/
theorem onMedium_cases {P Q : Region → Prop} {call : Call} {inner : Flash.Action Region Unit}
    {watched : Flash.Action (Monitored Region) Unit} {m : Monitored Region}
    (hends : CallEnds call inner m (watched m)) (hrefused : P m.medium)
    (hinner : (∃ failure region, inner m.medium = .error failure region ∧ P region) ∨
      ∃ region, inner m.medium = .ok () region ∧ Q region) :
    (∃ m', onMedium watched m = .error .mediumFailure m' ∧ P m'.medium) ∨
      ∃ m', onMedium watched m = .ok () m' ∧ Q m'.medium := by
  simp only [onMedium, EStateM.adaptExcept]
  generalize watched m = result at hends ⊢
  cases hends with
  | refused m' hm =>
    left
    exact ⟨m', rfl, hm ▸ hrefused⟩
  | failed failure m' hm =>
    left
    rcases hinner with ⟨_, _, h, hP⟩ | ⟨_, h, -⟩
    · cases h.symm.trans hm
      exact ⟨m', rfl, hP⟩
    · cases h.symm.trans hm
  | done a m' hm =>
    right
    rcases hinner with ⟨_, _, h, -⟩ | ⟨_, h, hQ⟩
    · cases h.symm.trans hm
    · cases h.symm.trans hm
      exact ⟨m', rfl, hQ⟩

/-- Programs some pages, one after the other. -/
def programEach {σ : Type} [Medium σ] (pages : List (Nat × List UInt8)) : Action σ Unit :=
  pages.forM fun (offset, page) => onMedium (Medium.program offset page)

theorem programEach_cons {σ : Type} [Medium σ] (offset : Nat) (page : List UInt8)
    (pages : List (Nat × List UInt8)) :
    programEach (σ := σ) ((offset, page) :: pages) =
      onMedium (Medium.program offset page) >>= fun _ => programEach pages := rfl

/-- Pages are programmed in turn, all of them or as far as the medium goes. -/
theorem programEach_cases (pages : List (Nat × List UInt8)) (m : Monitored Region) :
    (∃ m', ∃ k < pages.length, programEach pages m = .error .mediumFailure m' ∧
        SameSizes m.medium m'.medium ∧ m'.medium.erases = m.medium.erases ∧
        m'.medium.bytes = programAll (pages.take k) m.medium.bytes) ∨
      ∃ m', programEach pages m = .ok () m' ∧
        SameSizes m.medium m'.medium ∧ m'.medium.erases = m.medium.erases ∧
        m'.medium.bytes = programAll pages m.medium.bytes := by
  induction pages generalizing m with
  | nil => exact .inr ⟨m, rfl, rfl, rfl, rfl⟩
  | cons page pages ih =>
    obtain ⟨offset, page⟩ := page
    rw [programEach_cons]
    rcases onMedium_cases (program_ends offset page m) ⟨rfl, rfl, rfl⟩
        (program_cases m.medium offset page) with
      ⟨m', h, hsizes, herases, hbytes⟩ | ⟨m', h, hsizes, herases, hbytes⟩
    -- The cut falls before the first page, or before one of the others.
    · exact .inl ⟨m', 0, Nat.zero_lt_succ _, bind_of_error h, hsizes, herases, hbytes⟩
    · rw [bind_of_ok h]
      rcases ih m' with
        ⟨m'', k, hk, h', hsizes', herases', hbytes'⟩ | ⟨m'', h', hsizes', herases', hbytes'⟩
      · refine .inl ⟨m'', k + 1, Nat.succ_lt_succ hk, h', hsizes'.trans hsizes,
          herases'.trans herases, ?_⟩
        rw [hbytes', hbytes, List.take_succ_cons]
        rfl
      · refine .inr ⟨m'', h', hsizes'.trans hsizes, herases'.trans herases, ?_⟩
        rw [hbytes', hbytes]
        rfl

section Write

variable {text : String} {m : Monitored Region}

theorem write_of_not_fits (h : ¬ Fits (Medium.geometry m) text) :
    write text m = .error .slotTooSmall m := by
  have hguard : (Medium.geometry m).capacity < Header.size + (Utf8.encode text).length + 1 ∨
      longestText < (Utf8.encode text).length := by
    unfold Fits at h
    omega
  rw [write, get_bind]
  simp only [hguard, if_true]
  rfl

theorem write_of_fits (h : Fits (Medium.geometry m) text) :
    write text m =
      (onMedium (Medium.erase 0 (erasedLength (Medium.geometry m)
          (Header.size + (Utf8.encode text).length + 1))) >>= fun _ =>
        programEach (programs (Medium.geometry m).pageSize (Utf8.encode text))) m := by
  have hguard : ¬ ((Medium.geometry m).capacity < Header.size + (Utf8.encode text).length + 1 ∨
      longestText < (Utf8.encode text).length) := by
    unfold Fits at h
    omega
  rw [write, get_bind]
  simp only [hguard, if_false]
  rfl

/-- The header is erased with the sectors of a record. -/
theorem take_erasedBytes (text : String) {geometry : Geometry} (hs : geometry.Supported)
    (bytes : List UInt8) :
    (erasedBytes geometry text bytes).take Header.size =
      List.replicate Header.size erasedByte := by
  obtain ⟨hpage, -, hsector, -⟩ := hs
  have hheader : Header.size = 12 := rfl
  have hpos : 0 < geometry.pageSize ∧ 0 < geometry.sectorSize := by omega
  have hpages := unitsCovering_mul_ge hpos.1 (Header.size + (Utf8.encode text).length + 1)
  have hsectors := unitsCovering_mul_ge hpos.2 (unitsCovering geometry.pageSize
    (Header.size + (Utf8.encode text).length + 1) * geometry.pageSize)
  simp only [erasedBytes, overwrite, List.take_zero, List.nil_append, erasedLength]
  rw [List.take_append_of_le_length (by rw [List.length_replicate]; omega), List.take_replicate,
    Nat.min_eq_left (by omega)]

/-- A write is refused before it changes anything, or is cut short and leaves no complete record,
or leaves the record of its text. A text that fits is only refused by the medium. -/
theorem write_cases (text : String) (hs : (Medium.geometry m).Supported) :
    (∃ e m', write text m = .error e m' ∧ m'.medium = m.medium ∧
        (Fits (Medium.geometry m) text → e = .mediumFailure)) ∨
      (∃ m', write text m = .error .mediumFailure m' ∧ SameSizes m.medium m'.medium ∧
        m'.medium.erases = m.medium.erases + 1 ∧ Incomplete m'.medium.bytes) ∨
      ∃ m', write text m = .ok () m' ∧ SameSizes m.medium m'.medium ∧
        m'.medium.erases = m.medium.erases + 1 ∧ Holds text m'.medium.bytes := by
  by_cases hfits : Fits (Medium.geometry m) text
  case neg => exact .inl ⟨_, m, write_of_not_fits hfits, rfl, fun h => absurd h hfits⟩
  rw [write_of_fits hfits]
  rcases onMedium_cases (P := (· = m.medium)) (erase_ends 0 (erasedLength (Medium.geometry m)
      (Header.size + (Utf8.encode text).length + 1)) m) rfl (erase_cases m.medium _ _) with
    ⟨m', h, hmedium⟩ | ⟨m', h, hsizes, herases, hbytes⟩
  · exact .inl ⟨_, m', bind_of_error h, hmedium, fun _ => rfl⟩
  rw [bind_of_ok h]
  have hheader := take_erasedBytes text hs m.medium.bytes
  rw [erasedBytes, ← hbytes] at hheader
  rcases programEach_cases (programs (Medium.geometry m).pageSize (Utf8.encode text)) m' with
    ⟨m'', k, hk, h', hsizes', herases', hbytes'⟩ | ⟨m'', h', hsizes', herases', hbytes'⟩
  · refine .inr (.inl ⟨m'', h', hsizes'.trans hsizes, herases'.trans herases, ?_⟩)
    rw [Incomplete, hbytes']
    exact not_isComplete_programAll_take _ hs.1 hfits.2 hheader hk
  · refine .inr (.inr ⟨m'', h', hsizes'.trans hsizes, herases'.trans herases, hfits.2, ?_⟩)
    rw [hbytes', programAll_programs _ hs.1, paddedRecord, List.append_assoc]
    exact List.prefix_append _ _

/-- A text that fits is saved if no call fails. -/
theorem write_of_quiet {text : String} (hs : (Medium.geometry m).Supported)
    (hfits : Fits (Medium.geometry m) text) (hq : (stateAfter (write text) m).Quiet) :
    ∃ m', write text m = .ok () m' ∧ SameSizes m.medium m'.medium ∧
      Holds text m'.medium.bytes := by
  have halike := (mirrors_write text).alike m hq
  have hcut {m' : Monitored Region} (h : write text m = .error .mediumFailure m') : False := by
    rw [h] at halike
    cases hinner : write text m.medium with
    | ok a s =>
      rw [hinner] at halike
      exact halike
    | error e s =>
      rw [hinner] at halike
      exact halike.2.1 rfl
  rcases write_cases text hs with ⟨e, m', h, -, he⟩ | ⟨m', h, -⟩ | ⟨m', h, hsizes, -, hholds⟩
  · rw [he hfits] at h
    exact (hcut h).elim
  · exact (hcut h).elim
  · exact ⟨m', h, hsizes, hholds⟩

end Write

end SaveSlot

end MotionMidi
