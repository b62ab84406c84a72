import MotionMidi.Proofs.Flash.Monitoring
import MotionMidi.Proofs.Flash.Reading

/-!
# Reading arbitrary flash

Nothing is taken for granted about the bytes of a region: a length that makes no sense is found out
before it is used to reach into the medium.

## Main definitions

- `SaveSlot.Tells` — the bytes of a region tell a text
- `Flash.Entry.Within` — a read that went through and stayed inside the medium
- `Flash.Monitored.Browsed` — only such reads were made

Main statement: `SaveSlot.read_eq_ok_iff`.
-/

namespace MotionMidi

open Flash SaveSlot

namespace Flash

/-- A read that went through and stayed inside a medium of so many bytes. -/
def Entry.Within (capacity : Nat) (entry : Entry) : Prop :=
  entry.failure = none ∧
    ∃ offset length, entry.call = .read offset length ∧ offset + length ≤ capacity

/-- Of two states the second one comes after some reads inside the medium. -/
structure Monitored.Browsed (m m' : Monitored Region) : Prop where
  medium : m'.medium = m.medium
  readsLeft : m'.readsLeft = m.readsLeft
  calls : ∃ entries, m'.journal = entries ++ m.journal ∧
    ∀ entry ∈ entries, entry.Within m.medium.bytes.length

namespace Monitored.Browsed

variable {m m' m'' : Monitored Region}

theorem trans (h : Browsed m m') (h' : Browsed m' m'') : Browsed m m'' := by
  obtain ⟨entries, hjournal, hwithin⟩ := h.calls
  obtain ⟨entries', hjournal', hwithin'⟩ := h'.calls
  rw [h.medium] at hwithin'
  refine ⟨h'.medium.trans h.medium, h'.readsLeft.trans h.readsLeft, entries' ++ entries, ?_, ?_⟩
  · rw [hjournal', hjournal, List.append_assoc]
  · exact List.forall_mem_append.mpr ⟨hwithin', hwithin⟩

theorem after (m : Monitored Region) {offset length : Nat}
    (h : offset + length ≤ m.medium.bytes.length) :
    Browsed m (m.after m.medium (.read offset length)) := by
  refine ⟨rfl, rfl, [⟨.read offset length, none⟩], rfl, ?_⟩
  rw [List.forall_mem_singleton]
  exact ⟨rfl, offset, length, rfl, h⟩

end Monitored.Browsed

end Flash

namespace SaveSlot

/-- The number in the four bytes at an offset. -/
def wordAt (bytes : List UInt8) (offset : Nat) : Nat :=
  wordValue ((bytes.drop offset).take 4)

/-- The bytes of a region tell a text: a header with the magic number and with a clear lowest bit
among its flags, the text, and a zero as far behind the header as its length says. -/
structure Tells (bytes : List UInt8) (text : String) : Prop where
  magic : wordAt bytes 0 = 0x4e554e31
  complete : (wordAt bytes 4).testBit 0 = false
  positive : 1 ≤ wordAt bytes 8
  short : wordAt bytes 8 ≤ 4097
  room : 12 + wordAt bytes 8 ≤ bytes.length
  terminated : bytes[12 + wordAt bytes 8 - 1]? = some 0
  text : Utf8.encode text = (bytes.drop 12).take (wordAt bytes 8 - 1)

theorem decode_take (bytes : List UInt8) :
    Header.decode (bytes.take Header.size) = ⟨wordAt bytes 0, wordAt bytes 4, wordAt bytes 8⟩ := by
  simp only [Header.decode, Header.size, wordAt, List.take_take, List.drop_take]
  rfl

theorem isComplete_iff {magic flags length : Nat} :
    (Header.mk magic flags length).IsComplete ↔
      magic = 0x4e554e31 ∧ flags.testBit 0 = false := by
  rw [Header.IsComplete, Nat.testBit_zero, decide_eq_false_iff_not, Nat.mod_two_not_eq_one]
  rfl

theorem take_one_eq_singleton_iff {bytes : List UInt8} {offset : Nat} {byte : UInt8} :
    (bytes.drop offset).take 1 = [byte] ↔ bytes[offset]? = some byte := by
  rw [List.take_one, List.head?_drop]
  cases bytes[offset]? <;> simp

/-- A record with such a length has a place for its terminator, and lies in the medium. -/
def Plausible (capacity length : Nat) : Prop :=
  1 ≤ length ∧ length ≤ 4097 ∧ 12 + length ≤ capacity

instance (capacity length : Nat) : Decidable (Plausible capacity length) :=
  inferInstanceAs (Decidable (_ ∧ _))

theorem implausible_iff {capacity length : Nat} :
    (length = 0 ∨ longestText < length - 1 ∨ capacity < Header.size + length) ↔
      ¬ Plausible capacity length := by
  simp only [longestText, Header.size, Plausible]
  omega

/-- The steps of a read. Each test stands in front of the read that relies on it. -/
theorem read_eq {σ : Type} [Medium σ] : (read : Action σ String) =
    header >>= fun header =>
      if header.IsComplete then
        get >>= fun s =>
          if Plausible (Medium.geometry s).capacity header.length then
            readRaw (12 + header.length - 1) 1 >>= fun terminator =>
              if terminator = [0] then
                readRaw 12 (header.length - 1) >>= fun bytes =>
                  match Utf8.decode? bytes with
                  | some text => pure text
                  | none => throw .noValidRecord
              else throw .noValidRecord
          else throw .noValidRecord
      else throw .noValidRecord := by
  refine congrArg (header >>= ·) (funext fun header => ?_)
  by_cases hcomplete : header.IsComplete
  case neg =>
    rw [if_neg hcomplete, if_pos hcomplete]
    rfl
  rw [if_pos hcomplete, if_neg (not_not_intro hcomplete)]
  refine congrArg (get >>= ·) (funext fun s => ?_)
  by_cases hplausible : Plausible (Medium.geometry s).capacity header.length
  case neg =>
    rw [if_neg hplausible]
    exact if_pos (implausible_iff.mpr hplausible)
  rw [if_pos hplausible]
  refine (if_neg (mt implausible_iff.mp (not_not_intro hplausible))).trans ?_
  refine congrArg (readRaw (12 + header.length - 1) 1 >>= ·) (funext fun terminator => ?_)
  by_cases hterminator : terminator = [0]
  case neg =>
    rw [if_neg hterminator, if_pos hterminator]
    rfl
  rw [if_pos hterminator, if_neg (not_not_intro hterminator)]
  rfl

variable {m : Monitored Region}

theorem readRaw_admitted (h : m.readsLeft = none) {offset length : Nat}
    (hin : offset + length ≤ m.medium.bytes.length) :
    ∃ m', readRaw offset length m = .ok ((m.medium.bytes.drop offset).take length) m' ∧
      Monitored.Browsed m m' :=
  ⟨_, onMedium_of_ok (Monitored.read_admitted h (Region.read_of_le hin)), .after m hin⟩

theorem header_admitted (h : m.readsLeft = none) (hs : (Medium.geometry m).Supported) :
    ∃ m', header m = .ok ⟨wordAt m.medium.bytes 0, wordAt m.medium.bytes 4,
        wordAt m.medium.bytes 8⟩ m' ∧ Monitored.Browsed m m' := by
  have hin : 0 + Header.size ≤ m.medium.bytes.length := by
    rw [Nat.zero_add]
    exact hs.header_le
  obtain ⟨m', hread, hbrowsed⟩ := readRaw_admitted h hin
  refine ⟨m', ?_, hbrowsed⟩
  rw [header, bind_of_ok hread, List.drop_zero, decode_take]
  rfl

/-- Whatever a region holds, only its own bytes are read. They tell a text, which is returned, or
they tell none, which is noticed. -/
theorem read_admitted (h : m.readsLeft = none) (hs : (Medium.geometry m).Supported) :
    ∃ m', Monitored.Browsed m m' ∧
      ((∃ text, Tells m.medium.bytes text ∧ read m = .ok text m') ∨
        (∀ text, ¬ Tells m.medium.bytes text) ∧ read m = .error .noValidRecord m') := by
  obtain ⟨m₁, hheader, hbrowsed⟩ := header_admitted h hs
  have hcapacity : (Medium.geometry m₁).capacity = m.medium.bytes.length := by
    rw [← hbrowsed.medium]
    rfl
  rw [read_eq, bind_of_ok hheader]
  -- A test that fails ends the read, and what it asks for is a part of `Tells`.
  by_cases hcomplete : (Header.mk (wordAt m.medium.bytes 0) (wordAt m.medium.bytes 4)
    (wordAt m.medium.bytes 8)).IsComplete
  case neg =>
    refine ⟨m₁, hbrowsed, .inr ⟨fun text htells => ?_, by rw [if_neg hcomplete]; rfl⟩⟩
    exact hcomplete (isComplete_iff.mpr ⟨htells.magic, htells.complete⟩)
  rw [if_pos hcomplete, get_bind, hcapacity]
  by_cases hplausible : Plausible m.medium.bytes.length (wordAt m.medium.bytes 8)
  case neg =>
    refine ⟨m₁, hbrowsed, .inr ⟨fun text htells => ?_, by rw [if_neg hplausible]; rfl⟩⟩
    exact hplausible ⟨htells.positive, htells.short, htells.room⟩
  obtain ⟨hpositive, hshort, hroom⟩ := hplausible
  have hend : 12 + wordAt m.medium.bytes 8 - 1 + 1 ≤ m₁.medium.bytes.length := by
    rw [hbrowsed.medium]
    omega
  obtain ⟨m₂, hterminator, hbrowsed₂⟩ := readRaw_admitted (hbrowsed.readsLeft.trans h) hend
  rw [if_pos ⟨hpositive, hshort, hroom⟩, bind_of_ok hterminator, hbrowsed.medium]
  replace hbrowsed₂ := hbrowsed.trans hbrowsed₂
  by_cases hzero : (m.medium.bytes.drop (12 + wordAt m.medium.bytes 8 - 1)).take 1 = [0]
  case neg =>
    refine ⟨m₂, hbrowsed₂, .inr ⟨fun text htells => ?_, by rw [if_neg hzero]; rfl⟩⟩
    exact hzero (take_one_eq_singleton_iff.mpr htells.terminated)
  have htext : 12 + (wordAt m.medium.bytes 8 - 1) ≤ m₂.medium.bytes.length := by
    rw [hbrowsed₂.medium]
    omega
  obtain ⟨m₃, hpayload, hbrowsed₃⟩ := readRaw_admitted (hbrowsed₂.readsLeft.trans h) htext
  rw [if_pos hzero, bind_of_ok hpayload, hbrowsed₂.medium]
  replace hbrowsed₃ := hbrowsed₂.trans hbrowsed₃
  cases hdecode :
    Utf8.decode? ((m.medium.bytes.drop 12).take (wordAt m.medium.bytes 8 - 1)) with
  | none =>
    refine ⟨m₃, hbrowsed₃, .inr ⟨fun text htells => ?_, rfl⟩⟩
    rw [Utf8.decode?_eq_some_iff.mpr htells.text.symm] at hdecode
    cases hdecode
  | some text =>
    refine ⟨m₃, hbrowsed₃, .inl ⟨text, ?_, rfl⟩⟩
    obtain ⟨hmagic, hflag⟩ := isComplete_iff.mp hcomplete
    exact ⟨hmagic, hflag, hpositive, hshort, hroom, take_one_eq_singleton_iff.mp hzero,
      (Utf8.decode?_eq_some_iff.mp hdecode).symm⟩

theorem isValid_admitted (h : m.readsLeft = none) (hs : (Medium.geometry m).Supported) :
    ∃ m', Monitored.Browsed m m' ∧ isValid m = (decide (wordAt m.medium.bytes 0 = 0x4e554e31 ∧
      (wordAt m.medium.bytes 4).testBit 0 = false), m') := by
  obtain ⟨m', hheader, hbrowsed⟩ := header_admitted h hs
  refine ⟨m', hbrowsed, ?_⟩
  rw [isValid, bind_run, attempt_of_ok hheader]
  simp only [isComplete_iff]
  rfl

/-- The bytes tell at most one text. -/
theorem Tells.unique {bytes : List UInt8} {text text' : String} (h : Tells bytes text)
    (h' : Tells bytes text') : text = text' := by
  have heq : Utf8.encode text = Utf8.encode text' := h.text.trans h'.text.symm
  have hdecode := Utf8.decode?_encode text
  rw [heq, Utf8.decode?_encode] at hdecode
  exact (Option.some.inj hdecode).symm

/-- Reading a region with arbitrary bytes, from which every read is let through: a text is returned
exactly if the bytes tell it, and in all other cases there is no valid record. No read reaches
beyond the region, which stays as it is, and a region that gives a text is valid. -/
theorem read_eq_ok_iff (m : Monitored Region) (accepted : check m = .ok () m)
    (admitted : m.readsLeft = none) :
    let (result, after) := attempt read m
    (∀ text, result = .ok text ↔ Tells m.medium.bytes text) ∧
      ((∀ text, ¬ Tells m.medium.bytes text) → result = .error .noValidRecord) ∧
      (∃ entries, after.journal = entries ++ m.journal ∧ ∀ entry ∈ entries,
        entry.failure = none ∧ ∃ offset length, entry.call = .read offset length ∧
          offset + length ≤ m.medium.bytes.length) ∧
      after.medium = m.medium ∧ (isValid m).2.medium = m.medium ∧
      (∀ text, result = .ok text → (isValid m).1 = true) := by
  have hs := supported_of_check accepted
  obtain ⟨m₁, hvalid, hisValid⟩ := isValid_admitted admitted hs
  rw [hisValid]
  obtain ⟨m', hbrowsed, ⟨text, htells, hread⟩ | ⟨hnone, hread⟩⟩ := read_admitted admitted hs
  · rw [attempt_of_ok hread]
    refine ⟨fun text' => ⟨?_, ?_⟩, ?_, hbrowsed.calls, hbrowsed.medium, hvalid.medium, ?_⟩
    · rintro ⟨⟩
      exact htells
    · intro htells'
      rw [htells.unique htells']
    · intro hnone
      exact (hnone text htells).elim
    · intro _ _
      exact decide_eq_true ⟨htells.magic, htells.complete⟩
  · rw [attempt_of_error hread]
    refine ⟨fun text => ⟨nofun, fun htells => (hnone text htells).elim⟩, fun _ => rfl,
      hbrowsed.calls, hbrowsed.medium, hvalid.medium, nofun⟩

/-- A record whose flags are all clear, and which ends with the region. -/
theorem read_record_without_flags :
    let m : Monitored Region := { medium := {
      bytes := [0x31, 0x4e, 0x55, 0x4e, 0, 0, 0, 0, 4, 0, 0, 0, 0x45, 0xc3, 0xa9, 0]
      sectorSize := 16, pageSize := 16 } }
    check m = .ok () m ∧ m.readsLeft = none ∧ (attempt read m).1 = .ok "Eé" ∧
      (isValid m).1 = true := by
  intro m
  have haccepted : check m = .ok () m := check_of_supported (by decide)
  have htells : Tells m.medium.bytes "Eé" := by
    refine ⟨?_, ?_, ?_, ?_, ?_, ?_, ?_⟩ <;> decide +kernel
  obtain ⟨hread, -, -, -, -, hvalid⟩ := read_eq_ok_iff m haccepted rfl
  exact ⟨haccepted, rfl, (hread "Eé").mpr htells, hvalid "Eé" ((hread "Eé").mpr htells)⟩

end SaveSlot

end MotionMidi
