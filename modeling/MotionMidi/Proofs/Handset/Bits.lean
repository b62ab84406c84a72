import Mathlib.Data.Fintype.Prod
import Mathlib.Data.Fintype.Sigma
import Mathlib.Data.Fintype.Sum
import Mathlib.Data.Nat.Bitwise
import Mathlib.Tactic.DeriveFintype
import MotionMidi.Handset.Calibration

/-!
# The bits that the handset sends

Every bit of a report is read once, so a report tells its six bytes. Of a calibration block the
checksum and the upper two bits next to each row of lower bits are not read, and every other bit is
read once.

## Main definitions

- `BitPlace`, `bitAt` — a bit of some bytes
- `Wiring` — which bits of some bytes the bits of a value are
- `Wiring.Reads` — values are read from bytes in this way
- `Report.wiring`, `Calibration.wiring` — the bits of reports, and those of calibrations
- `Calibration.InUse` — the bits of a calibration block that are read

Main statements: `Wiring.Reads.eq_iff`, `Wiring.Reads.surjective`, `Handset.bits_read_once`.
-/

namespace MotionMidi

/-! ## Bits of bytes -/

/-- A bit of some bytes: the number of its byte, and its own number there, from the low end. -/
abbrev BitPlace (n : Nat) := Fin n × Fin 8

variable {n : Nat}

/-- The bit in a place. -/
def bitAt (bytes : Vector UInt8 n) (place : BitPlace n) : Bool :=
  bytes[place.1].toNat.testBit place.2

/-- A number of some bits is told by them. -/
theorem eq_of_testBit_fin {width x y : Nat} (hx : x < 2 ^ width) (hy : y < 2 ^ width)
    (h : ∀ i : Fin width, x.testBit i = y.testBit i) : x = y := by
  refine Nat.eq_of_testBit_eq fun i => ?_
  by_cases hi : i < width
  · exact h ⟨i, hi⟩
  · have hle : 2 ^ width ≤ 2 ^ i := Nat.pow_le_pow_right (by decide) (Nat.not_lt.mp hi)
    rw [Nat.testBit_lt_two_pow (Nat.lt_of_lt_of_le hx hle),
      Nat.testBit_lt_two_pow (Nat.lt_of_lt_of_le hy hle)]

theorem byte_eq_of_testBit {x y : UInt8}
    (h : ∀ i : Fin 8, x.toNat.testBit i = y.toNat.testBit i) : x = y :=
  UInt8.toNat_inj.mp (eq_of_testBit_fin x.toNat_lt y.toNat_lt h)

theorem bytes_eq_of_bitAt {bytes bytes' : Vector UInt8 n}
    (h : ∀ place, bitAt bytes place = bitAt bytes' place) : bytes = bytes' :=
  Vector.ext fun index hindex => byte_eq_of_testBit fun i => h (⟨index, hindex⟩, i)

/-- There are bytes with any bits. -/
theorem exists_bitAt (bits : BitPlace n → Bool) :
    ∃ bytes, ∀ place, bitAt bytes place = bits place := by
  refine ⟨.ofFn fun index => .ofNat (Nat.ofBits fun i => bits (index, i)), fun ⟨index, i⟩ => ?_⟩
  have hlt : Nat.ofBits (fun i : Fin 8 => bits (index, i)) < 2 ^ 8 := Nat.ofBits_lt_two_pow _
  simp only [bitAt, Fin.getElem_fin, Vector.getElem_ofFn, UInt8.toNat_ofNat']
  rw [Nat.mod_eq_of_lt hlt, Nat.testBit_ofBits_lt _ _ i.isLt]

/-! ## Wirings -/

/-- Where the bits of a value are found among some bytes, no two of them in one place. The value is
told by its bits. -/
structure Wiring (n : Nat) (α β : Type) where
  /-- A bit of a value. -/
  bit : α → β → Bool
  /-- Where it is found. -/
  place : β → BitPlace n
  /-- It is found inverted. -/
  inverted : β → Bool
  ext : ∀ a a', (∀ b, bit a b = bit a' b) → a = a'
  apart : Function.Injective place

namespace Wiring

variable {α β : Type} {wiring : Wiring n α β} {decode : Vector UInt8 n → α}

/-- Every bit of a value that is read from bytes is the one in its place. -/
def Reads (wiring : Wiring n α β) (decode : Vector UInt8 n → α) : Prop :=
  ∀ bytes b, wiring.bit (decode bytes) b = (bitAt bytes (wiring.place b) ^^ wiring.inverted b)

namespace Reads

/-- The same is read from bytes that agree wherever something is read, and only from those. -/
theorem eq_iff (h : wiring.Reads decode) {bytes bytes' : Vector UInt8 n} :
    decode bytes = decode bytes' ↔
      ∀ b, bitAt bytes (wiring.place b) = bitAt bytes' (wiring.place b) := by
  constructor
  · intro heq b
    have hbit := h bytes b
    rw [heq, h bytes' b] at hbit
    exact (Bool.xor_left_inj.mp hbit).symm
  · intro hbits
    refine wiring.ext _ _ fun b => ?_
    rw [h, h, hbits]

/-- Every value can be read from some bytes. -/
theorem surjective (h : wiring.Reads decode) : Function.Surjective decode := by
  intro a
  obtain ⟨bytes, hbytes⟩ := exists_bitAt
    (Function.extend wiring.place (fun b => wiring.bit a b ^^ wiring.inverted b) fun _ => false)
  refine ⟨bytes, wiring.ext _ _ fun b => ?_⟩
  rw [h, hbytes, wiring.apart.extend_apply, Bool.xor_assoc, Bool.xor_self, Bool.xor_false]

/-- Where no bit is left out, a value can only be read from one row of bytes. -/
theorem injective (h : wiring.Reads decode) (hplace : Function.Surjective wiring.place) :
    Function.Injective decode := by
  intro bytes bytes' heq
  refine bytes_eq_of_bitAt fun place => ?_
  obtain ⟨b, rfl⟩ := hplace place
  exact h.eq_iff.mp heq b

end Reads

end Wiring

/-! ## Numbers of ten bits -/

/-- Where a bit of a number of ten bits is found. The lower two are packed into some place of one
byte, the upper eight are another byte. -/
def tenBitPlace (upper packed : Fin n) (low : Fin 7) (i : Fin 10) : BitPlace n :=
  if h : i.val < 2 then (packed, ⟨low + i, by omega⟩) else (upper, ⟨i - 2, by omega⟩)

theorem testBit_bitPair (packed : UInt8) (pair : Nat) {i : Nat} (h : i < 2) :
    (bitPair packed pair).val.testBit i = packed.toNat.testBit (2 * pair + i) := by
  have hval : (bitPair packed pair).val = packed.toNat / 2 ^ (2 * pair) % 2 ^ 2 := by
    rw [Nat.pow_mul]
    rfl
  rw [hval, Nat.testBit_mod_two_pow, Nat.testBit_div_two_pow, decide_eq_true h, Bool.true_and,
    Nat.add_comm]

theorem testBit_join (bytes : Vector UInt8 n) (upper packed : Fin n) (pair : Nat) (low : Fin 7)
    (hlow : low.val = 2 * pair) (i : Fin 10) :
    (TenBits.join bytes[upper] (bitPair bytes[packed] pair)).val.testBit i =
      bitAt bytes (tenBitPlace upper packed low i) := by
  have hval : (TenBits.join bytes[upper] (bitPair bytes[packed] pair)).val =
      2 ^ 2 * bytes[upper].toNat + (bitPair bytes[packed] pair).val := rfl
  rw [hval, Nat.testBit_two_pow_mul_add _ (bitPair bytes[packed] pair).isLt, tenBitPlace]
  split
  case isTrue h =>
    rw [testBit_bitPair _ _ h, ← hlow]
    rfl
  case isFalse => rfl

theorem tenBits_eq_of_testBit {x y : TenBits}
    (h : ∀ i : Fin 10, x.val.testBit i = y.val.testBit i) : x = y :=
  Fin.ext (eq_of_testBit_fin x.isLt y.isLt h)

/-! ## Reports -/

namespace Report

/-- A bit of a report. -/
inductive Bit where
  | joyX (i : Fin 8)
  | joyY (i : Fin 8)
  | accelX (i : Fin 10)
  | accelY (i : Fin 10)
  | accelZ (i : Fin 10)
  | buttonC
  | buttonZ
  deriving DecidableEq, Fintype

/-- The value of a bit. -/
def bit (report : Report) : Bit → Bool
  | .joyX i => report.joyX.toNat.testBit i
  | .joyY i => report.joyY.toNat.testBit i
  | .accelX i => report.accelX.val.testBit i
  | .accelY i => report.accelY.val.testBit i
  | .accelZ i => report.accelZ.val.testBit i
  | .buttonC => report.buttonC
  | .buttonZ => report.buttonZ

namespace Bit

/-- Where a bit is sent. -/
def place : Bit → BitPlace 6
  | joyX i => (0, i)
  | joyY i => (1, i)
  | accelX i => tenBitPlace 2 5 2 i
  | accelY i => tenBitPlace 3 5 4 i
  | accelZ i => tenBitPlace 4 5 6 i
  | buttonC => (5, 1)
  | buttonZ => (5, 0)

/-- Buttons are sent as clear bits while they are held. -/
def inverted : Bit → Bool
  | buttonC | buttonZ => true
  | _ => false

theorem place_bijective : Function.Bijective place := by
  decide +kernel

end Bit

theorem eq_of_bit {report report' : Report} (h : ∀ b, report.bit b = report'.bit b) :
    report = report' := by
  obtain ⟨joyX, joyY, accelX, accelY, accelZ, buttonC, buttonZ⟩ := report
  obtain ⟨joyX', joyY', accelX', accelY', accelZ', buttonC', buttonZ'⟩ := report'
  rw [Report.mk.injEq]
  exact ⟨byte_eq_of_testBit fun i => h (.joyX i), byte_eq_of_testBit fun i => h (.joyY i),
    tenBits_eq_of_testBit fun i => h (.accelX i), tenBits_eq_of_testBit fun i => h (.accelY i),
    tenBits_eq_of_testBit fun i => h (.accelZ i), h .buttonC, h .buttonZ⟩

/-- The bits of a report, as they are sent. -/
def wiring : Wiring 6 Report Bit where
  bit := bit
  place := Bit.place
  inverted := Bit.inverted
  ext _ _ := eq_of_bit
  apart := Bit.place_bijective.injective

theorem reads_decode : wiring.Reads decode := by
  intro bytes b
  cases b with
  | joyX i => exact (Bool.xor_false _).symm
  | joyY i => exact (Bool.xor_false _).symm
  | accelX i => exact (testBit_join bytes 2 5 1 2 rfl i).trans (Bool.xor_false _).symm
  | accelY i => exact (testBit_join bytes 3 5 2 4 rfl i).trans (Bool.xor_false _).symm
  | accelZ i => exact (testBit_join bytes 4 5 3 6 rfl i).trans (Bool.xor_false _).symm
  | buttonC =>
    change decide (bytes[5].toNat / 2 % 2 = 0) = (bytes[5].toNat.testBit 1 ^^ true)
    rw [Nat.testBit_eq_decide_div_mod_eq, Bool.xor_true, ← decide_not, decide_eq_decide]
    omega
  | buttonZ =>
    change decide (bytes[5].toNat % 2 = 0) = (bytes[5].toNat.testBit 0 ^^ true)
    rw [Nat.testBit_eq_decide_div_mod_eq, Bool.xor_true, ← decide_not, decide_eq_decide]
    omega

end Report

/-! ## Calibrations -/

/-- The bytes of a joystick axis, in the order in which they are sent. -/
def JoystickCalibration.part (axis : JoystickCalibration) : Fin 3 → UInt8
  | 0 => axis.max
  | 1 => axis.min
  | 2 => axis.center

namespace Calibration

/-- The accelerometer along X, Y, and Z. -/
def acceleration (calibration : Calibration) : Fin 3 → AccelerationCalibration
  | 0 => calibration.accelX
  | 1 => calibration.accelY
  | 2 => calibration.accelZ

/-- The joystick along X and Y. -/
def joystick (calibration : Calibration) : Fin 2 → JoystickCalibration
  | 0 => calibration.joyX
  | 1 => calibration.joyY

/-- A bit of a calibration. -/
inductive Bit where
  | rest (axis : Fin 3) (i : Fin 10)
  | oneG (axis : Fin 3) (i : Fin 10)
  | joystick (axis : Fin 2) (part : Fin 3) (i : Fin 8)
  deriving DecidableEq, Fintype

/-- The value of a bit. -/
def bit (calibration : Calibration) : Bit → Bool
  | .rest axis i => (calibration.acceleration axis).rest.val.testBit i
  | .oneG axis i => (calibration.acceleration axis).oneG.val.testBit i
  | .joystick axis part i => ((calibration.joystick axis).part part).toNat.testBit i

/-- Where a bit is sent. Among the lower bits of an acceleration, those along Z come first. -/
def Bit.place : Bit → BitPlace 16
  | rest axis i => tenBitPlace ⟨axis, by omega⟩ 3 ⟨4 - 2 * axis, by omega⟩ i
  | oneG axis i => tenBitPlace ⟨4 + axis, by omega⟩ 7 ⟨4 - 2 * axis, by omega⟩ i
  | joystick axis part i => (⟨8 + 3 * axis + part, by omega⟩, i)

/-- The bits of a block that are read: those of the first fourteen bytes, except the upper two of
each byte that holds lower bits. -/
def InUse (place : BitPlace 16) : Prop :=
  place.1 < 14 ∧ ¬((place.1 = 3 ∨ place.1 = 7) ∧ 6 ≤ place.2)

instance : DecidablePred InUse := fun _ =>
  inferInstanceAs (Decidable (_ ∧ _))

theorem Bit.place_injective : Function.Injective Bit.place := by
  decide +kernel

theorem inUse_iff (place : BitPlace 16) : InUse place ↔ ∃ b : Bit, b.place = place := by
  revert place
  decide +kernel

theorem eq_of_bit {calibration calibration' : Calibration}
    (h : ∀ b, calibration.bit b = calibration'.bit b) : calibration = calibration' := by
  have hacceleration (axis : Fin 3) :
      calibration.acceleration axis = calibration'.acceleration axis := by
    have hrest := tenBits_eq_of_testBit fun i => h (.rest axis i)
    have honeG := tenBits_eq_of_testBit fun i => h (.oneG axis i)
    generalize calibration.acceleration axis = acceleration at hrest honeG ⊢
    generalize calibration'.acceleration axis = acceleration' at hrest honeG ⊢
    cases acceleration
    cases acceleration'
    rw [AccelerationCalibration.mk.injEq]
    exact ⟨hrest, honeG⟩
  have hjoystick (axis : Fin 2) : calibration.joystick axis = calibration'.joystick axis := by
    have hpart (part : Fin 3) := byte_eq_of_testBit fun i => h (.joystick axis part i)
    generalize calibration.joystick axis = joystick at hpart ⊢
    generalize calibration'.joystick axis = joystick' at hpart ⊢
    cases joystick
    cases joystick'
    rw [JoystickCalibration.mk.injEq]
    exact ⟨hpart 1, hpart 2, hpart 0⟩
  cases calibration
  cases calibration'
  rw [Calibration.mk.injEq]
  exact ⟨hacceleration 0, hacceleration 1, hacceleration 2, hjoystick 0, hjoystick 1⟩

/-- The bits of a calibration, as they are sent. -/
def wiring : Wiring 16 Calibration Bit where
  bit := bit
  place := Bit.place
  inverted _ := false
  ext _ _ := eq_of_bit
  apart := Bit.place_injective

theorem reads_decode : wiring.Reads decode := by
  intro block b
  rw [show wiring.inverted b = false from rfl, Bool.xor_false]
  cases b with
  | rest axis i =>
    match axis with
    | 0 => exact testBit_join block 0 3 2 4 rfl i
    | 1 => exact testBit_join block 1 3 1 2 rfl i
    | 2 => exact testBit_join block 2 3 0 0 rfl i
  | oneG axis i =>
    match axis with
    | 0 => exact testBit_join block 4 7 2 4 rfl i
    | 1 => exact testBit_join block 5 7 1 2 rfl i
    | 2 => exact testBit_join block 6 7 0 0 rfl i
  | joystick axis part i =>
    match axis, part with
    | 0, 0 => rfl
    | 0, 1 => rfl
    | 0, 2 => rfl
    | 1, 0 => rfl
    | 1, 1 => rfl
    | 1, 2 => rfl

/-- Blocks tell the same calibration if and only if they agree on the bits that are read. -/
theorem decode_eq_iff {block block' : Vector UInt8 16} :
    decode block = decode block' ↔
      ∀ place, InUse place → bitAt block place = bitAt block' place := by
  rw [reads_decode.eq_iff]
  constructor
  · intro h place hplace
    obtain ⟨b, rfl⟩ := (inUse_iff place).mp hplace
    exact h b
  · intro h b
    exact h _ ((inUse_iff _).mpr ⟨b, rfl⟩)

end Calibration

/-- Each bit of the six bytes of a report is one bit of the state that they tell, with the buttons
inverted, so there is exactly one report for every state. The bits of a calibration are bits of its
block in the same way, so there is a block for every calibration, and two blocks tell the same one
if and only if they agree on the first fourteen bytes, apart from the upper two bits of the bytes 3
and 7. -/
theorem Handset.bits_read_once :
    Function.Bijective Report.Bit.place ∧ Report.wiring.Reads Report.decode ∧
      (∀ report, ∃! bytes, Report.decode bytes = report) ∧
      Function.Injective Calibration.Bit.place ∧ Calibration.wiring.Reads Calibration.decode ∧
      (∀ calibration, ∃ block, Calibration.decode block = calibration) ∧
      ∀ block block', Calibration.decode block = Calibration.decode block' ↔
        ∀ place, Calibration.InUse place → bitAt block place = bitAt block' place := by
  have hreport : Function.Bijective Report.decode :=
    ⟨Report.reads_decode.injective Report.Bit.place_bijective.surjective,
      Report.reads_decode.surjective⟩
  exact ⟨Report.Bit.place_bijective, Report.reads_decode,
    Function.bijective_iff_existsUnique _ |>.mp hreport, Calibration.Bit.place_injective,
    Calibration.reads_decode, Calibration.reads_decode.surjective,
    fun _ _ => Calibration.decode_eq_iff⟩

/-- A block whose unused bits are all changed, and then the highest of the lower bits too. The
report is told by no other bytes. -/
theorem Handset.bits_read_once_of_unused_bits :
    let block : Vector UInt8 16 :=
      #v[128, 127, 129, 0x39, 179, 178, 180, 0x1b, 224, 32, 128, 225, 33, 127, 0xa5, 0x5a]
    let unused : Vector UInt8 16 :=
      #v[128, 127, 129, 0xf9, 179, 178, 180, 0xdb, 224, 32, 128, 225, 33, 127, 0x5a, 0xa5]
    let used : Vector UInt8 16 :=
      #v[128, 127, 129, 0xd9, 179, 178, 180, 0xdb, 224, 32, 128, 225, 33, 127, 0x5a, 0xa5]
    Calibration.decode block = Calibration.decode unused ∧
      Calibration.decode block ≠ Calibration.decode used ∧
      ∀ bytes, Report.decode bytes = ⟨128, 32, 717, 514, 515, false, true⟩ ↔
        bytes = #v[128, 32, 179, 128, 128, 0xe6] := by
  intro block unused used
  obtain ⟨-, -, hunique, -, -, -, hblocks⟩ := bits_read_once
  have hunused : ∀ place, Calibration.InUse place → bitAt block place = bitAt unused place := by
    decide +kernel
  have hused : Calibration.InUse (3, 5) ∧ bitAt block (3, 5) ≠ bitAt used (3, 5) := by
    decide +kernel
  have hreport : Report.decode #v[128, 32, 179, 128, 128, 0xe6] =
      ⟨128, 32, 717, 514, 515, false, true⟩ := by
    decide +kernel
  refine ⟨(hblocks block unused).mpr hunused, ?_, fun bytes => ⟨fun h => ?_, fun h => ?_⟩⟩
  · intro heq
    exact hused.2 ((hblocks block used).mp heq _ hused.1)
  · exact (hunique _).unique h hreport
  · rw [h, hreport]

end MotionMidi
