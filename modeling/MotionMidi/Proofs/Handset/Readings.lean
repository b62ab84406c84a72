import MotionMidi.Handset.Calibration
import MotionMidi.Proofs.Binary32.Arithmetic

/-!
# Calibrated readings

Whatever calibration a handset tells, its readings are finite numbers, and the joystick stays
between minus one and one. Its deflection never goes back while the stick moves on, reads zero
around the center, and reaches one at both ends.

## Main definitions

- `JoystickCalibration.distance`, `extent` — how far the joystick is from its center, and how far it
  goes in that direction
- `Calibration.reading?` — the reading, where no divisor may be zero

Main statements: `JoystickCalibration.normalize_mono`, `JoystickCalibration.normalize_mem`,
`AccelerationCalibration.isFinite_normalize`, `Calibration.reading?_eq`, `Handset.readings_sane`.
-/

namespace MotionMidi

open Binary32

/-! ## The deflection of half an axis -/

namespace JoystickCalibration

/-- The part of the extent that is left between the dead zone and its counterpart at the end. -/
def liveZone : Binary32 :=
  1 - 2 * deadZone

theorem rounds_deadZone : Rounds (1 / 10) deadZone := by
  have h := rounds_ofScientific 1 1
  rw [Nat.cast_one, pow_one] at h
  exact h

theorem isFinite_deadZone : deadZone.isFinite := by
  decide +kernel

theorem isFinite_liveZone : liveZone.isFinite := by
  decide +kernel

theorem value_liveZone_pos : 0 < liveZone.value := by
  have h : 0 < liveZone := by
    decide +kernel
  rwa [lt_iff zero_ne_nan (ne_nan_of_isFinite isFinite_liveZone), value_zero] at h

/-- The deflection before it is brought between zero and one. -/
def stretched (full : Binary32) : Binary32 :=
  (full - deadZone) / liveZone

theorem stretched_mono {full full' : Binary32} (h : full ≤ full') :
    stretched full ≤ stretched full' :=
  div_mono_left isFinite_liveZone value_liveZone_pos (sub_mono_left isFinite_deadZone h)

@[simp] theorem stretched_deadZone : stretched deadZone = 0 := by
  decide +kernel

theorem one_lt_stretched_one : 1 < stretched 1 := by
  decide +kernel

theorem deflection_eq (distance extent : Nat) :
    deflection distance extent = clamp 0 1 (stretched (ofNat distance / ofNat extent)) := rfl

section Deflection

variable {distance distance' extent : Nat}

/-- The part of the extent that a distance makes up. -/
theorem rounds_full (hdistance : distance ≤ 255) (hpos : 0 < extent) (hextent : extent ≤ 255) :
    Rounds (distance / extent) (ofNat distance / ofNat extent) := by
  have hvalue := value_ofNat (n := extent) (by omega)
  have h := rounds_div (isFinite_ofNat (n := distance) (by omega))
    (isFinite_ofNat (n := extent) (by omega)) (by rw [hvalue]; exact_mod_cast hpos.ne')
  rwa [hvalue, value_ofNat (by omega)] at h

variable (hdistance : distance ≤ 255) (hpos : 0 < extent) (hextent : extent ≤ 255)

include hdistance hpos hextent

theorem isFinite_deflection : (deflection distance extent).isFinite := by
  have hfull := (rounds_full hdistance hpos hextent).ne_nan
  exact isFinite_clamp_unit (ne_nan_of_le (stretched_mono (le_self hfull))).1

theorem deflection_mono (hdistance' : distance' ≤ 255) (h : distance ≤ distance') :
    deflection distance extent ≤ deflection distance' extent := by
  refine clamp_unit_mono (stretched_mono
    ((rounds_full hdistance hpos hextent).mono (rounds_full hdistance' hpos hextent) ?_))
  gcongr

/-- Around the center, the deflection is zero. -/
theorem value_deflection_of_near (h : 10 * distance ≤ extent) :
    (deflection distance extent).value = 0 := by
  have hfull : ofNat distance / ofNat extent ≤ deadZone := by
    refine (rounds_full hdistance hpos hextent).mono rounds_deadZone ?_
    rw [div_le_div_iff₀ (by exact_mod_cast hpos) (by norm_num)]
    have : (10 * distance : ℚ) ≤ extent := by exact_mod_cast h
    linarith
  have hle := stretched_mono hfull
  rw [stretched_deadZone, le_iff (ne_nan_of_le hle).1 zero_ne_nan, value_zero] at hle
  rw [deflection_eq, value_clamp_unit, min_eq_right (by linarith), max_eq_left hle]

/-- At the end and beyond it, the deflection is one. -/
theorem deflection_of_ge (h : extent ≤ distance) : deflection distance extent = 1 := by
  have hone : Rounds 1 1 := by
    have h := rounds_ofNat 1
    rwa [Nat.cast_one] at h
  have hfull : 1 ≤ ofNat distance / ofNat extent := by
    refine hone.mono (rounds_full hdistance hpos hextent) ?_
    rw [one_le_div (by exact_mod_cast hpos)]
    exact_mod_cast h
  have hle := stretched_mono hfull
  obtain ⟨hleft, hright⟩ := ne_nan_of_le hle
  refine clamp_unit_of_one_lt ((lt_iff one_ne_nan hright).mpr ?_)
  exact ((lt_iff one_ne_nan hleft).mp one_lt_stretched_one).trans_le ((le_iff hleft hright).mp hle)

end Deflection

/-! ## The deflection of the joystick -/

/-- The distance from the center. -/
def distance (axis : JoystickCalibration) (raw : UInt8) : Nat :=
  if raw.toNat < axis.center.toNat then axis.center.toNat - raw.toNat
  else raw.toNat - axis.center.toNat

/-- The extent of the half of the axis on which the joystick is. It has none if its end is not
beyond the center. -/
def extent (axis : JoystickCalibration) (raw : UInt8) : Nat :=
  if raw.toNat < axis.center.toNat then axis.center.toNat - axis.min.toNat
  else axis.max.toNat - axis.center.toNat

variable {axis : JoystickCalibration} {raw raw' : UInt8}

theorem distance_le (axis : JoystickCalibration) (raw : UInt8) : axis.distance raw ≤ 255 := by
  have := axis.center.toNat_lt
  have := raw.toNat_lt
  unfold distance
  split <;> omega

theorem extent_le (axis : JoystickCalibration) (raw : UInt8) : axis.extent raw ≤ 255 := by
  have := axis.center.toNat_lt
  have := axis.max.toNat_lt
  unfold extent
  split <;> omega

theorem normalize_eq (axis : JoystickCalibration) (raw : UInt8) :
    axis.normalize raw =
      if axis.extent raw = 0 then 0
      else (if raw.toNat < axis.center.toNat then -1 else 1) *
        deflection (axis.distance raw) (axis.extent raw) := by
  unfold normalize distance extent
  dsimp only
  split <;> rfl

theorem normalize_of_no_extent (h : axis.extent raw = 0) : axis.normalize raw = 0 := by
  rw [normalize_eq, if_pos h]

section Extent

variable (h : axis.extent raw ≠ 0)

include h

theorem isFinite_ahead : (deflection (axis.distance raw) (axis.extent raw)).isFinite :=
  isFinite_deflection (axis.distance_le raw) (Nat.pos_of_ne_zero h) (axis.extent_le raw)

theorem normalize_below (hbelow : raw.toNat < axis.center.toNat) :
    axis.normalize raw = -deflection (axis.distance raw) (axis.extent raw) := by
  rw [normalize_eq, if_neg h, if_pos hbelow, neg_one_mul_of_isFinite (isFinite_ahead h)]

theorem normalize_above (habove : ¬raw.toNat < axis.center.toNat) :
    axis.normalize raw = deflection (axis.distance raw) (axis.extent raw) := by
  rw [normalize_eq, if_neg h, if_neg habove, one_mul_of_isFinite (isFinite_ahead h)]

end Extent

theorem value_deflection_mem (distance extent : Nat) :
    0 ≤ (deflection distance extent).value ∧ (deflection distance extent).value ≤ 1 := by
  rw [deflection_eq, value_clamp_unit]
  exact ⟨le_max_left _ _, max_le zero_le_one (min_le_left _ _)⟩

/-- On the lower half the deflection is not positive. -/
theorem normalize_mem_below (hbelow : raw.toNat < axis.center.toNat) :
    axis.normalize raw ≠ nan ∧ -1 ≤ (axis.normalize raw).value ∧
      (axis.normalize raw).value ≤ 0 := by
  by_cases h : axis.extent raw = 0
  · simp [normalize_of_no_extent h]
  · obtain ⟨hlow, hhigh⟩ := value_deflection_mem (axis.distance raw) (axis.extent raw)
    rw [normalize_below h hbelow, value_neg]
    exact ⟨neg_ne_nan (ne_nan_of_isFinite (isFinite_ahead h)), by linarith, by linarith⟩

/-- On the upper half the deflection is not negative. -/
theorem normalize_mem_above (habove : ¬raw.toNat < axis.center.toNat) :
    axis.normalize raw ≠ nan ∧ 0 ≤ (axis.normalize raw).value ∧ (axis.normalize raw).value ≤ 1 := by
  by_cases h : axis.extent raw = 0
  · simp [normalize_of_no_extent h]
  · rw [normalize_above h habove]
    exact ⟨ne_nan_of_isFinite (isFinite_ahead h), value_deflection_mem _ _⟩

theorem abs_value_normalize_le (axis : JoystickCalibration) (raw : UInt8) :
    axis.normalize raw ≠ nan ∧ |(axis.normalize raw).value| ≤ 1 := by
  by_cases hbelow : raw.toNat < axis.center.toNat
  · obtain ⟨hne, hlow, hhigh⟩ := normalize_mem_below hbelow
    exact ⟨hne, abs_le.mpr ⟨hlow, by linarith⟩⟩
  · obtain ⟨hne, hlow, hhigh⟩ := normalize_mem_above hbelow
    exact ⟨hne, abs_le.mpr ⟨by linarith, hhigh⟩⟩

theorem isFinite_normalize (axis : JoystickCalibration) (raw : UInt8) :
    (axis.normalize raw).isFinite := by
  obtain ⟨hne, hle⟩ := axis.abs_value_normalize_le raw
  exact isFinite_of_abs_le_one hne hle

/-- The joystick stays between minus one and one. -/
theorem normalize_mem (axis : JoystickCalibration) (raw : UInt8) :
    -1 ≤ axis.normalize raw ∧ axis.normalize raw ≤ 1 := by
  obtain ⟨hne, hle⟩ := axis.abs_value_normalize_le raw
  rw [le_iff (neg_ne_nan one_ne_nan) hne, le_iff hne one_ne_nan, value_neg, value_one]
  exact abs_le.mp hle

/-- The deflection does not go back while the joystick moves on. -/
theorem normalize_mono (h : raw ≤ raw') : axis.normalize raw ≤ axis.normalize raw' := by
  rw [UInt8.le_iff_toNat_le] at h
  by_cases hbelow' : raw'.toNat < axis.center.toNat
  · have hbelow : raw.toNat < axis.center.toNat := by omega
    have hextent : axis.extent raw = axis.extent raw' := by
      rw [extent, extent, if_pos hbelow, if_pos hbelow']
    by_cases hzero : axis.extent raw' = 0
    · rw [normalize_of_no_extent hzero, normalize_of_no_extent (hextent.trans hzero)]
      exact le_self zero_ne_nan
    · rw [normalize_below hzero hbelow', normalize_below (hextent ▸ hzero) hbelow, hextent]
      refine neg_anti (deflection_mono (axis.distance_le raw') (Nat.pos_of_ne_zero hzero)
        (axis.extent_le raw') (axis.distance_le raw) ?_)
      rw [distance, distance, if_pos hbelow, if_pos hbelow']
      omega
  by_cases hbelow : raw.toNat < axis.center.toNat
  · -- From one half to the other, the deflection passes zero.
    obtain ⟨hne, -, hhigh⟩ := normalize_mem_below hbelow
    obtain ⟨hne', hlow, -⟩ := normalize_mem_above hbelow'
    exact (le_iff hne hne').mpr (hhigh.trans hlow)
  · have hextent : axis.extent raw = axis.extent raw' := by
      rw [extent, extent, if_neg hbelow, if_neg hbelow']
    by_cases hzero : axis.extent raw' = 0
    · rw [normalize_of_no_extent hzero, normalize_of_no_extent (hextent.trans hzero)]
      exact le_self zero_ne_nan
    · rw [normalize_above hzero hbelow', normalize_above (hextent ▸ hzero) hbelow, hextent]
      refine deflection_mono (axis.distance_le raw) (Nat.pos_of_ne_zero hzero)
        (axis.extent_le raw') (axis.distance_le raw') ?_
      rw [distance, distance, if_neg hbelow, if_neg hbelow']
      omega

/-- The deflection is zero at the center and near to it, and where there is no extent. -/
theorem normalize_of_rest
    (h : raw = axis.center ∨ axis.extent raw = 0 ∨ 10 * axis.distance raw ≤ axis.extent raw) :
    (axis.normalize raw).same 0 := by
  have hzero : (axis.normalize raw).value = 0 := by
    by_cases hextent : axis.extent raw = 0
    · simp [normalize_of_no_extent hextent]
    have hnear : 10 * axis.distance raw ≤ axis.extent raw := by
      rcases h with rfl | hnone | hnear
      · rw [distance, if_neg (Nat.lt_irrefl _), Nat.sub_self]
        exact Nat.zero_le _
      · exact absurd hnone hextent
      · exact hnear
    have hvalue := value_deflection_of_near (axis.distance_le raw) (Nat.pos_of_ne_zero hextent)
      (axis.extent_le raw) hnear
    by_cases hbelow : raw.toNat < axis.center.toNat
    · simp [normalize_below hextent hbelow, hvalue]
    · rw [normalize_above hextent hbelow, hvalue]
  rw [same_iff (axis.abs_value_normalize_le raw).1 zero_ne_nan, hzero, value_zero]

/-- The deflection is one at the upper end and beyond it. -/
theorem normalize_of_max_le (hmax : axis.center < axis.max) (h : axis.max ≤ raw) :
    axis.normalize raw = 1 := by
  rw [UInt8.lt_iff_toNat_lt] at hmax
  rw [UInt8.le_iff_toNat_le] at h
  have habove : ¬raw.toNat < axis.center.toNat := by omega
  have hextent : axis.extent raw = axis.max.toNat - axis.center.toNat := if_neg habove
  rw [normalize_above (by omega) habove]
  refine deflection_of_ge (axis.distance_le raw) (by omega) (axis.extent_le raw) ?_
  rw [hextent, distance, if_neg habove]
  omega

/-- The deflection is minus one at the lower end and beyond it. -/
theorem normalize_of_le_min (hmin : axis.min < axis.center) (h : raw ≤ axis.min) :
    axis.normalize raw = -1 := by
  rw [UInt8.lt_iff_toNat_lt] at hmin
  rw [UInt8.le_iff_toNat_le] at h
  have hbelow : raw.toNat < axis.center.toNat := by omega
  have hextent : axis.extent raw = axis.center.toNat - axis.min.toNat := if_pos hbelow
  rw [normalize_below (by omega) hbelow]
  refine congrArg (- ·) (deflection_of_ge (axis.distance_le raw) (by omega) (axis.extent_le raw) ?_)
  rw [hextent, distance, if_pos hbelow]
  omega

end JoystickCalibration

/-! ## Acceleration -/

namespace AccelerationCalibration

/-- The difference between two numbers of ten bits is exact. -/
theorem exact_sub (a b : TenBits) :
    (ofNat a.val - ofNat b.val).isFinite ∧
      (ofNat a.val - ofNat b.val).value = ((a.val - b.val : Int) : ℚ) := by
  have ha := a.isLt
  have hb := b.isLt
  have h := rounds_sub (isFinite_ofNat (n := a.val) (by omega))
    (isFinite_ofNat (n := b.val) (by omega))
  rw [value_ofNat (by omega), value_ofNat (by omega)] at h
  have hexact : Rounds ((a.val - b.val : Int) : ℚ) (ofNat a.val - ofNat b.val) := by
    exact_mod_cast h
  exact hexact.whole (by omega)

/-- Acceleration is finite: its divisor is a whole number other than zero. -/
theorem isFinite_normalize (axis : AccelerationCalibration) (raw : TenBits) :
    (axis.normalize raw).isFinite := by
  obtain ⟨hunit, hvalue⟩ := exact_sub axis.oneG axis.rest
  obtain ⟨hdiff, hdistance⟩ := exact_sub raw axis.rest
  unfold normalize
  dsimp only
  split
  case isTrue => rfl
  case isFalse hne =>
    rw [same_iff (ne_nan_of_isFinite hunit) zero_ne_nan, value_zero, hvalue,
      Int.cast_eq_zero] at hne
    have h := rounds_div hdiff hunit (by rw [hvalue]; exact_mod_cast hne)
    refine h.isFinite (isFinite_ofNat (n := 1023) (by decide)) ?_
    rw [hdistance, hvalue, value_ofNat (by decide), abs_div]
    have hone : (1 : ℚ) ≤ |((axis.oneG.val - axis.rest.val : Int) : ℚ)| := by
      exact_mod_cast Int.one_le_abs hne
    have hmost : |((raw.val - axis.rest.val : Int) : ℚ)| ≤ 1023 := by
      have hraw := raw.isLt
      have hrest := axis.rest.isLt
      have : |(raw.val - axis.rest.val : Int)| ≤ 1023 := abs_le.mpr (by omega)
      exact_mod_cast this
    exact (div_le_self (abs_nonneg _) hone).trans hmost

end AccelerationCalibration

/-! ## Division -/

/-- A quotient, unless the divisor is zero. -/
def Binary32.divide? (a b : Binary32) : Option Binary32 :=
  if b.same 0 then none else some (a / b)

theorem Binary32.divide?_eq {b : Binary32} (hb : b ≠ nan) (hne : b.value ≠ 0) (a : Binary32) :
    divide? a b = some (a / b) := by
  refine if_neg fun hsame => hne ?_
  rwa [same_iff hb zero_ne_nan, value_zero] at hsame

namespace JoystickCalibration

/-- The deflection of half an axis, where no divisor may be zero. -/
def deflection? (distance extent : Nat) : Option Binary32 := do
  let full ← divide? (ofNat distance) (ofNat extent)
  let stretched ← divide? (full - deadZone) (1 - 2 * deadZone)
  return clamp 0 1 stretched

theorem deflection?_eq {extent : Nat} (hpos : 0 < extent) (hextent : extent ≤ 255)
    (distance : Nat) : deflection? distance extent = some (deflection distance extent) := by
  have hvalue : (ofNat extent).value ≠ 0 := by
    rw [value_ofNat (by omega)]
    exact_mod_cast hpos.ne'
  have hlive (a : Binary32) : divide? a (1 - 2 * deadZone) = some (a / (1 - 2 * deadZone)) :=
    divide?_eq (ne_nan_of_isFinite isFinite_liveZone) value_liveZone_pos.ne' a
  rw [deflection?, divide?_eq (ne_nan_of_isFinite (isFinite_ofNat (by omega))) hvalue,
    Option.bind_eq_bind, Option.bind_some, hlive]
  rfl

/-- The deflection of the joystick, where no divisor may be zero. -/
def normalize? (axis : JoystickCalibration) (raw : UInt8) : Option Binary32 :=
  let center := axis.center.toNat
  if raw.toNat < center then
    let extent := center - axis.min.toNat
    if extent = 0 then some 0 else (deflection? (center - raw.toNat) extent).map (-1 * ·)
  else
    let extent := axis.max.toNat - center
    if extent = 0 then some 0 else (deflection? (raw.toNat - center) extent).map (1 * ·)

theorem normalize?_eq (axis : JoystickCalibration) (raw : UInt8) :
    axis.normalize? raw = some (axis.normalize raw) := by
  have hcenter := axis.center.toNat_lt
  have hmax := axis.max.toNat_lt
  unfold normalize? normalize
  dsimp only
  split_ifs with _ _ hextent
  · rfl
  · rw [deflection?_eq (by omega) (by omega), Option.map_some]
  · rfl
  · rw [deflection?_eq (by omega) (by omega), Option.map_some]

end JoystickCalibration

/-- The acceleration relative to one g, where no divisor may be zero. -/
def AccelerationCalibration.normalize? (axis : AccelerationCalibration) (raw : TenBits) :
    Option Binary32 :=
  let unit := ofNat axis.oneG.val - ofNat axis.rest.val
  if unit.same 0 then some 0
  else divide? (ofNat raw.val - ofNat axis.rest.val) unit

theorem AccelerationCalibration.normalize?_eq (axis : AccelerationCalibration) (raw : TenBits) :
    axis.normalize? raw = some (axis.normalize raw) := by
  unfold normalize? normalize
  dsimp only
  split
  case isTrue => rfl
  case isFalse h => exact if_neg h

namespace Calibration

/-- The reading that a report gives, where no divisor may be zero. -/
def reading? (calibration : Calibration) (report : Report) : Option Reading := do
  return {
    joyX := ← calibration.joyX.normalize? report.joyX
    joyY := ← calibration.joyY.normalize? report.joyY
    accelX := ← calibration.accelX.normalize? report.accelX
    accelY := ← calibration.accelY.normalize? report.accelY
    accelZ := ← calibration.accelZ.normalize? report.accelZ
    buttonC := report.buttonC
    buttonZ := report.buttonZ }

theorem reading?_eq (calibration : Calibration) (report : Report) :
    calibration.reading? report = some (calibration.reading report) := by
  rw [reading?]
  simp only [JoystickCalibration.normalize?_eq, AccelerationCalibration.normalize?_eq,
    Option.bind_eq_bind, Option.bind_some]
  rfl

theorem isFinite_reading (calibration : Calibration) (report : Report) :
    (calibration.reading report).joyX.isFinite ∧ (calibration.reading report).joyY.isFinite ∧
      (calibration.reading report).accelX.isFinite ∧
      (calibration.reading report).accelY.isFinite ∧
      (calibration.reading report).accelZ.isFinite := by
  -- The fields are taken out here: otherwise, the quotients themselves would be compared.
  simp only [reading]
  exact ⟨calibration.joyX.isFinite_normalize _, calibration.joyY.isFinite_normalize _,
    calibration.accelX.isFinite_normalize _, calibration.accelY.isFinite_normalize _,
    calibration.accelZ.isFinite_normalize _⟩

end Calibration

/-- Whatever a handset tells, its readings are finite and come without a division by zero, and the
joystick stays between minus one and one. Along each axis the deflection does not go back while the
joystick moves on; it is zero at the center, within a tenth of the extent around it, and on a half
without extent; and it is one or minus one from the ends of the axis on. -/
theorem Handset.readings_sane :
    (∀ (block : Vector UInt8 16) (bytes : Vector UInt8 6),
      let calibration := Calibration.decode block
      let report := Report.decode bytes
      let reading := calibration.reading report
      calibration.reading? report = some reading ∧
      (reading.joyX.isFinite ∧ reading.joyY.isFinite ∧
        reading.accelX.isFinite ∧ reading.accelY.isFinite ∧ reading.accelZ.isFinite) ∧
      (-1 ≤ reading.joyX ∧ reading.joyX ≤ 1) ∧ -1 ≤ reading.joyY ∧ reading.joyY ≤ 1) ∧
    ∀ axis : JoystickCalibration,
      (∀ raw raw', raw ≤ raw' → axis.normalize raw ≤ axis.normalize raw') ∧
      (∀ raw, raw = axis.center ∨ axis.extent raw = 0 ∨
        10 * axis.distance raw ≤ axis.extent raw → (axis.normalize raw).same 0) ∧
      (∀ raw, axis.center < axis.max → axis.max ≤ raw → axis.normalize raw = 1) ∧
      ∀ raw, axis.min < axis.center → raw ≤ axis.min → axis.normalize raw = -1 := by
  refine ⟨fun block bytes => ?_, fun axis => ?_⟩
  · intro calibration report reading
    exact ⟨calibration.reading?_eq report, calibration.isFinite_reading report,
      calibration.joyX.normalize_mem _, calibration.joyY.normalize_mem _⟩
  · exact ⟨fun _ _ => JoystickCalibration.normalize_mono,
      fun _ => JoystickCalibration.normalize_of_rest,
      fun _ => JoystickCalibration.normalize_of_max_le,
      fun _ => JoystickCalibration.normalize_of_le_min⟩

/-- An axis whose upper end lies below its center, under the joystick in several places. -/
theorem Handset.readings_sane_of_reversed_half :
    let axis : JoystickCalibration := { min := 32, center := 128, max := 100 }
    let whole : JoystickCalibration := { min := 32, center := 128, max := 224 }
    ((90 : UInt8) ≤ 200 ∧ axis.normalize 90 ≤ axis.normalize 200) ∧
      (axis.extent 200 = 0 ∧ (axis.normalize 200).same 0) ∧
      (10 * axis.distance 119 ≤ axis.extent 119 ∧ (axis.normalize 119).same 0) ∧
      (axis.min < axis.center ∧ 20 ≤ axis.min ∧ axis.normalize 20 = -1) ∧
      whole.center < whole.max ∧ whole.max ≤ 230 ∧ whole.normalize 230 = 1 := by
  intro axis whole
  have hle : (90 : UInt8) ≤ 200 := by
    decide
  have hnone : axis.extent 200 = 0 := by
    decide
  have hnear : 10 * axis.distance 119 ≤ axis.extent 119 := by
    decide
  have hmin : axis.min < axis.center ∧ 20 ≤ axis.min := by
    decide
  have hmax : whole.center < whole.max ∧ whole.max ≤ 230 := by
    decide
  obtain ⟨hmono, hrest, -, hlow⟩ := Handset.readings_sane.2 axis
  obtain ⟨-, -, hhigh, -⟩ := Handset.readings_sane.2 whole
  exact ⟨⟨hle, hmono _ _ hle⟩, ⟨hnone, hrest _ (.inr (.inl hnone))⟩,
    ⟨hnear, hrest _ (.inr (.inr hnear))⟩, ⟨hmin.1, hmin.2, hlow _ hmin.1 hmin.2⟩,
    hmax.1, hmax.2, hhigh _ hmax.1 hmax.2⟩

end MotionMidi
