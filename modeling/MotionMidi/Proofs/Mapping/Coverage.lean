import MotionMidi.Mapping.Basic
import MotionMidi.Proofs.Mapping.Remap

/-!
# Default domains are covered

Every channel reads all values of its default domain, and from there a mapping reaches every
integer of its output range, as long as there are few enough of them that the fractions of the
domain are exact.

## Main definitions

- `Input.readingAt` — a reading in which the channel has a given value

Main statements: `Input.exists_reading`, `Remap.exists_place`, `Input.exists_remap`.
-/

namespace MotionMidi

open Binary32

/-! ## The values of a channel -/

namespace Binary32

@[simp] theorem neg_neg (x : Binary32) : - -x = x := by
  cases x with
  | nan => rfl
  | number negative magnitude => exact congrArg (number · magnitude) (Bool.not_not negative)

theorem max_zero {x : Binary32} (h : 0 ≤ x) : x.max 0 = x := by
  obtain ⟨-, hx⟩ := ne_nan_of_le h
  have hnot : ¬x < 0 := by
    rw [lt_iff hx zero_ne_nan, not_lt]
    exact (le_iff zero_ne_nan hx).mp h
  cases x with
  | nan => exact absurd rfl hx
  | number => exact if_neg hnot

end Binary32

namespace Input

/-- A reading in which the channel has a given value. -/
def readingAt (input : Input) (x : Binary32) : Reading :=
  let deflection := match input with
    | .joystick _ (some .negative) => -x
    | _ => x
  { joyX := deflection, joyY := deflection, accelX := x, accelY := x, accelZ := x }

/-- Half an axis has no values below its default domain, and other channels have all values. -/
theorem raw_readingAt (input : Input) {x : Binary32} (h : input.defaultDomain.1 ≤ x) :
    input.raw (input.readingAt x) = x := by
  rcases input with ⟨_ | _, _ | _ | _⟩ | ⟨_ | _ | _⟩
  case joystick.x.some.negative | joystick.y.some.negative =>
    change Binary32.max (- -x) 0 = x
    simp [max_zero h]
  case joystick.x.some.positive | joystick.y.some.positive => exact max_zero h
  all_goals rfl

theorem defaultDomain_cases (input : Input) :
    input.defaultDomain = (0, 1) ∨ input.defaultDomain = (-1, 1) := by
  rcases input with ⟨_, _ | _⟩ | _
  case joystick.some => exact .inl rfl
  all_goals exact .inr rfl

/-- Default domains end at one, and their extent is a whole number. -/
theorem value_defaultDomain (input : Input) :
    ∃ width : Int, (width = 1 ∨ width = 2) ∧
      input.defaultDomain.1.isFinite ∧ input.defaultDomain.1.value = 1 - width ∧
      input.defaultDomain.2.isFinite ∧ input.defaultDomain.2.value = 1 := by
  rcases input.defaultDomain_cases with h | h <;> rw [h]
  · exact ⟨1, .inl rfl, rfl, by simp, rfl, value_one⟩
  · exact ⟨2, .inr rfl, rfl, by norm_num, rfl, value_one⟩

theorem wide_defaultDomain (input : Input) :
    0.001 ≤ input.defaultDomain.2 - input.defaultDomain.1 := by
  rcases input.defaultDomain_cases with h | h <;> rw [h] <;> decide +kernel

theorem isFinite_extent (input : Input) :
    (input.defaultDomain.2 - input.defaultDomain.1).isFinite := by
  rcases input.defaultDomain_cases with h | h <;> rw [h] <;> decide +kernel

/-- The channel reads all fractions of its default domain that are told by ten binary digits. -/
theorem exists_reading (input : Input) {j : Nat} (hj : j ≤ 2 ^ 10) :
    ∃ reading, input.defaultDomain.1 ≤ input.raw reading ∧
      input.raw reading ≤ input.defaultDomain.2 ∧
      (Remap.quotient (input.raw reading) input.defaultDomain.1 input.defaultDomain.2).value =
        j / 2 ^ 10 := by
  obtain ⟨width, hwidth, hlo, hlovalue, hhi, hhivalue⟩ := input.value_defaultDomain
  have hwidthpos : (0 : ℚ) < width := by
    rcases hwidth with rfl | rfl <;> norm_num
  have hdigits : ((1 - width) * 2 ^ 10 + width * j).natAbs < 2 ^ 24 := by
    rcases hwidth with rfl | rfl <;> omega
  obtain ⟨x, hx, hvalue⟩ := exists_value_eq hdigits (k := 10) (by decide)
  have hplace : x.value = 1 - width + width * (j / 2 ^ 10) := by
    rw [hvalue]
    push_cast
    ring
  have hunit : (j : ℚ) / 2 ^ 10 ≤ 1 := by
    rw [div_le_one (by norm_num)]
    exact_mod_cast hj
  have hfirst : input.defaultDomain.1 ≤ x := by
    rw [le_iff (ne_nan_of_isFinite hlo) (ne_nan_of_isFinite hx), hlovalue, hplace]
    exact le_add_of_nonneg_right (by positivity)
  have hlast : x ≤ input.defaultDomain.2 := by
    rw [le_iff (ne_nan_of_isFinite hx) (ne_nan_of_isFinite hhi), hhivalue, hplace]
    nlinarith
  refine ⟨input.readingAt x, ?_⟩
  rw [input.raw_readingAt hfirst]
  refine ⟨hfirst, hlast, ?_⟩
  -- No step of the quotient rounds.
  have hdistance : Rounds ((width * j : Int) / 2 ^ 10) (x - input.defaultDomain.1) := by
    have h := rounds_sub hx hlo
    rwa [hplace, hlovalue, add_sub_cancel_left, ← mul_div_assoc, ← Int.cast_natCast,
      ← Int.cast_mul] at h
  obtain ⟨hdistance, hdistancevalue⟩ :=
    hdistance.dyadic (by rcases hwidth with rfl | rfl <;> omega) (by decide)
  have hextent : Rounds width (input.defaultDomain.2 - input.defaultDomain.1) := by
    have h := rounds_sub hhi hlo
    rwa [hhivalue, hlovalue, sub_sub_cancel] at h
  obtain ⟨hextent, hextentvalue⟩ := hextent.whole (by rcases hwidth with rfl | rfl <;> decide)
  have hquotient : Rounds ((j : Int) / 2 ^ 10)
      (Remap.quotient x input.defaultDomain.1 input.defaultDomain.2) := by
    have h := rounds_div hdistance hextent (hextentvalue.trans_ne hwidthpos.ne')
    rwa [hdistancevalue, hextentvalue, Int.cast_mul, mul_div_assoc,
      mul_div_cancel_left₀ _ hwidthpos.ne'] at h
  exact (hquotient.dyadic (by omega) (by decide)).2

end Input

/-! ## The integers of a range -/

namespace Remap

variable {toLo toHi n : Nat}

/-- Of a range that is not too large, each integer owns some fraction of the domain. -/
theorem exists_place (hlow : toLo ≤ n) (hhigh : n ≤ toHi) (hsize : toHi < toLo + 2 ^ 10)
    (hHi : toHi < 65536) :
    ∃ j : Nat, j ≤ 2 ^ 10 ∧ ∀ raw fromLo fromHi, ¬Narrow fromLo fromHi →
      (quotient raw fromLo fromHi).value = j / 2 ^ 10 → remap raw fromLo fromHi toLo toHi = n := by
  obtain ⟨size, hsize'⟩ : ∃ size, size = toHi + 1 - toLo := ⟨_, rfl⟩
  -- The first fraction that is not below the place where the integer begins.
  obtain ⟨j, hj'⟩ : ∃ j, j = ((n - toLo) * 2 ^ 10 + (size - 1)) / size := ⟨_, rfl⟩
  have hdivision := Nat.div_add_mod ((n - toLo) * 2 ^ 10 + (size - 1)) size
  have hremainder := Nat.mod_lt ((n - toLo) * 2 ^ 10 + (size - 1)) (y := size) (by omega)
  rw [← hj'] at hdivision
  have hfloor : size * j / 2 ^ 10 = n - toLo := by
    omega
  have hj : j ≤ 2 ^ 10 := by
    rw [hj']
    exact Nat.div_le_of_le_mul (by omega)
  refine ⟨j, hj, fun raw fromLo fromHi hwide hquotient => ?_⟩
  have hunit : (j : ℚ) / 2 ^ 10 ≤ 1 := by
    rw [div_le_one (by norm_num)]
    exact_mod_cast hj
  have hshare : (share raw fromLo fromHi).value = j / 2 ^ 10 := by
    rw [value_share, hquotient, min_eq_right hunit, max_eq_right (by positivity)]
  have hspan : (toHi - toLo + 1 : ℚ) = size := by
    rw [hsize', Nat.cast_sub (by omega)]
    push_cast
    ring
  have hexact : rounded (j / 2 ^ 10 * size) = (size * j : Nat) / (2 ^ 10 : Nat) := by
    have hproduct : (j / 2 ^ 10 * size : ℚ) = ((size * j : Nat) : Int) / 2 ^ 10 := by
      push_cast
      ring
    rw [hproduct, rounded_dyadic (by omega) (by decide), Int.cast_natCast, Nat.cast_pow,
      Nat.cast_ofNat]
  rw [remap_of_wide hwide, offset_eq (by omega) hHi, hshare, hspan, hexact,
    Rat.natFloor_natCast_div_natCast, hfloor]
  omega

section Beyond

variable {raw fromLo fromHi : Binary32} (hLo : toLo < 65536) (hHi : toHi < 65536)
  (hordered : toLo ≤ toHi) (hlo : fromLo.isFinite) (hfinite : (fromHi - fromLo).isFinite)
  (hdomain : 0.001 ≤ fromHi - fromLo)

include hLo hHi hordered hlo hfinite hdomain

/-- What lies below the domain falls on the lower end of the range. -/
theorem remap_of_le (h : raw ≤ fromLo) : remap raw fromLo fromHi toLo toHi = toLo := by
  have hmono := remap_mono hLo hHi hordered hlo hdomain h
  rw [(remap_ends hLo hHi hordered hlo hfinite (.inl hdomain)).1] at hmono
  exact le_antisymm hmono (le_remap ..)

/-- What lies above the domain falls on the upper end of the range. -/
theorem remap_of_ge (h : fromHi ≤ raw) : remap raw fromLo fromHi toLo toHi = toHi := by
  have hmono := remap_mono hLo hHi hordered hlo hdomain h
  rw [(remap_ends hLo hHi hordered hlo hfinite (.inl hdomain)).2] at hmono
  have hhigh := remap_le raw fromLo fromHi toLo toHi
  omega

end Beyond

end Remap

/-- Over its default domain, a channel reaches each integer of a range that is not too large. -/
theorem Input.exists_remap (input : Input) {toLo toHi n : Nat} (hlow : toLo ≤ n) (hhigh : n ≤ toHi)
    (hsize : toHi < toLo + 2 ^ 10) (hHi : toHi < 65536) :
    ∃ reading, input.defaultDomain.1 ≤ input.raw reading ∧
      input.raw reading ≤ input.defaultDomain.2 ∧
      remap (input.raw reading) input.defaultDomain.1 input.defaultDomain.2 toLo toHi = n := by
  obtain ⟨j, hj, hplace⟩ := Remap.exists_place hlow hhigh hsize hHi
  obtain ⟨reading, hfirst, hlast, hquotient⟩ := input.exists_reading hj
  have hwide := (Remap.wide_of_le input.wide_defaultDomain).1
  exact ⟨reading, hfirst, hlast, hplace _ _ _ hwide hquotient⟩

end MotionMidi
