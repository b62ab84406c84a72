import Mathlib.Algebra.Order.Field.Rat
import Mathlib.Data.Rat.Cast.Order
import Mathlib.Order.Monotone.Odd
import Mathlib.Tactic.FieldSimp
import Mathlib.Tactic.Linarith
import MotionMidi.Proofs.Binary32.Text

/-!
# Rounding

What an operation gives is the value nearest to its exact result. Rounding keeps the order of what
is rounded, and leaves alone what needs no rounding.

## Main definitions

- `Binary32.value` — the value as a rational number, where infinity counts as `2 ^ 128`
- `Binary32.rounded` — the value of the number nearest to a rational one

Main statements: `Binary32.nearest_mono`, `Binary32.monotone_rounded`, `Binary32.rounded_value`,
`Binary32.rounded_dyadic`.
-/

namespace MotionMidi

/-! ## Quotients -/

section Quotients

variable {num den num' den' : Nat}

theorem div_le_div_of_cross (hden : 0 < den) (hden' : 0 < den') (h : num * den' ≤ num' * den) :
    num / den ≤ num' / den' := by
  rw [Nat.le_div_iff_mul_le hden']
  refine Nat.le_of_mul_le_mul_right ?_ hden
  calc num / den * den' * den
      = num / den * den * den' := by rw [Nat.mul_right_comm]
    _ ≤ num * den' := Nat.mul_le_mul_right _ (Nat.div_mul_le_self num den)
    _ ≤ num' * den := h

theorem div_le_roundDiv (num den : Nat) : num / den ≤ roundDiv num den := by
  unfold roundDiv
  split_ifs <;> omega

theorem roundDiv_le (num den : Nat) : roundDiv num den ≤ num / den + 1 := by
  unfold roundDiv
  split_ifs <;> omega

/-- Larger quotients are not rounded to smaller numbers. -/
theorem roundDiv_mono (hden : 0 < den) (hden' : 0 < den') (h : num * den' ≤ num' * den) :
    roundDiv num den ≤ roundDiv num' den' := by
  have hdiv := div_le_div_of_cross hden hden' h
  rcases Nat.lt_or_eq_of_le hdiv with hlt | heq
  · exact (roundDiv_le num den).trans (hlt.trans_le (div_le_roundDiv num' den'))
  -- With equal whole parts, the remainders are in the same order as the quotients.
  have hrem : num % den * den' ≤ num' % den' * den := by
    have hnum := Nat.div_add_mod num den
    have hnum' := Nat.div_add_mod num' den'
    rw [← hnum, ← hnum', heq] at h
    linarith
  have hpast : den < 2 * (num % den) → den' < 2 * (num' % den') := by
    intro hpast
    by_contra hnot
    have := Nat.mul_lt_mul_of_pos_right hpast hden'
    have := Nat.mul_le_mul_right den (Nat.not_lt.mp hnot)
    linarith
  have hmiddle : den ≤ 2 * (num % den) → den' ≤ 2 * (num' % den') := by
    intro hmiddle
    by_contra hnot
    have := Nat.mul_le_mul_right den' hmiddle
    have := Nat.mul_lt_mul_of_pos_right (Nat.not_le.mp hnot) hden
    linarith
  unfold roundDiv
  rw [heq]
  split_ifs <;> omega

end Quotients

namespace Binary32

/-! ## Magnitudes -/

theorem log2_le_log2 {m n : Nat} (h : m ≤ n) : m.log2 ≤ n.log2 := by
  by_cases hm : m = 0
  · subst hm
    exact Nat.zero_le _
  · exact (Nat.le_log2 (by omega)).mpr ((Nat.log2_self_le hm).trans h)

/-- How far the whole part of a quotient reaches beyond the digits of a magnitude. -/
def shift (num den : Nat) : Nat :=
  (num / den).log2 - 23

/-- The number of steps from zero to a quotient, as if there were no largest magnitude. -/
def stepsTo (num den : Nat) : Nat :=
  shift num den * 2 ^ 23 + roundDiv num (den * 2 ^ shift num den)

theorem nearest_eq (num den : Nat) : nearest num den =
    if h : stepsTo num den < 0x7f800000 + 1 then ⟨stepsTo num den, h⟩ else infinity := rfl

@[simp] theorem val_infinity : infinity.val = 0x7f800000 := rfl

theorem val_nearest (num den : Nat) :
    (nearest num den).val = min (stepsTo num den) 0x7f800000 := by
  rw [nearest_eq]
  split
  case isTrue h =>
    have hle : stepsTo num den ≤ 0x7f800000 := by omega
    exact (min_eq_left hle).symm
  case isFalse h =>
    have hle : 0x7f800000 ≤ stepsTo num den := by omega
    exact (min_eq_right hle).symm

variable {num den num' den' : Nat}

/-- What is left of a quotient once it is shifted has at most one digit more than it should. -/
theorem roundDiv_shift_le (num den : Nat) :
    roundDiv num (den * 2 ^ shift num den) ≤ 2 ^ 24 := by
  have hlt : num / den < 2 ^ (24 + shift num den) := by
    refine Nat.lt_of_lt_of_le Nat.lt_log2_self (Nat.pow_le_pow_right Nat.two_pos ?_)
    unfold shift
    omega
  have hdiv : num / (den * 2 ^ shift num den) < 2 ^ 24 := by
    rw [← Nat.div_div_eq_div_mul, Nat.div_lt_iff_lt_mul (Nat.two_pow_pos _), ← Nat.pow_add]
    exact hlt
  exact (roundDiv_le _ _).trans hdiv

/-- A quotient that needs to be shifted has all digits of a magnitude. -/
theorem le_roundDiv_shift (h : 0 < shift num den) :
    2 ^ 23 ≤ roundDiv num (den * 2 ^ shift num den) := by
  have hne : num / den ≠ 0 := by
    intro hzero
    rw [shift, hzero] at h
    exact absurd h (by decide)
  have hle : 2 ^ (23 + shift num den) ≤ num / den := by
    refine (Nat.pow_le_pow_right Nat.two_pos ?_).trans (Nat.log2_self_le hne)
    unfold shift at h ⊢
    omega
  refine Nat.le_trans ?_ (div_le_roundDiv _ _)
  rw [← Nat.div_div_eq_div_mul, Nat.le_div_iff_mul_le (Nat.two_pow_pos _), ← Nat.pow_add]
  exact hle

theorem stepsTo_mono (hden : 0 < den) (hden' : 0 < den') (h : num * den' ≤ num' * den) :
    stepsTo num den ≤ stepsTo num' den' := by
  have hshift : shift num den ≤ shift num' den' :=
    Nat.sub_le_sub_right (log2_le_log2 (div_le_div_of_cross hden hden' h)) 23
  rcases Nat.lt_or_eq_of_le hshift with hlt | heq
  · -- The larger quotient is at least one block of magnitudes further.
    have hfew := roundDiv_shift_le num den
    have hmany : 2 ^ 23 ≤ roundDiv num' (den' * 2 ^ shift num' den') :=
      le_roundDiv_shift (Nat.zero_lt_of_lt hlt)
    unfold stepsTo
    omega
  · unfold stepsTo
    rw [heq]
    refine Nat.add_le_add_left (roundDiv_mono (Nat.mul_pos hden (Nat.two_pow_pos _))
      (Nat.mul_pos hden' (Nat.two_pow_pos _)) ?_) _
    rw [← Nat.mul_assoc, ← Nat.mul_assoc]
    exact Nat.mul_le_mul_right _ h

/-- The magnitudes nearest to two quotients are in the order of the quotients. -/
theorem nearest_mono (hden : 0 < den) (hden' : 0 < den') (h : num * den' ≤ num' * den) :
    nearest num den ≤ nearest num' den' := by
  rw [Fin.le_def, val_nearest, val_nearest]
  exact min_le_min_right _ (stepsTo_mono hden hden' h)

theorem nearest_congr (hden : 0 < den) (hden' : 0 < den') (h : num * den' = num' * den) :
    nearest num den = nearest num' den' :=
  le_antisymm (nearest_mono hden hden' h.le) (nearest_mono hden' hden h.ge)

@[simp] theorem nearest_units_one (magnitude : Magnitude) :
    nearest (units magnitude) 1 = magnitude := by
  simpa using nearest_units magnitude Nat.one_pos

theorem le_of_units_le {a b : Magnitude} (h : units a ≤ units b) : a ≤ b := by
  rw [← nearest_units_one a, ← nearest_units_one b]
  exact nearest_mono Nat.one_pos Nat.one_pos (by omega)

theorem units_le_iff {a b : Magnitude} : units a ≤ units b ↔ a ≤ b := by
  refine ⟨le_of_units_le, fun h => ?_⟩
  by_contra hlt
  have hba := le_of_units_le (Nat.le_of_lt (Nat.not_le.mp hlt))
  exact hlt (le_antisymm h hba ▸ Nat.le_refl _)

@[simp] theorem units_zero : units zero = 0 := rfl

theorem units_eq_zero_iff {a : Magnitude} : units a = 0 ↔ a = zero := by
  constructor
  · intro h
    exact Fin.le_zero_iff.mp (le_of_units_le (h.le.trans (Nat.zero_le _)))
  · rintro rfl
    exact units_zero

theorem le_infinity (magnitude : Magnitude) : magnitude ≤ infinity :=
  Fin.le_last magnitude

theorem unitsPerOne_pos : 0 < unitsPerOne :=
  Nat.two_pow_pos 149

/-! ## Values -/

/-- The value as a rational number. Infinity counts as the number at which rounding overflows, and
the undefined value as zero. -/
def value : Binary32 → ℚ
  | .nan => 0
  | .number negative magnitude => signedUnits negative magnitude / unitsPerOne

/-- The value of the number nearest to a rational one. -/
def rounded (q : ℚ) : ℚ :=
  (ofRatio (q < 0) (q.num.natAbs * unitsPerOne) q.den).value

theorem signedUnits_neg (negative : Bool) (magnitude : Magnitude) :
    signedUnits (!negative) magnitude = -signedUnits negative magnitude := by
  cases negative
  · rfl
  · exact (Int.neg_neg _).symm

theorem value_number_neg (negative : Bool) (magnitude : Magnitude) :
    (number (!negative) magnitude).value = -(number negative magnitude).value := by
  rw [value, value, signedUnits_neg, Int.cast_neg, neg_div]

@[simp] theorem value_neg (x : Binary32) : (-x).value = -x.value := by
  cases x with
  | nan => exact neg_zero.symm
  | number negative magnitude => exact value_number_neg negative magnitude

theorem value_false (magnitude : Magnitude) :
    (number false magnitude).value = units magnitude / unitsPerOne := by
  rw [value, signedUnits, if_neg Bool.false_ne_true, Int.cast_natCast]

/-- Rounding does not depend on how a quotient is written. -/
theorem value_ofRatio_false (num : Nat) (hden : 0 < den) :
    (ofRatio false num den).value = rounded (num / (den * unitsPerOne)) := by
  set q : ℚ := num / (den * unitsPerOne) with hq
  have hone : (unitsPerOne : ℚ) ≠ 0 := by exact_mod_cast unitsPerOne_pos.ne'
  have hden' : (den : ℚ) ≠ 0 := by exact_mod_cast hden.ne'
  have hnonneg : 0 ≤ q := by positivity
  have hnum : (q.num.natAbs : ℚ) = q * q.den := by
    rw [Rat.mul_den_eq_num, ← Int.cast_natCast, Int.natAbs_of_nonneg (Rat.num_nonneg.mpr hnonneg)]
  have hcross : num * q.den = q.num.natAbs * unitsPerOne * den := by
    have : (num * q.den : ℚ) = q.num.natAbs * unitsPerOne * den := by
      rw [hnum, hq]
      field_simp
    exact_mod_cast this
  rw [rounded, decide_eq_false (not_lt.mpr hnonneg), ofRatio, ofRatio,
    nearest_congr hden q.pos hcross]

theorem rounded_of_nonneg {q : ℚ} (h : 0 ≤ q) :
    rounded q = (ofRatio false (q.num.natAbs * unitsPerOne) q.den).value := by
  rw [rounded, decide_eq_false (not_lt.mpr h)]

@[simp] theorem rounded_neg (q : ℚ) : rounded (-q) = -rounded q := by
  rcases lt_trichotomy q 0 with h | rfl | h
  · rw [rounded, rounded, decide_eq_true h, decide_eq_false (by linarith), ofRatio, ofRatio,
      ← value_number_neg, Rat.num_neg_eq_neg_num, Rat.den_neg_eq_den, Int.natAbs_neg]
    rfl
  · rw [neg_zero]
    have hzero : rounded 0 = 0 := by
      rw [rounded_of_nonneg le_rfl]
      have : nearest (Int.natAbs 0 * unitsPerOne) 1 = zero := by
        rw [Int.natAbs_zero, Nat.zero_mul]
        exact nearest_units_one zero
      change (number false (nearest (Int.natAbs 0 * unitsPerOne) 1)).value = 0
      rw [this, value_false, units_zero, Nat.cast_zero, zero_div]
    rw [hzero, neg_zero]
  · rw [rounded, rounded, decide_eq_true (by linarith), decide_eq_false (by linarith), ofRatio,
      ofRatio, ← value_number_neg, Rat.num_neg_eq_neg_num, Rat.den_neg_eq_den, Int.natAbs_neg]
    rfl

theorem unitsPerOne_rat_pos : (0 : ℚ) < unitsPerOne := by
  exact_mod_cast unitsPerOne_pos

theorem value_false_le_iff {a b : Magnitude} :
    (number false a).value ≤ (number false b).value ↔ a ≤ b := by
  rw [value_false, value_false, div_le_div_iff_of_pos_right unitsPerOne_rat_pos, Nat.cast_le,
    units_le_iff]

/-- Rounding keeps the order. -/
theorem monotone_rounded : Monotone rounded := by
  refine monotone_of_odd_of_monotoneOn_nonneg rounded_neg fun q hq r hr hle => ?_
  rw [rounded_of_nonneg hq, rounded_of_nonneg hr, ofRatio, ofRatio, value_false_le_iff]
  refine nearest_mono q.pos r.pos ?_
  have hcross : (q.num.natAbs : Int) * r.den ≤ r.num.natAbs * q.den := by
    rw [Int.natAbs_of_nonneg (Rat.num_nonneg.mpr hq), Int.natAbs_of_nonneg (Rat.num_nonneg.mpr hr)]
    exact (Rat.le_iff q r).mp hle
  have hcross' : q.num.natAbs * r.den ≤ r.num.natAbs * q.den := by
    exact_mod_cast hcross
  have := Nat.mul_le_mul_right unitsPerOne hcross'
  linarith

theorem value_true (magnitude : Magnitude) :
    (number true magnitude).value = -(number false magnitude).value :=
  value_number_neg false magnitude

/-- The value of a number is not rounded. -/
@[simp] theorem rounded_value (x : Binary32) : rounded x.value = x.value := by
  have hpos (magnitude : Magnitude) :
      rounded (number false magnitude).value = (number false magnitude).value := by
    have hround := value_ofRatio_false (units magnitude) Nat.one_pos
    rw [Nat.cast_one, one_mul, ofRatio, nearest_units_one, ← value_false] at hround
    exact hround.symm
  rcases x with - | ⟨_ | _, magnitude⟩
  · have hzero := hpos zero
    rwa [value_false, units_zero, Nat.cast_zero, zero_div] at hzero
  · exact hpos magnitude
  · rw [value_true, rounded_neg, hpos]

@[simp] theorem rounded_zero : rounded 0 = 0 :=
  rounded_value .nan

/-! ## Representable values -/

theorem exists_units_of_lt (steps : Nat) {n : Nat} (hlt : steps < 0x7f800000)
    (hunits : units steps = n) :
    ∃ magnitude : Magnitude, magnitude ≠ infinity ∧ units magnitude = n := by
  refine ⟨⟨steps, Nat.lt_succ_of_lt hlt⟩, fun h => ?_, hunits⟩
  have := congrArg Fin.val h
  rw [val_infinity] at this
  exact Nat.ne_of_lt hlt this

/-- Whole numbers of at most 24 binary digits, times a power of two, are the units of a
magnitude. -/
theorem exists_units_eq {n : Nat} (hn : n < 2 ^ 24) {k : Nat} (hk : k ≤ 149) :
    ∃ magnitude : Magnitude, magnitude ≠ infinity ∧ units magnitude = n * 2 ^ k := by
  by_cases hsmall : n * 2 ^ k < 2 ^ 23
  case pos => exact exists_units_of_lt (n * 2 ^ k) (by omega) (if_pos hsmall)
  have hne : n ≠ 0 := by
    rintro rfl
    simp at hsmall
  have hlog : n.log2 < 24 := (Nat.log2_lt hne).mpr hn
  -- The number is first filled up to 24 digits, and the rest of the power is that of its block.
  obtain ⟨block, hblock⟩ : ∃ block, k = 23 - n.log2 + block := by
    refine Nat.exists_eq_add_of_le ?_
    by_contra hlt
    refine hsmall (Nat.lt_of_lt_of_le
      (Nat.mul_lt_mul_of_pos_right Nat.lt_log2_self (Nat.two_pow_pos k)) ?_)
    rw [← Nat.pow_add]
    exact Nat.pow_le_pow_right Nat.two_pos (by omega)
  have hlow : 2 ^ 23 ≤ n * 2 ^ (23 - n.log2) := by
    calc 2 ^ 23 = 2 ^ n.log2 * 2 ^ (23 - n.log2) := by
          rw [← Nat.pow_add, Nat.add_sub_cancel' (Nat.le_of_lt_succ hlog)]
      _ ≤ n * 2 ^ (23 - n.log2) := Nat.mul_le_mul_right _ (Nat.log2_self_le hne)
  have hhigh : n * 2 ^ (23 - n.log2) < 2 ^ 24 := by
    calc n * 2 ^ (23 - n.log2) < 2 ^ (n.log2 + 1) * 2 ^ (23 - n.log2) :=
          Nat.mul_lt_mul_of_pos_right Nat.lt_log2_self (Nat.two_pow_pos _)
      _ = 2 ^ 24 := by
          rw [← Nat.pow_add]
          congr 1
          omega
  refine exists_units_of_lt (block * 2 ^ 23 + n * 2 ^ (23 - n.log2)) (by omega) ?_
  have hquot : (block * 2 ^ 23 + n * 2 ^ (23 - n.log2)) / 2 ^ 23 = block + 1 := by
    omega
  have hrem : (block * 2 ^ 23 + n * 2 ^ (23 - n.log2)) % 2 ^ 23 =
      n * 2 ^ (23 - n.log2) - 2 ^ 23 := by
    omega
  rw [units, if_neg (by omega), hquot, hrem, Nat.add_sub_cancel' hlow, Nat.add_sub_cancel,
    Nat.mul_assoc, ← Nat.pow_add, ← hblock]

/-- Fractions with a power of two below and at most 24 binary digits above are values. -/
theorem exists_value_eq {n : Int} (hn : n.natAbs < 2 ^ 24) {k : Nat} (hk : k ≤ 149) :
    ∃ x : Binary32, x.isFinite ∧ x.value = n / 2 ^ k := by
  obtain ⟨magnitude, hne, hunits⟩ := exists_units_eq hn (Nat.sub_le 149 k)
  have hvalue : (number false magnitude).value = n.natAbs / 2 ^ k := by
    have hone : (unitsPerOne : ℚ) = 2 ^ (149 - k) * 2 ^ k := by
      rw [← pow_add, Nat.sub_add_cancel hk, unitsPerOne]
      norm_cast
    rw [value_false, hunits, hone]
    push_cast
    field_simp
  have hfinite (negative : Bool) : (number negative magnitude).isFinite := bne_iff_ne.mpr hne
  rcases Int.natAbs_eq n with hpos | hneg
  · refine ⟨number false magnitude, hfinite false, ?_⟩
    rw [hvalue, hpos]
    rfl
  · refine ⟨number true magnitude, hfinite true, ?_⟩
    rw [value_true, hvalue, hneg]
    simp [neg_div]

theorem rounded_dyadic {n : Int} (hn : n.natAbs < 2 ^ 24) {k : Nat} (hk : k ≤ 149) :
    rounded (n / 2 ^ k) = n / 2 ^ k := by
  obtain ⟨x, -, hx⟩ := exists_value_eq hn hk
  rw [← hx, rounded_value]

end Binary32

end MotionMidi
