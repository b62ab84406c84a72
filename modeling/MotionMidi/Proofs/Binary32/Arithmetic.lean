import Mathlib.Algebra.Order.Floor.Semiring
import Mathlib.Data.Nat.Cast.Order.Field
import Mathlib.Data.Rat.Floor
import MotionMidi.Proofs.Binary32.Rounding

/-!
# Arithmetic

Comparisons compare values, and each operation on finite numbers rounds the value of its exact
result.

## Main definitions

- `Binary32.le` — the order of the number line
- `Binary32.Rounds` — a number is defined, and its value is that of a rational number, rounded

Main statements: `Binary32.le_iff`, `Binary32.rounds_sub`, `Binary32.rounds_mul`,
`Binary32.rounds_div`, `Binary32.truncate_eq`.
-/

namespace MotionMidi.Binary32

variable {x y z : Binary32} {q r : ℚ}

/-! ## Order -/

/-- The order of the number line. An undefined operand makes every comparison false. -/
def le (a b : Binary32) : Bool :=
  match a.rank?, b.rank? with
  | some x, some y => x ≤ y
  | _, _ => false

instance : LE Binary32 where
  le a b := a.le b = true

instance (a b : Binary32) : Decidable (a ≤ b) :=
  inferInstanceAs (Decidable (a.le b = true))

/-- The number of magnitudes from zero, negative below it. -/
def rank (negative : Bool) (magnitude : Magnitude) : Int :=
  if negative then -(magnitude.val : Int) else magnitude.val

theorem rank?_number (negative : Bool) (magnitude : Magnitude) :
    (number negative magnitude).rank? = some (rank negative magnitude) := by
  cases negative <;> rfl

theorem value_false_nonneg (magnitude : Magnitude) : 0 ≤ (number false magnitude).value := by
  rw [value_false]
  positivity

theorem value_eq_zero_iff {negative : Bool} {magnitude : Magnitude} :
    (number negative magnitude).value = 0 ↔ magnitude = zero := by
  have hfalse : (number false magnitude).value = 0 ↔ magnitude = zero := by
    rw [value_false, div_eq_zero_iff, or_iff_left unitsPerOne_rat_pos.ne', Nat.cast_eq_zero,
      units_eq_zero_iff]
  cases negative
  · exact hfalse
  · rw [value_true, neg_eq_zero, hfalse]

/-- Ranks are in the order of the values. -/
theorem rank_le_iff {s t : Bool} {a b : Magnitude} :
    rank s a ≤ rank t b ↔ (number s a).value ≤ (number t b).value := by
  have ha := value_false_nonneg a
  have hb := value_false_nonneg b
  rcases s with _ | _ <;> rcases t with _ | _
  · rw [value_false_le_iff, Fin.le_def, rank, rank, if_neg Bool.false_ne_true,
      if_neg Bool.false_ne_true, Int.ofNat_le]
  · -- A positive number is only below a negative one if both are zero.
    have hrank : rank false a ≤ rank true b ↔ a.val = 0 ∧ b.val = 0 := by
      rw [rank, rank, if_neg Bool.false_ne_true, if_pos rfl]
      omega
    have hvalue : (number false a).value ≤ (number true b).value ↔
        (number false a).value = 0 ∧ (number false b).value = 0 := by
      rw [value_true]
      constructor
      · intro h
        constructor <;> linarith
      · rintro ⟨ha, hb⟩
        rw [ha, hb, neg_zero]
    rw [hrank, hvalue, value_eq_zero_iff, value_eq_zero_iff, Fin.ext_iff, Fin.ext_iff]
    rfl
  · refine iff_of_true ?_ ?_
    · rw [rank, rank, if_pos rfl, if_neg Bool.false_ne_true]
      omega
    · rw [value_true]
      linarith
  · rw [value_true, value_true, neg_le_neg_iff, value_false_le_iff, Fin.le_def, rank, rank,
      if_pos rfl, if_pos rfl, Int.neg_le_neg_iff, Int.ofNat_le]

@[simp] theorem number_ne_nan (negative : Bool) (magnitude : Magnitude) :
    number negative magnitude ≠ nan :=
  nofun

theorem le_iff (hx : x ≠ nan) (hy : y ≠ nan) : x ≤ y ↔ x.value ≤ y.value := by
  rcases x with - | ⟨s, a⟩
  · exact absurd rfl hx
  rcases y with - | ⟨t, b⟩
  · exact absurd rfl hy
  rw [← rank_le_iff]
  change le _ _ = true ↔ _
  rw [le, rank?_number, rank?_number, decide_eq_true_iff]

theorem lt_iff (hx : x ≠ nan) (hy : y ≠ nan) : x < y ↔ x.value < y.value := by
  rcases x with - | ⟨s, a⟩
  · exact absurd rfl hx
  rcases y with - | ⟨t, b⟩
  · exact absurd rfl hy
  rw [← not_le, ← rank_le_iff, not_le]
  change lt _ _ = true ↔ _
  rw [lt, rank?_number, rank?_number, decide_eq_true_iff]

theorem same_iff (hx : x ≠ nan) (hy : y ≠ nan) : x.same y ↔ x.value = y.value := by
  rcases x with - | ⟨s, a⟩
  · exact absurd rfl hx
  rcases y with - | ⟨t, b⟩
  · exact absurd rfl hy
  rw [le_antisymm_iff (a := value _), ← rank_le_iff, ← rank_le_iff, ← le_antisymm_iff, same,
    rank?_number, rank?_number]
  exact beq_iff_eq

theorem not_nan_le (x : Binary32) : ¬nan ≤ x :=
  Bool.false_ne_true

theorem not_le_nan (x : Binary32) : ¬x ≤ nan := by
  rcases x with - | ⟨_ | _, _⟩ <;> exact Bool.false_ne_true

theorem not_lt_nan (x : Binary32) : ¬x < nan := by
  rcases x with - | ⟨_ | _, _⟩ <;> exact Bool.false_ne_true

theorem ne_nan_of_le (h : x ≤ y) : x ≠ nan ∧ y ≠ nan := by
  constructor
  · rintro rfl
    exact not_nan_le y h
  · rintro rfl
    exact not_le_nan x h

theorem le_self (hx : x ≠ nan) : x ≤ x :=
  (le_iff hx hx).mpr le_rfl

theorem neg_ne_nan (hx : x ≠ nan) : -x ≠ nan := by
  cases x with
  | nan => exact absurd rfl hx
  | number negative magnitude => exact number_ne_nan (!negative) magnitude

theorem neg_anti (h : x ≤ y) : -y ≤ -x := by
  obtain ⟨hx, hy⟩ := ne_nan_of_le h
  rw [le_iff (neg_ne_nan hy) (neg_ne_nan hx), value_neg, value_neg]
  exact neg_le_neg_iff.mpr ((le_iff hx hy).mp h)

/-! ## Finite numbers -/

theorem abs_value_number (negative : Bool) (magnitude : Magnitude) :
    |(number negative magnitude).value| = (number false magnitude).value := by
  cases negative
  · exact abs_of_nonneg (value_false_nonneg magnitude)
  · rw [value_true, abs_neg, abs_of_nonneg (value_false_nonneg magnitude)]

/-- Infinity is past all values. -/
theorem abs_value_le (x : Binary32) : |x.value| ≤ (number false infinity).value := by
  rcases x with - | ⟨negative, magnitude⟩
  · rw [value, abs_zero]
    exact value_false_nonneg infinity
  · rw [abs_value_number, value_false_le_iff]
    exact le_infinity magnitude

theorem isFinite_iff (hx : x ≠ nan) : x.isFinite ↔ |x.value| < (number false infinity).value := by
  rcases x with - | ⟨negative, magnitude⟩
  · exact absurd rfl hx
  rw [abs_value_number, ← not_le, value_false_le_iff, isFinite, bne_iff_ne]
  exact not_congr ⟨fun h => h.ge, fun h => le_antisymm (le_infinity magnitude) h⟩

theorem ne_nan_of_isFinite (h : x.isFinite) : x ≠ nan := by
  rintro rfl
  cases h

/-! ## Operations -/

/-- A number is defined, and its value is that of a rational number, rounded. -/
structure Rounds (q : ℚ) (x : Binary32) : Prop where
  ne_nan : x ≠ nan
  value_eq : x.value = rounded q

namespace Rounds

theorem mono (hx : Rounds q x) (hy : Rounds r y) (h : q ≤ r) : x ≤ y := by
  rw [le_iff hx.ne_nan hy.ne_nan, hx.value_eq, hy.value_eq]
  exact monotone_rounded h

theorem value_le (h : Rounds q x) (hle : q ≤ y.value) : x.value ≤ y.value := by
  rw [h.value_eq, ← rounded_value y]
  exact monotone_rounded hle

theorem le_value (h : Rounds q x) (hle : y.value ≤ q) : y.value ≤ x.value := by
  rw [h.value_eq, ← rounded_value y]
  exact monotone_rounded hle

/-- What is no larger than some finite number does not overflow. -/
theorem isFinite (h : Rounds q x) (hy : y.isFinite) (hle : |q| ≤ y.value) : x.isFinite := by
  rw [abs_le] at hle
  have hlow : -y.value ≤ x.value := by
    rw [← value_neg]
    exact h.le_value ((value_neg y).trans_le hle.1)
  have hlt := (isFinite_iff (ne_nan_of_isFinite hy)).mp hy
  rw [isFinite_iff h.ne_nan]
  exact (abs_le.mpr ⟨hlow, h.value_le hle.2⟩).trans_lt ((le_abs_self _).trans_lt hlt)

/-- Fractions with a power of two below and at most 24 binary digits above are exact. -/
theorem dyadic {n : Int} {k : Nat} (h : Rounds (n / 2 ^ k) x) (hn : n.natAbs < 2 ^ 24)
    (hk : k ≤ 149) : x.isFinite ∧ x.value = n / 2 ^ k := by
  obtain ⟨y, hy, hvalue⟩ := exists_value_eq (n := |n|) (by rwa [Int.natAbs_abs]) hk
  refine ⟨h.isFinite hy (le_of_eq ?_), h.value_eq.trans (rounded_dyadic hn hk)⟩
  rw [hvalue, abs_div, Int.cast_abs, abs_of_pos (by positivity : (0 : ℚ) < 2 ^ k)]

/-- Whole numbers of at most 24 binary digits are exact. -/
theorem whole {n : Int} (h : Rounds n x) (hn : n.natAbs < 2 ^ 24) : x.isFinite ∧ x.value = n := by
  rw [← div_one (n : ℚ), ← pow_zero 2] at h ⊢
  exact h.dyadic hn (Nat.zero_le _)

end Rounds

/-- The factor that a sign stands for. -/
def sign (negative : Bool) : ℚ :=
  if negative then -1 else 1

@[simp] theorem sign_false : sign false = 1 := rfl

@[simp] theorem sign_true : sign true = -1 := rfl

theorem sign_bne (s t : Bool) : sign (s != t) = sign s * sign t := by
  cases s <;> cases t <;> norm_num [sign]

theorem sign_inv (negative : Bool) : (sign negative)⁻¹ = sign negative := by
  cases negative <;> norm_num [sign]

theorem sign_mul_natAbs (n : Int) : sign (n < 0) * n.natAbs = n := by
  rw [Nat.cast_natAbs]
  rcases lt_or_ge n 0 with hneg | hnonneg
  · simp [hneg, abs_of_neg hneg]
  · simp [not_lt.mpr hnonneg, abs_of_nonneg hnonneg]

theorem value_number (negative : Bool) (magnitude : Magnitude) :
    (number negative magnitude).value = sign negative * (units magnitude / unitsPerOne) := by
  cases negative <;> simp [value_true, value_false]

theorem rounds_ofRatio (negative : Bool) (num : Nat) {den : Nat} (hden : 0 < den) :
    Rounds (sign negative * (num / (den * unitsPerOne))) (ofRatio negative num den) := by
  refine ⟨number_ne_nan negative _, ?_⟩
  cases negative
  · rw [sign_false, one_mul]
    exact value_ofRatio_false num hden
  · rw [sign_true, neg_one_mul, rounded_neg, ← value_ofRatio_false num hden]
    exact value_true _

theorem rounds_ofNat (n : Nat) : Rounds n (ofNat n) := by
  have h := rounds_ofRatio false (n * unitsPerOne) Nat.one_pos
  rw [sign_false, one_mul, Nat.cast_one, one_mul, Nat.cast_mul,
    mul_div_cancel_right₀ _ unitsPerOne_rat_pos.ne'] at h
  exact h

theorem isFinite_neg (h : x.isFinite) : (-x).isFinite := by
  cases x with
  | nan => exact h
  | number negative magnitude => exact h

/-- The sum of finite numbers. -/
theorem rounds_add (hx : x.isFinite) (hy : y.isFinite) : Rounds (x.value + y.value) (x + y) := by
  rcases x with - | ⟨s, a⟩
  · cases hx
  rcases y with - | ⟨t, b⟩
  · cases hy
  have ha : a ≠ infinity := bne_iff_ne.mp hx
  have hb : b ≠ infinity := bne_iff_ne.mp hy
  have hadd : number s a + number t b =
      if signedUnits s a + signedUnits t b = 0 then number (s && t) 0
      else ofRatio (signedUnits s a + signedUnits t b < 0)
        (signedUnits s a + signedUnits t b).natAbs 1 := by
    change add _ _ = _
    rw [add, if_neg ha, if_neg hb]
  have hsum : (number s a).value + (number t b).value =
      (signedUnits s a + signedUnits t b : Int) / unitsPerOne := by
    rw [value, value, Int.cast_add, add_div]
  rw [hadd, hsum]
  generalize signedUnits s a + signedUnits t b = total
  split
  case isTrue hzero =>
    subst hzero
    refine ⟨number_ne_nan _ _, ?_⟩
    rw [Int.cast_zero, zero_div, rounded_zero, value_eq_zero_iff]
    rfl
  case isFalse =>
    have h := rounds_ofRatio (total < 0) total.natAbs Nat.one_pos
    rwa [← mul_div_assoc, sign_mul_natAbs, Nat.cast_one, one_mul] at h

/-- The difference of finite numbers. -/
theorem rounds_sub (hx : x.isFinite) (hy : y.isFinite) : Rounds (x.value - y.value) (x - y) := by
  rw [sub_eq_add_neg, ← value_neg]
  exact rounds_add hx (isFinite_neg hy)

/-- The product of finite numbers. -/
theorem rounds_mul (hx : x.isFinite) (hy : y.isFinite) : Rounds (x.value * y.value) (x * y) := by
  rcases x with - | ⟨s, a⟩
  · cases hx
  rcases y with - | ⟨t, b⟩
  · cases hy
  have ha : a ≠ infinity := bne_iff_ne.mp hx
  have hb : b ≠ infinity := bne_iff_ne.mp hy
  have hmul : number s a * number t b = ofRatio (s != t) (units a * units b) unitsPerOne := by
    change mul _ _ = _
    rw [mul, if_neg (not_or.mpr ⟨ha, hb⟩)]
  have hvalue : (number s a).value * (number t b).value =
      sign (s != t) * ((units a * units b : Nat) / (unitsPerOne * unitsPerOne)) := by
    rw [value_number, value_number, sign_bne]
    push_cast
    ring
  rw [hmul, hvalue]
  exact rounds_ofRatio (s != t) (units a * units b) unitsPerOne_pos

/-- The quotient of finite numbers, unless the divisor is zero. -/
theorem rounds_div (hx : x.isFinite) (hy : y.isFinite) (hne : y.value ≠ 0) :
    Rounds (x.value / y.value) (x / y) := by
  rcases x with - | ⟨s, a⟩
  · cases hx
  rcases y with - | ⟨t, b⟩
  · cases hy
  have ha : a ≠ infinity := bne_iff_ne.mp hx
  have hb : b ≠ infinity := bne_iff_ne.mp hy
  have hzero : b ≠ zero := mt value_eq_zero_iff.mpr hne
  have hdiv : number s a / number t b = ofRatio (s != t) (units a * unitsPerOne) (units b) := by
    change div _ _ = _
    rw [div, if_neg ha, if_neg hb]
    exact if_neg hzero
  have hpos : 0 < units b := Nat.pos_of_ne_zero (mt units_eq_zero_iff.mp hzero)
  have hvalue : (number s a).value / (number t b).value =
      sign (s != t) * ((units a * unitsPerOne : Nat) / (units b * unitsPerOne)) := by
    have hone := unitsPerOne_rat_pos.ne'
    rw [value_number, value_number, sign_bne, mul_div_mul_comm, div_div_div_cancel_right₀ hone,
      div_eq_mul_inv (sign s), sign_inv, Nat.cast_mul, mul_div_mul_right _ _ hone]
  rw [hdiv, hvalue]
  exact rounds_ofRatio (s != t) (units a * unitsPerOne) hpos

/-- An infinite number is left as it is by finite differences. -/
theorem infinite_sub (s : Bool) (hy : y.isFinite) :
    number s infinity - y = number s infinity := by
  rcases y with - | ⟨t, b⟩
  · cases hy
  have hb : b ≠ infinity := bne_iff_ne.mp hy
  change add (number s infinity) (number (!t) b) = _
  rw [add, if_pos rfl, if_neg (fun h => hb h.1)]

/-- An infinite number is left as it is by finite positive divisors. -/
theorem infinite_div (s : Bool) (hy : y.isFinite) (hpos : 0 < y.value) :
    number s infinity / y = number s infinity := by
  rcases y with - | ⟨_ | _, b⟩
  · cases hy
  · have hb : b ≠ infinity := bne_iff_ne.mp hy
    change div _ _ = _
    rw [div, if_pos rfl, if_neg hb, Bool.bne_false]
  · rw [value_true] at hpos
    have := value_false_nonneg b
    linarith

theorem neg_div_neg (x y : Binary32) : -x / -y = x / y := by
  rcases x with - | ⟨s, a⟩
  · rfl
  rcases y with - | ⟨t, b⟩
  · rfl
  change div (number (!s) a) (number (!t) b) = div (number s a) (number t b)
  rw [div, div, Bool.not_bne_not]

theorem finite_or_infinite (hx : x ≠ nan) : x.isFinite ∨ ∃ s, x = number s infinity := by
  rcases x with - | ⟨s, a⟩
  · exact absurd rfl hx
  by_cases ha : a = infinity
  · exact .inr ⟨s, congrArg _ ha⟩
  · exact .inl (bne_iff_ne.mpr ha)

/-- An operation that rounds, and that leaves infinite operands as they are, keeps the order if its
exact result does. -/
theorem mono_of_rounds (op : Binary32 → Binary32) {f : ℚ → ℚ} (hf : Monotone f)
    (hfinite : ∀ x, x.isFinite → Rounds (f x.value) (op x))
    (hinfinite : ∀ s, op (number s infinity) = number s infinity) (h : x ≤ y) : op x ≤ op y := by
  obtain ⟨hx, hy⟩ := ne_nan_of_le h
  have hvalue := (le_iff hx hy).mp h
  rcases finite_or_infinite hx with hxf | ⟨s, rfl⟩
  · have hlow := (abs_lt.mp ((isFinite_iff hx).mp hxf)).1
    rcases finite_or_infinite hy with hyf | ⟨_ | _, rfl⟩
    · exact (hfinite x hxf).mono (hfinite y hyf) (hf hvalue)
    · rw [hinfinite, le_iff (hfinite x hxf).ne_nan hy]
      exact (abs_le.mp (abs_value_le _)).2
    · rw [value_true] at hvalue
      exact absurd hlow (not_lt.mpr hvalue)
  · rcases finite_or_infinite hy with hyf | ⟨t, rfl⟩
    · have hhigh := (abs_lt.mp ((isFinite_iff hy).mp hyf)).2
      cases s
      · exact absurd hhigh (not_lt.mpr hvalue)
      · rw [hinfinite, le_iff hx (hfinite y hyf).ne_nan, value_true]
        exact (abs_le.mp (abs_value_le _)).1
    · rwa [hinfinite, hinfinite]

/-- Differences from a finite number are in the order of what it is taken from. -/
theorem sub_mono_left (hz : z.isFinite) (h : x ≤ y) : x - z ≤ y - z :=
  mono_of_rounds (· - z) (f := (· - z.value)) (fun _ _ hle => sub_le_sub_right hle _)
    (fun _ hx => rounds_sub hx hz) (fun s => infinite_sub s hz) h

/-- Quotients by a finite positive number are in the order of what is divided. -/
theorem div_mono_left (hz : z.isFinite) (hpos : 0 < z.value) (h : x ≤ y) : x / z ≤ y / z :=
  mono_of_rounds (· / z) (f := (· / z.value))
    (fun _ _ hle => div_le_div_of_nonneg_right hle hpos.le)
    (fun _ hx => rounds_div hx hz hpos.ne') (fun s => infinite_div s hz hpos) h

/-- What is divided by an infinite number has no value but zero. -/
theorem value_div_infinite (x : Binary32) (t : Bool) : (x / number t infinity).value = 0 := by
  rcases x with - | ⟨s, a⟩
  · rfl
  change (div (number s a) (number t infinity)).value = 0
  rw [div, if_pos rfl, if_pos rfl]
  split_ifs
  · rfl
  · exact value_eq_zero_iff.mpr rfl

/-! ## Numerals -/

theorem isFinite_ofNat {n : Nat} (hn : n < 2 ^ 24) : (ofNat n).isFinite :=
  ((rounds_ofNat n).whole (n := n) hn).1

theorem value_ofNat {n : Nat} (hn : n < 2 ^ 24) : (ofNat n).value = n :=
  ((rounds_ofNat n).whole (n := n) hn).2

@[simp] theorem zero_ne_nan : (0 : Binary32) ≠ nan :=
  number_ne_nan false _

@[simp] theorem one_ne_nan : (1 : Binary32) ≠ nan :=
  number_ne_nan false _

@[simp] theorem value_zero : (0 : Binary32).value = 0 := by
  have h := value_ofNat (n := 0) (by decide)
  rwa [Nat.cast_zero] at h

@[simp] theorem value_one : (1 : Binary32).value = 1 := by
  have h := value_ofNat (n := 1) (by decide)
  rwa [Nat.cast_one] at h

/-- A decimal fraction is rounded once. -/
theorem rounds_ofScientific (digits places : Nat) :
    Rounds (digits / 10 ^ places) (OfScientific.ofScientific digits true places) := by
  have h := rounds_ofRatio false (digits * unitsPerOne) (Nat.pow_pos (n := places) (Nat.succ_pos 9))
  rw [sign_false, one_mul, Nat.cast_mul, mul_div_mul_right _ _ unitsPerOne_rat_pos.ne',
    Nat.cast_pow] at h
  exact h

theorem units_one : units (nearest (1 * unitsPerOne) 1) = unitsPerOne := by
  decide +kernel

/-- Multiplication by one, or by minus one. -/
theorem number_one_mul (s : Bool) (hx : x.isFinite) :
    number s (nearest (1 * unitsPerOne) 1) * x = if s then -x else x := by
  rcases x with - | ⟨t, b⟩
  · cases hx
  have hb : b ≠ infinity := bne_iff_ne.mp hx
  have hone : nearest (1 * unitsPerOne) 1 ≠ infinity := by
    decide +kernel
  change mul _ _ = _
  rw [mul, if_neg (not_or.mpr ⟨hone, hb⟩), units_one, ofRatio, Nat.mul_comm,
    nearest_units b unitsPerOne_pos]
  cases s
  · rw [if_neg Bool.false_ne_true, Bool.false_bne]
  · rw [if_pos rfl, Bool.true_bne]
    rfl

theorem one_mul_of_isFinite (hx : x.isFinite) : 1 * x = x :=
  number_one_mul false hx

theorem neg_one_mul_of_isFinite (hx : x.isFinite) : -1 * x = -x :=
  number_one_mul true hx

/-! ## Bringing into range -/

@[simp] theorem clamp_nan (low high : Binary32) : clamp low high nan = nan := by
  have hlow : ¬nan < low := Bool.false_ne_true
  rw [clamp, if_neg hlow, if_neg (not_lt_nan high)]

theorem clamp_of_ne_nan {low high : Binary32} (hlow : low ≠ nan) (hhigh : high ≠ nan)
    (hx : x ≠ nan) : clamp low high x ≠ nan := by
  unfold clamp
  split_ifs
  · exact hlow
  · exact hhigh
  · exact hx

/-- A value brought between zero and one. The undefined value counts as zero here. -/
theorem value_clamp_unit (x : Binary32) :
    (clamp 0 1 x).value = Max.max 0 (min 1 x.value) := by
  by_cases hx : x = nan
  · simp [hx, value]
  unfold clamp
  split_ifs with hbelow habove
  · simp only [lt_iff hx zero_ne_nan, value_zero] at hbelow
    rw [value_zero, min_eq_right (by linarith), max_eq_left hbelow.le]
  · simp only [lt_iff one_ne_nan hx, value_one] at habove
    simp [habove.le]
  · simp only [lt_iff hx zero_ne_nan, value_zero, not_lt] at hbelow
    simp only [lt_iff one_ne_nan hx, value_one, not_lt] at habove
    rw [min_eq_right habove, max_eq_right hbelow]

theorem clamp_unit_mono (h : x ≤ y) : clamp 0 1 x ≤ clamp 0 1 y := by
  obtain ⟨hx, hy⟩ := ne_nan_of_le h
  rw [le_iff (clamp_of_ne_nan zero_ne_nan one_ne_nan hx)
    (clamp_of_ne_nan zero_ne_nan one_ne_nan hy), value_clamp_unit, value_clamp_unit]
  exact max_le_max_left _ (min_le_min_left _ ((le_iff hx hy).mp h))

theorem clamp_unit_of_one_lt (h : 1 < x) : clamp 0 1 x = 1 := by
  have hx : x ≠ nan := by
    rintro rfl
    exact not_lt_nan 1 h
  have hvalue := (lt_iff one_ne_nan hx).mp h
  have hpos : ¬x < 0 := by
    rw [lt_iff hx zero_ne_nan, value_zero]
    rw [value_one] at hvalue
    linarith
  rw [clamp, if_neg hpos, if_pos h]

/-- Numbers between minus one and one are finite. -/
theorem isFinite_of_abs_le_one (hx : x ≠ nan) (h : |x.value| ≤ 1) : x.isFinite := by
  have hone := (isFinite_iff one_ne_nan).mp rfl
  rw [value_one, abs_one] at hone
  exact (isFinite_iff hx).mpr (h.trans_lt hone)

theorem isFinite_clamp_unit (hx : x ≠ nan) : (clamp 0 1 x).isFinite := by
  refine isFinite_of_abs_le_one (clamp_of_ne_nan zero_ne_nan one_ne_nan hx) ?_
  rw [value_clamp_unit, abs_of_nonneg (le_max_left _ _)]
  exact max_le zero_le_one (min_le_left _ _)

/-- The whole part of a value. -/
theorem truncate_eq (bound : Nat) (x : Binary32) :
    x.truncate bound = min ⌊x.value⌋₊ bound := by
  rcases x with - | ⟨_ | _, a⟩
  · rw [value, Nat.floor_zero, truncate, Nat.zero_min]
  · rw [value_false, Rat.natFloor_natCast_div_natCast, truncate]
  · have hneg : (number true a).value ≤ 0 := by
      rw [value_true]
      exact neg_nonpos.mpr (value_false_nonneg a)
    rw [Nat.floor_of_nonpos hneg, truncate, Nat.zero_min]

end MotionMidi.Binary32
