import Mathlib.Tactic.NormNum
import Mathlib.Tactic.Positivity
import MotionMidi.Binary32.Decimal
import MotionMidi.Proofs.Decimal

/-!
# Single precision numbers read back

The text of a finite value is read as the same value.

Main statement: `Binary32.parse?_text`.
-/

namespace MotionMidi

theorem roundDiv_mul (n : Nat) {den : Nat} (h : 0 < den) : roundDiv (n * den) den = n := by
  have hmod : n * den % den = 0 := Nat.mul_mod_left n den
  have hlt : 2 * (n * den % den) < den := by omega
  rw [roundDiv, if_pos hlt, Nat.mul_div_cancel _ h]

namespace Binary32

theorem log2_eq {n k : Nat} (hlow : 2 ^ k ≤ n) (hhigh : n < 2 ^ (k + 1)) : n.log2 = k := by
  have hne : n ≠ 0 := by
    have := Nat.two_pow_pos k
    omega
  exact (Nat.log2_eq_iff hne).mpr ⟨hlow, hhigh⟩

theorem units_pos {steps : Nat} (h : steps ≠ 0) : 0 < units steps := by
  unfold units
  split
  · omega
  · positivity

/-- A value is its own nearest one, in whatever fraction it is given. -/
theorem nearest_units (magnitude : Magnitude) {den : Nat} (hden : 0 < den) :
    nearest (units magnitude * den) den = magnitude := by
  obtain ⟨steps, hsteps⟩ := magnitude
  have hnearest : ((units steps).log2 - 23) * 2 ^ 23 +
      roundDiv (units steps * den) (den * 2 ^ ((units steps).log2 - 23)) = steps := by
    by_cases hsmall : steps < 2 ^ 23
    case pos =>
      have hunits : units steps = steps := if_pos hsmall
      have hlog : steps.log2 < 23 := by
        by_cases hzero : steps = 0
        · subst hzero
          decide
        · exact (Nat.log2_lt hzero).mpr hsmall
      have hshift : steps.log2 - 23 = 0 := by omega
      rw [hunits, hshift, Nat.pow_zero, Nat.mul_one, roundDiv_mul steps hden]
      omega
    case neg =>
      have hunits : units steps = (2 ^ 23 + steps % 2 ^ 23) * 2 ^ (steps / 2 ^ 23 - 1) :=
        if_neg hsmall
      -- The block of the magnitude is how far its leading bit is shifted.
      have hlog : (units steps).log2 = 23 + (steps / 2 ^ 23 - 1) := by
        rw [hunits]
        apply log2_eq
        · rw [Nat.pow_add]
          exact Nat.mul_le_mul_right _ (by omega)
        · rw [show 23 + (steps / 2 ^ 23 - 1) + 1 = 24 + (steps / 2 ^ 23 - 1) by omega, Nat.pow_add]
          exact Nat.mul_lt_mul_of_pos_right (by omega) (Nat.two_pow_pos _)
      have hshift : (units steps).log2 - 23 = steps / 2 ^ 23 - 1 := by omega
      have hnum : units steps * den =
          (2 ^ 23 + steps % 2 ^ 23) * (den * 2 ^ (steps / 2 ^ 23 - 1)) := by
        rw [hunits]
        ring
      rw [hshift, hnum, roundDiv_mul _ (Nat.mul_pos hden (Nat.two_pow_pos _))]
      omega
  have hdiv : units steps * den / den = units steps := Nat.mul_div_cancel _ hden
  simp only [nearest, hdiv, hnearest, hsteps, dite_true]

theorem nearestDecimal_of_gridNeighbour? {magnitude : Magnitude} {exponent : Int} {digits : Nat}
    (h : gridNeighbour? magnitude exponent = some digits) :
    nearestDecimal digits exponent = magnitude := by
  unfold gridNeighbour? at h
  dsimp only at h
  split at h
  · next hits =>
    cases h
    split
    · exact hits.1
    · exact hits.2
  split at h
  · next hit =>
    cases h
    exact hit
  split at h
  · next hit =>
    cases h
    exact hit
  · cases h

/-- On the finest grid every value is exact. -/
theorem nearestDecimal_finest {magnitude : Magnitude} (hne : magnitude ≠ zero) :
    nearestDecimal (units magnitude * 5 ^ 149) (-149) = magnitude := by
  have hpos : 0 < units magnitude := units_pos fun h => hne (Fin.ext h)
  have hdigits : units magnitude * 5 ^ 149 ≠ 0 := by positivity
  have hlarge : 2 * 149 ≤ (units magnitude * 5 ^ 149).log2 := by
    rw [Nat.le_log2 hdigits]
    calc 2 ^ (2 * 149) = 4 ^ 149 := Nat.pow_mul 2 2 149
      _ ≤ 5 ^ 149 := Nat.pow_le_pow_left (by decide) _
      _ ≤ units magnitude * 5 ^ 149 := Nat.le_mul_of_pos_left _ hpos
  have hnum : units magnitude * 5 ^ 149 * unitsPerOne = units magnitude * 10 ^ 149 := by
    rw [unitsPerOne, Nat.mul_assoc, ← Nat.mul_pow]
  have hsmall : ¬ (units magnitude * 5 ^ 149).log2 + 151 ≤ 3 * (148 + 1) := by
    omega
  rw [show (-149 : Int) = .negSucc 148 from rfl, nearestDecimal, if_neg hdigits,
    if_neg hsmall, hnum]
  exact nearest_units magnitude (by positivity)

/-- The shortest decimal fraction reads back, and its grid is not too coarse for any value. -/
theorem shortest_spec (magnitude : Magnitude) :
    nearestDecimal (shortest magnitude).1 (shortest magnitude).2 = magnitude ∧
      (shortest magnitude).2 < 39 := by
  unfold shortest
  split
  case isTrue hzero =>
    subst hzero
    exact ⟨rfl, by decide⟩
  case isFalse hne =>
    split
    -- On some grid a neighbour reads back, and if on none, the finest grid holds the value itself.
    case h_1 found hfound =>
      obtain ⟨exponent, hmem, hexponent⟩ := List.exists_of_findSome?_eq_some hfound
      obtain ⟨digits, hgrid, rfl⟩ := Option.map_eq_some_iff.mp hexponent
      refine ⟨nearestDecimal_of_gridNeighbour? hgrid, ?_⟩
      obtain ⟨i, -, rfl⟩ := List.mem_map.mp hmem
      dsimp only
      omega
    case h_2 => exact ⟨nearestDecimal_finest hne, Int.neg_lt_of_neg_lt (by decide)⟩

/-- A power of ten may be put into the digits. -/
theorem nearestDecimal_shift (digits : Nat) {exponent : Int} (h : exponent < 39) :
    nearestDecimal (digits * 10 ^ exponent.toNat) (min exponent 0) =
      nearestDecimal digits exponent := by
  obtain zeros | places := exponent
  · have hzeros : ¬ 39 ≤ zeros := by
      have : (zeros : Int) < 39 := h
      omega
    have hmin : min (Int.ofNat zeros) 0 = .ofNat 0 := by
      simp
    rw [hmin]
    simp only [nearestDecimal, Int.ofNat_eq_natCast, Int.toNat_natCast, hzeros, if_false,
      Nat.mul_eq_zero, Nat.pow_zero, Nat.mul_one]
    simp
  · have hmin : min (Int.negSucc places) 0 = .negSucc places := by
      omega
    have hzeros : (Int.negSucc places).toNat = 0 := rfl
    rw [hmin, hzeros, Nat.pow_zero, Nat.mul_one]

/-- The text of a finite value is that of its shortest decimal fraction. -/
theorem text_of_finite {negative : Bool} {magnitude : Magnitude}
    (h : (Binary32.number negative magnitude).isFinite) :
    (Binary32.number negative magnitude).text.toList =
      Decimal.write ⟨negative, (shortest magnitude).1, (shortest magnitude).2⟩ := by
  have hfinite : magnitude ≠ infinity := by
    simpa [isFinite] using h
  rw [text, if_neg hfinite, String.toList_ofList]

/-- Reading the text of a finite value gives the value back. -/
theorem parse?_text {x : Binary32} (h : x.isFinite) : parse? x.text.toList = some x := by
  obtain - | ⟨negative, magnitude⟩ := x
  · cases h
  obtain ⟨hnearest, hgrid⟩ := shortest_spec magnitude
  rw [text_of_finite h, parse?, Decimal.read?_write, Option.map_some, ofDecimal,
    nearestDecimal_shift _ hgrid, hnearest, Option.filter_some, if_pos h]

end Binary32

end MotionMidi
