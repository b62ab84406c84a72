import MotionMidi.Mapping.Remap
import MotionMidi.Proofs.Binary32.Arithmetic

/-!
# Remapping

A raw value falls on an integer of the output range, whatever it is. The integer follows the order
of the raw values, or the opposite one where the domain is reversed, and the ends of the domain
fall on the ends of the range.

## Main definitions

- `Remap.quotient`, `Remap.share` — the place of a raw value in the domain
- `Remap.span`, `Remap.offset` — the size of the output range, and the place in it
- `Remap.inWords?` — remapping in words of 16 and 32 bits, none of which may overflow

Main statements: `Remap.remap_of_wide`, `Remap.value_share`, `Remap.offset_eq`,
`remap_spreads_domain`.
-/

namespace MotionMidi

namespace Remap

open Binary32

/-- The domain is so narrow that it has no extent to speak of. -/
def Narrow (fromLo fromHi : Binary32) : Prop :=
  -0.001 < fromHi - fromLo ∧ fromHi - fromLo < 0.001

instance (fromLo fromHi : Binary32) : Decidable (Narrow fromLo fromHi) :=
  inferInstanceAs (Decidable (_ ∧ _))

/-- The place of a raw value, where the domain goes from zero to one. -/
def quotient (raw fromLo fromHi : Binary32) : Binary32 :=
  (raw - fromLo) / (fromHi - fromLo)

/-- The part of the domain that lies before a raw value. -/
def share (raw fromLo fromHi : Binary32) : Binary32 :=
  clamp 0 1 (quotient raw fromLo fromHi)

/-- The number of integers from one to another, both counted. -/
def span (toLo toHi : Nat) : Binary32 :=
  ofNat toHi - ofNat toLo + 1

/-- The number of integers of the range that lie before the one that a raw value falls on. -/
def offset (raw fromLo fromHi : Binary32) (toLo toHi : Nat) : Nat :=
  (share raw fromLo fromHi * span toLo toHi).truncate (2 ^ 32 - 1)

variable {raw raw' fromLo fromHi : Binary32} {toLo toHi : Nat}

theorem remap_of_narrow (h : Narrow fromLo fromHi) (raw : Binary32) (toLo toHi : Nat) :
    remap raw fromLo fromHi toLo toHi = toLo :=
  if_pos h

theorem remap_of_wide (h : ¬Narrow fromLo fromHi) (raw : Binary32) (toLo toHi : Nat) :
    remap raw fromLo fromHi toLo toHi =
      max toLo (min (offset raw fromLo fromHi toLo toHi + toLo) (max toHi toLo)) :=
  if_neg h

theorem le_remap (raw fromLo fromHi : Binary32) (toLo toHi : Nat) :
    toLo ≤ remap raw fromLo fromHi toLo toHi := by
  by_cases h : Narrow fromLo fromHi
  · rw [remap_of_narrow h]
  · rw [remap_of_wide h]
    exact le_max_left _ _

theorem remap_le (raw fromLo fromHi : Binary32) (toLo toHi : Nat) :
    remap raw fromLo fromHi toLo toHi ≤ max toLo toHi := by
  by_cases h : Narrow fromLo fromHi
  · rw [remap_of_narrow h]
    exact le_max_left _ _
  · rw [remap_of_wide h]
    omega

/-! ## The place in the domain -/

theorem value_share (raw fromLo fromHi : Binary32) :
    (share raw fromLo fromHi).value = max 0 (min 1 (quotient raw fromLo fromHi).value) :=
  value_clamp_unit _

theorem isFinite_share (h : quotient raw fromLo fromHi ≠ nan) :
    (share raw fromLo fromHi).isFinite :=
  isFinite_clamp_unit h

/-- Raw values keep their order in a domain that is not reversed. -/
theorem quotient_mono (hlo : fromLo.isFinite) (hdomain : (fromHi - fromLo).isFinite)
    (hpos : 0 < (fromHi - fromLo).value) (h : raw ≤ raw') :
    quotient raw fromLo fromHi ≤ quotient raw' fromLo fromHi :=
  div_mono_left hdomain hpos (sub_mono_left hlo h)

/-- Raw values change their order in a reversed domain. -/
theorem quotient_anti (hlo : fromLo.isFinite) (hdomain : (fromHi - fromLo).isFinite)
    (hneg : (fromHi - fromLo).value < 0) (h : raw ≤ raw') :
    quotient raw' fromLo fromHi ≤ quotient raw fromLo fromHi := by
  have hpos : 0 < (-(fromHi - fromLo)).value := by
    rw [value_neg]
    exact neg_pos.mpr hneg
  unfold quotient
  rw [← neg_div_neg, ← neg_div_neg (raw - fromLo)]
  exact div_mono_left (isFinite_neg hdomain) hpos (neg_anti (sub_mono_left hlo h))

/-! ## The place in the range -/

section Range

variable (hLo : toLo < 65536) (hHi : toHi < 65536)

include hLo hHi

theorem exact_span : (span toLo toHi).isFinite ∧ (span toLo toHi).value = toHi - toLo + 1 := by
  have hdiff : Rounds ((toHi - toLo : Int) : ℚ) (ofNat toHi - ofNat toLo) := by
    have h := rounds_sub (isFinite_ofNat (n := toHi) (by omega))
      (isFinite_ofNat (n := toLo) (by omega))
    rw [value_ofNat (by omega), value_ofNat (by omega)] at h
    exact_mod_cast h
  obtain ⟨hfinite, hvalue⟩ := hdiff.whole (by omega)
  have hspan : Rounds ((toHi - toLo + 1 : Int) : ℚ) (span toLo toHi) := by
    have h := rounds_add (y := 1) hfinite rfl
    rw [hvalue, value_one] at h
    exact_mod_cast h
  have h := hspan.whole (by omega)
  exact_mod_cast h

theorem offset_eq (raw fromLo fromHi : Binary32) :
    offset raw fromLo fromHi toLo toHi =
      min ⌊rounded ((share raw fromLo fromHi).value * (toHi - toLo + 1))⌋₊ (2 ^ 32 - 1) := by
  obtain ⟨hfinite, hspan⟩ := exact_span hLo hHi
  rw [offset, truncate_eq, ← hspan]
  by_cases hnan : quotient raw fromLo fromHi = nan
  · have hshare : share raw fromLo fromHi = nan := by
      simp [share, hnan]
    have hproduct : nan * span toLo toHi = nan := rfl
    rw [hshare, hproduct, value, zero_mul, rounded_zero]
  · rw [(rounds_mul (isFinite_share hnan) hfinite).value_eq]

/-- There are no more integers than in the largest range. -/
theorem offset_le (raw fromLo fromHi : Binary32) : offset raw fromLo fromHi toLo toHi ≤ 65536 := by
  rw [offset_eq hLo hHi]
  refine (min_le_left _ _).trans (Nat.floor_le_of_le ?_)
  have hshare : (share raw fromLo fromHi).value ≤ 1 := by
    rw [value_share]
    exact max_le zero_le_one (min_le_left _ _)
  have hnonneg : 0 ≤ (share raw fromLo fromHi).value := by
    rw [value_share]
    exact le_max_left _ _
  have hspan : (toHi - toLo + 1 : ℚ) ≤ 65536 := by
    have : (toHi : ℚ) ≤ 65535 := by exact_mod_cast Nat.le_of_lt_succ hHi
    have : (0 : ℚ) ≤ toLo := toLo.cast_nonneg
    linarith
  have hround : rounded ((65536 : Int) / 2 ^ 0) = (65536 : Int) / 2 ^ 0 :=
    rounded_dyadic (by decide) (Nat.zero_le _)
  norm_num at hround
  rw [Nat.cast_ofNat, ← hround]
  apply monotone_rounded
  nlinarith

/-- What matters of a raw value is its place in the domain. -/
theorem remap_mono_of_quotient (hordered : toLo ≤ toHi) (hwide : ¬Narrow fromLo fromHi)
    (h : (quotient raw fromLo fromHi).value ≤ (quotient raw' fromLo fromHi).value) :
    remap raw fromLo fromHi toLo toHi ≤ remap raw' fromLo fromHi toLo toHi := by
  have hspan : (0 : ℚ) ≤ toHi - toLo + 1 := by
    have : (toLo : ℚ) ≤ toHi := by exact_mod_cast hordered
    linarith
  have hshare : (share raw fromLo fromHi).value ≤ (share raw' fromLo fromHi).value := by
    rw [value_share, value_share]
    exact max_le_max_left _ (min_le_min_left _ h)
  have hoffset : offset raw fromLo fromHi toLo toHi ≤ offset raw' fromLo fromHi toLo toHi := by
    rw [offset_eq hLo hHi, offset_eq hLo hHi]
    exact min_le_min_right _ (Nat.floor_le_floor
      (monotone_rounded (mul_le_mul_of_nonneg_right hshare hspan)))
  rw [remap_of_wide hwide, remap_of_wide hwide]
  omega

/-- The lower end of the domain, and all that lies before it. -/
theorem remap_of_nonpos (hwide : ¬Narrow fromLo fromHi)
    (h : (quotient raw fromLo fromHi).value ≤ 0) :
    remap raw fromLo fromHi toLo toHi = toLo := by
  have hshare : (share raw fromLo fromHi).value = 0 := by
    rw [value_share, min_eq_right (by linarith), max_eq_left h]
  simp [remap_of_wide hwide, offset_eq hLo hHi, hshare]

/-- The upper end of the domain, and all that lies behind it. -/
theorem remap_of_one_le (hordered : toLo ≤ toHi) (hwide : ¬Narrow fromLo fromHi)
    (h : 1 ≤ (quotient raw fromLo fromHi).value) :
    remap raw fromLo fromHi toLo toHi = toHi := by
  have hshare : (share raw fromLo fromHi).value = 1 := by
    rw [value_share, min_eq_left h, max_eq_right zero_le_one]
  have hspan : (toHi - toLo + 1 : ℚ) = (toHi + 1 - toLo : Nat) := by
    rw [Nat.cast_sub (by omega)]
    push_cast
    ring
  have hround : rounded (toHi + 1 - toLo : Nat) = (toHi + 1 - toLo : Nat) := by
    have hvalue := value_ofNat (n := toHi + 1 - toLo) (by omega)
    rw [← hvalue, rounded_value]
  rw [remap_of_wide hwide, offset_eq hLo hHi, hshare, one_mul, hspan, hround, Nat.floor_natCast]
  omega

end Range

/-! ## The ends of the domain -/

theorem value_thousandth_pos : 0 < (0.001 : Binary32).value := by
  obtain ⟨x, -, hx⟩ := exists_value_eq (n := 1) (k := 10) (by decide) (by decide)
  have h : x.value ≤ (0.001 : Binary32).value :=
    (rounds_ofScientific 1 3).le_value (by rw [hx]; norm_num)
  rw [hx] at h
  exact lt_of_lt_of_le (by norm_num) h

theorem value_neg_thousandth : (-0.001 : Binary32).value = -(0.001 : Binary32).value :=
  value_neg _

/-- A domain that goes upwards. -/
theorem wide_of_le (h : 0.001 ≤ fromHi - fromLo) :
    ¬Narrow fromLo fromHi ∧ 0 < (fromHi - fromLo).value := by
  obtain ⟨hsmall, hdomain⟩ := ne_nan_of_le h
  have hle := (le_iff hsmall hdomain).mp h
  refine ⟨fun hnarrow => ?_, value_thousandth_pos.trans_le hle⟩
  exact absurd ((lt_iff hdomain hsmall).mp hnarrow.2) (not_lt.mpr hle)

/-- A domain that goes downwards. -/
theorem wide_of_ge (h : fromHi - fromLo ≤ -0.001) :
    ¬Narrow fromLo fromHi ∧ (fromHi - fromLo).value < 0 := by
  obtain ⟨hdomain, hsmall⟩ := ne_nan_of_le h
  have hle := (le_iff hdomain hsmall).mp h
  refine ⟨fun hnarrow => ?_, ?_⟩
  · exact absurd ((lt_iff hsmall hdomain).mp hnarrow.1) (not_lt.mpr hle)
  · rw [value_neg_thousandth] at hle
    have := value_thousandth_pos
    linarith

section Ends

variable (hlo : fromLo.isFinite) (hdomain : (fromHi - fromLo).isFinite)
  (hne : (fromHi - fromLo).value ≠ 0)

include hdomain hne

theorem value_quotient_fromHi : (quotient fromHi fromLo fromHi).value = 1 := by
  have h := (rounds_div hdomain hdomain hne).value_eq
  rwa [div_self hne, ← value_one, rounded_value, value_one] at h

include hlo

theorem value_quotient_fromLo : (quotient fromLo fromLo fromHi).value = 0 := by
  have hdiff := rounds_sub hlo hlo
  rw [sub_self] at hdiff
  obtain ⟨hfinite, hvalue⟩ := hdiff.whole (n := 0) (by decide)
  have h := (rounds_div hfinite hdomain hne).value_eq
  rwa [hvalue, Int.cast_zero, zero_div, rounded_zero] at h

end Ends

/-- In a domain that overflows, every raw value lies at the lower end. -/
theorem value_quotient_of_infinite (hdefined : fromHi - fromLo ≠ nan)
    (h : ¬(fromHi - fromLo).isFinite) (raw : Binary32) :
    (quotient raw fromLo fromHi).value = 0 := by
  obtain ⟨t, ht⟩ := (finite_or_infinite hdefined).resolve_left h
  rw [quotient, ht, value_div_infinite]

section Order

variable (hLo : toLo < 65536) (hHi : toHi < 65536) (hordered : toLo ≤ toHi) (hlo : fromLo.isFinite)

include hLo hHi hordered hlo

/-- Larger raw values fall on larger integers if the domain goes upwards. -/
theorem remap_mono (hdomain : 0.001 ≤ fromHi - fromLo) (h : raw ≤ raw') :
    remap raw fromLo fromHi toLo toHi ≤ remap raw' fromLo fromHi toLo toHi := by
  obtain ⟨hwide, hpos⟩ := wide_of_le hdomain
  apply remap_mono_of_quotient hLo hHi hordered hwide
  by_cases hfinite : (fromHi - fromLo).isFinite
  · have hle := quotient_mono hlo hfinite hpos h
    obtain ⟨hleft, hright⟩ := ne_nan_of_le hle
    exact (le_iff hleft hright).mp hle
  · have hdefined := (ne_nan_of_le hdomain).2
    rw [value_quotient_of_infinite hdefined hfinite, value_quotient_of_infinite hdefined hfinite]

/-- Larger raw values fall on smaller integers if the domain goes downwards. -/
theorem remap_anti (hdomain : fromHi - fromLo ≤ -0.001) (h : raw ≤ raw') :
    remap raw' fromLo fromHi toLo toHi ≤ remap raw fromLo fromHi toLo toHi := by
  obtain ⟨hwide, hneg⟩ := wide_of_ge hdomain
  apply remap_mono_of_quotient hLo hHi hordered hwide
  by_cases hfinite : (fromHi - fromLo).isFinite
  · have hle := quotient_anti hlo hfinite hneg h
    obtain ⟨hleft, hright⟩ := ne_nan_of_le hle
    exact (le_iff hleft hright).mp hle
  · have hdefined := (ne_nan_of_le hdomain).1
    rw [value_quotient_of_infinite hdefined hfinite, value_quotient_of_infinite hdefined hfinite]

/-- The ends of the domain fall on the ends of the range. -/
theorem remap_ends (hfinite : (fromHi - fromLo).isFinite)
    (hdomain : 0.001 ≤ fromHi - fromLo ∨ fromHi - fromLo ≤ -0.001) :
    remap fromLo fromLo fromHi toLo toHi = toLo ∧ remap fromHi fromLo fromHi toLo toHi = toHi := by
  obtain ⟨hwide, hne⟩ : ¬Narrow fromLo fromHi ∧ (fromHi - fromLo).value ≠ 0 := by
    rcases hdomain with hup | hdown
    · exact ⟨(wide_of_le hup).1, (wide_of_le hup).2.ne'⟩
    · exact ⟨(wide_of_ge hdown).1, (wide_of_ge hdown).2.ne⟩
  exact ⟨remap_of_nonpos hLo hHi hwide (value_quotient_fromLo hlo hfinite hne).le,
    remap_of_one_le hLo hHi hordered hwide (value_quotient_fromHi hfinite hne).ge⟩

end Order

/-! ## Remapping in words -/

/-- A number, if it fits a word of 32 bits. -/
def word? (n : Nat) : Option Nat :=
  if n < 2 ^ 32 then some n else none

/-- Remapping, where the place in the range is added to its lower end in a word of 32 bits, and
what comes out is cut off to 16 bits. -/
def inWords? (raw fromLo fromHi : Binary32) (toLo toHi : UInt16) : Option UInt16 :=
  if Narrow fromLo fromHi then some toLo
  else do
    let value ← word? (offset raw fromLo fromHi toLo.toNat toHi.toNat + toLo.toNat)
    return UInt16.ofNat (max toLo.toNat (min value (max toHi.toNat toLo.toNat)))

/-- No word overflows, and nothing is cut off. -/
theorem exists_inWords? (raw fromLo fromHi : Binary32) (toLo toHi : UInt16) :
    ∃ word, inWords? raw fromLo fromHi toLo toHi = some word ∧
      word.toNat = remap raw fromLo fromHi toLo.toNat toHi.toNat := by
  by_cases hnarrow : Narrow fromLo fromHi
  case pos => exact ⟨toLo, if_pos hnarrow, (remap_of_narrow hnarrow ..).symm⟩
  have hlo := toLo.toNat_lt
  have hhi := toHi.toNat_lt
  have hoffset := offset_le hlo hhi raw fromLo fromHi
  have hword : word? (offset raw fromLo fromHi toLo.toNat toHi.toNat + toLo.toNat) =
      some (offset raw fromLo fromHi toLo.toNat toHi.toNat + toLo.toNat) :=
    if_pos (by omega)
  refine ⟨UInt16.ofNat (remap raw fromLo fromHi toLo.toNat toHi.toNat), ?_, ?_⟩
  · rw [inWords?, if_neg hnarrow, hword, remap_of_wide hnarrow]
    rfl
  · have hle := remap_le raw fromLo fromHi toLo.toNat toHi.toNat
    have hsize : UInt16.size = 65536 := rfl
    exact UInt16.toNat_ofNat_of_lt' (by omega)

end Remap

open Remap

/-- Every raw value falls on an integer of the output range, and nothing overflows on the way. The
undefined value falls on the lower end. In a domain that is not too narrow the integers are in the
order of the raw values, or in the opposite one if the domain is reversed. The ends of the domain
fall on the ends of the range, and so does all that lies beyond them, unless the extent of the
domain is infinite. -/
theorem remap_spreads_domain (fromLo fromHi : Binary32) (toLo toHi : UInt16) :
    let value (raw : Binary32) : Nat := remap raw fromLo fromHi toLo.toNat toHi.toNat
    let domain := fromHi - fromLo
    (∀ raw, toLo.toNat ≤ value raw ∧ value raw ≤ max toLo.toNat toHi.toNat ∧
      ∃ word, inWords? raw fromLo fromHi toLo toHi = some word ∧ word.toNat = value raw) ∧
    value .nan = toLo.toNat ∧
    (fromLo.isFinite → fromHi.isFinite → toLo ≤ toHi →
      (0.001 ≤ domain → ∀ raw raw', raw ≤ raw' → value raw ≤ value raw') ∧
      (domain ≤ -0.001 → ∀ raw raw', raw ≤ raw' → value raw' ≤ value raw) ∧
      (domain.isFinite → 0.001 ≤ domain ∨ domain ≤ -0.001 →
        value fromLo = toLo.toNat ∧ value fromHi = toHi.toNat ∧
        (0.001 ≤ domain → ∀ raw, (raw ≤ fromLo → value raw = value fromLo) ∧
          (fromHi ≤ raw → value raw = value fromHi)) ∧
        (domain ≤ -0.001 → ∀ raw, (fromLo ≤ raw → value raw = value fromLo) ∧
          (raw ≤ fromHi → value raw = value fromHi)))) := by
  intro value domain
  have hLo := toLo.toNat_lt
  have hHi := toHi.toNat_lt
  have hlow (raw : Binary32) : toLo.toNat ≤ value raw := le_remap ..
  have hhigh (raw : Binary32) : value raw ≤ max toLo.toNat toHi.toNat := remap_le ..
  refine ⟨fun raw => ⟨hlow raw, hhigh raw, exists_inWords? ..⟩, ?_, fun hlo _ hordered => ?_⟩
  · by_cases hnarrow : Narrow fromLo fromHi
    · exact remap_of_narrow hnarrow ..
    · exact remap_of_nonpos hLo hHi hnarrow le_rfl
  rw [UInt16.le_iff_toNat_le] at hordered
  rw [max_eq_right hordered] at hhigh
  have hmono (hdomain : 0.001 ≤ domain) (raw raw' : Binary32) (h : raw ≤ raw') :
      value raw ≤ value raw' :=
    remap_mono hLo hHi hordered hlo hdomain h
  have hanti (hdomain : domain ≤ -0.001) (raw raw' : Binary32) (h : raw ≤ raw') :
      value raw' ≤ value raw :=
    remap_anti hLo hHi hordered hlo hdomain h
  refine ⟨hmono, hanti, fun hfinite hdomain => ?_⟩
  -- No integer lies beyond the ends of the range, so the ends of the domain bound what follows.
  obtain ⟨hfirst, hlast⟩ : value fromLo = toLo.toNat ∧ value fromHi = toHi.toNat :=
    remap_ends hLo hHi hordered hlo hfinite hdomain
  refine ⟨hfirst, hlast, fun hup raw => ⟨fun h => ?_, fun h => ?_⟩,
    fun hdown raw => ⟨fun h => ?_, fun h => ?_⟩⟩
  · exact le_antisymm (hmono hup _ _ h) (hfirst.trans_le (hlow raw))
  · exact le_antisymm ((hhigh raw).trans_eq hlast.symm) (hmono hup _ _ h)
  · exact le_antisymm (hanti hdown _ _ h) (hfirst.trans_le (hlow raw))
  · exact le_antisymm ((hhigh raw).trans_eq hlast.symm) (hanti hdown _ _ h)

/-- A reversed domain, and the range of all words. -/
theorem remap_spreads_domain_reversed :
    let value (raw : Binary32) : Nat := remap raw 1 (-1) 0 65535
    let domain : Binary32 := -1 - 1
    ((1 : Binary32).isFinite ∧ (-1 : Binary32).isFinite ∧ (0 : UInt16) ≤ 65535 ∧
      domain ≤ -0.001 ∧ domain.isFinite ∧ (0.25 : Binary32) ≤ 0.5 ∧ (-1.5 : Binary32) ≤ -1) ∧
    value 0.5 ≤ value 0.25 ∧ value 1 = 0 ∧ value (-1.5) = 65535 := by
  intro value domain
  have hone : (1 : Binary32).isFinite := by
    decide
  have hneg : (-1 : Binary32).isFinite := by
    decide
  have hordered : (0 : UInt16) ≤ 65535 := by
    decide
  have hdown : domain ≤ -0.001 := by
    decide +kernel
  have hfinite : domain.isFinite := by
    decide +kernel
  have hinside : (0.25 : Binary32) ≤ 0.5 := by
    decide +kernel
  have hbeyond : (-1.5 : Binary32) ≤ -1 := by
    decide +kernel
  obtain ⟨-, -, hspread⟩ := remap_spreads_domain 1 (-1) 0 65535
  obtain ⟨-, hanti, hends⟩ := hspread hone hneg hordered
  obtain ⟨hfirst, hlast, -, hreversed⟩ := hends hfinite (.inr hdown)
  exact ⟨⟨hone, hneg, hordered, hdown, hfinite, hinside, hbeyond⟩, hanti hdown _ _ hinside,
    hfirst, ((hreversed hdown _).2 hbeyond).trans hlast⟩

end MotionMidi
