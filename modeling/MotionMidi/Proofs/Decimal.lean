import Mathlib.Data.List.Induction
import Mathlib.Data.List.TakeWhile
import Mathlib.Tactic.Ring
import MotionMidi.Decimal.Fraction

/-!
# Decimal fractions read back

The text of a decimal fraction is read as the same fraction; a positive power of ten becomes zeros
among the digits.

Main statement: `Decimal.read?_write`.
-/

namespace MotionMidi

namespace Numeral

theorem value_append (high low : List Char) :
    value (high ++ low) = value high * 10 ^ low.length + value low := by
  induction low using List.reverseRecOn with
  | nil => simp [value]
  | append_singleton low c ih =>
    rw [← List.append_assoc, value_append_digit, value_append_digit, ih, List.length_append,
      List.length_singleton, Nat.pow_succ]
    ring

@[simp] theorem value_zeros (n : Nat) : value (List.replicate n '0') = 0 := by
  induction n with
  | zero => rfl
  | succ n ih =>
    rw [List.replicate_succ', value_append_digit, ih]
    rfl

/-- Zeros in front change nothing. -/
@[simp] theorem value_zeros_append (n : Nat) (digits : List Char) :
    value (List.replicate n '0' ++ digits) = value digits := by
  simp [value_append]

/-- Zeros at the end are a power of ten. -/
theorem value_append_zeros (digits : List Char) (n : Nat) :
    value (digits ++ List.replicate n '0') = value digits * 10 ^ n := by
  simp [value_append]

/-- A minus in front of digits is told from the digits. -/
theorem splitSign_signed (negative : Bool) {digits : List Char} (hne : digits ≠ [])
    (hdigits : digits.all Char.isDigit) (tail : List Char) :
    splitSign (if negative then '-' :: (digits ++ tail) else digits ++ tail) =
      (negative, digits ++ tail) := by
  obtain ⟨first, rest, rfl⟩ := List.exists_cons_of_ne_nil hne
  have hfirst : first.isDigit := (List.all_eq_true.mp hdigits) first (List.mem_cons_self ..)
  cases negative
  · rw [if_neg Bool.false_ne_true, List.cons_append]
    unfold splitSign
    split
    · next h =>
      cases h
      cases hfirst
    · next h =>
      cases h
      cases hfirst
    · rfl
  · rfl

end Numeral

namespace Decimal

open Numeral

/-- Digits with nothing after them. -/
theorem read?_whole (negative : Bool) {whole : List Char} (hne : whole ≠ [])
    (hwhole : whole.all Char.isDigit) :
    read? (if negative then '-' :: whole else whole) = some ⟨negative, value whole, 0⟩ := by
  have hsplit := splitSign_signed negative hne hwhole []
  rw [List.append_nil] at hsplit
  have htake : whole.takeWhile Char.isDigit = whole :=
    List.takeWhile_eq_self_iff.mpr (List.all_eq_true.mp hwhole)
  have hdrop : whole.dropWhile Char.isDigit = [] :=
    List.dropWhile_eq_nil_iff.mpr (List.all_eq_true.mp hwhole)
  simp [read?, hsplit, htake, hdrop, splitFraction, exponent?, hne]

/-- Digits with a point among them. -/
theorem read?_places (negative : Bool) {whole fraction : List Char} (hne : whole ≠ [])
    (hwhole : whole.all Char.isDigit) (hfraction : fraction.all Char.isDigit) :
    read? (if negative then '-' :: (whole ++ '.' :: fraction) else whole ++ '.' :: fraction) =
      some ⟨negative, value (whole ++ fraction), -fraction.length⟩ := by
  have htake : (whole ++ '.' :: fraction).takeWhile Char.isDigit = whole := by
    rw [List.takeWhile_append_of_pos (List.all_eq_true.mp hwhole)]
    simp
  have hdrop : (whole ++ '.' :: fraction).dropWhile Char.isDigit = '.' :: fraction := by
    rw [List.dropWhile_append_of_pos (List.all_eq_true.mp hwhole)]
    simp
  have htake' : fraction.takeWhile Char.isDigit = fraction :=
    List.takeWhile_eq_self_iff.mpr (List.all_eq_true.mp hfraction)
  have hdrop' : fraction.dropWhile Char.isDigit = [] :=
    List.dropWhile_eq_nil_iff.mpr (List.all_eq_true.mp hfraction)
  simp [read?, splitSign_signed negative hne hwhole, htake, hdrop, splitFraction, htake', hdrop',
    exponent?, hne]

/-- The digits that `writePlaces` writes before and behind the point. -/
theorem writePlaces_eq (digits places : Nat) :
    ∃ whole fraction, writePlaces digits places = whole ++ '.' :: fraction ∧ whole ≠ [] ∧
      whole.all Char.isDigit ∧ fraction.all Char.isDigit ∧ fraction.length = places ∧
      value (whole ++ fraction) = digits := by
  let padded := List.replicate (places + 1 - (Numeral.write digits).length) '0' ++
    Numeral.write digits
  have hlength : places < padded.length := by
    simp only [padded, List.length_append, List.length_replicate]
    omega
  have hdigits : ∀ c ∈ padded, c.isDigit := by
    intro c hc
    rcases List.mem_append.mp hc with hc | hc
    · rw [List.eq_of_mem_replicate hc]
      rfl
    · exact List.all_eq_true.mp (all_isDigit_write digits) c hc
  refine ⟨padded.take (padded.length - places), padded.drop (padded.length - places), rfl,
    ?_, ?_, ?_, ?_, ?_⟩
  · apply List.ne_nil_of_length_pos
    rw [List.length_take]
    omega
  · exact List.all_eq_true.mpr fun c hc => hdigits c (List.mem_of_mem_take hc)
  · exact List.all_eq_true.mpr fun c hc => hdigits c (List.mem_of_mem_drop hc)
  · rw [List.length_drop]
    omega
  · rw [List.take_append_drop, value_zeros_append, value_write]

/-- Reading what was written. -/
theorem read?_write (d : Decimal) :
    read? (write d) = some ⟨d.negative, d.digits * 10 ^ d.exponent.toNat, min d.exponent 0⟩ := by
  obtain ⟨negative, digits, zeros | places⟩ := d
  · have hne : Numeral.write digits ++ List.replicate zeros '0' ≠ [] := by
      simp [write_ne_nil]
    have hdigits : (Numeral.write digits ++ List.replicate zeros '0').all Char.isDigit := by
      simp [all_isDigit_write]
    have hread := read?_whole negative hne hdigits
    rw [value_append_zeros, value_write] at hread
    rw [write, hread]
    simp
  · obtain ⟨whole, fraction, hwrite, hne, hwhole, hfraction, hlength, hvalue⟩ :=
      writePlaces_eq digits (places + 1)
    have hread := read?_places negative hne hwhole hfraction
    rw [hvalue, hlength, ← hwrite] at hread
    have hexponent : (Int.negSucc places).toNat = 0 := rfl
    rw [write, hread, hexponent]
    simp only [Nat.pow_zero, Nat.mul_one]
    congr

theorem mem_writePlaces {digits places : Nat} {c : Char} (h : c ∈ writePlaces digits places) :
    c.isDigit ∨ c = '.' := by
  obtain ⟨whole, fraction, hwrite, -, hwhole, hfraction, -⟩ := writePlaces_eq digits places
  rw [hwrite] at h
  rcases List.mem_append.mp h with h | h
  · exact .inl (List.all_eq_true.mp hwhole c h)
  rcases List.mem_cons.mp h with h | h
  · exact .inr h
  · exact .inl (List.all_eq_true.mp hfraction c h)

/-- The characters of the text. -/
theorem mem_write {d : Decimal} {c : Char} (h : c ∈ write d) :
    c.isDigit ∨ c = '.' ∨ c = '-' := by
  obtain ⟨negative, digits, exponent⟩ := d
  have hbody : c ∈ write ⟨false, digits, exponent⟩ → c.isDigit ∨ c = '.' := by
    intro h
    obtain zeros | places := exponent
    · rcases List.mem_append.mp h with h | h
      · exact .inl (List.all_eq_true.mp (all_isDigit_write digits) c h)
      · rw [List.eq_of_mem_replicate h]
        exact .inl rfl
    · exact mem_writePlaces h
  cases negative with
  | false => exact (hbody h).imp_right .inl
  | true =>
    rcases List.mem_cons.mp h with h | h
    · exact .inr (.inr h)
    · exact (hbody h).imp_right .inl

@[simp] theorem write_ne_nil (d : Decimal) : write d ≠ [] := by
  intro h
  have hread := read?_write d
  rw [h] at hread
  cases hread

end Decimal

end MotionMidi
