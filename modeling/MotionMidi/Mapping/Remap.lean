import MotionMidi.Binary32.Basic

/-!
# Remapping a channel onto integers

`remap` spreads a domain of readings evenly over a range of integers.

## Main definitions

- `remap` — the integer of the output range that a raw value falls on

## Design notes

The output span counts both ends, so each integer owns an equal share of the domain; only the
exact upper end would fall past the last integer and is brought back. The five steps (difference,
quotient, clamping, product, truncation) are single precision operations and round one by one.
-/

namespace MotionMidi

/-- Linearly remaps `raw` from the domain between `fromLo` and `fromHi` onto the integers from
`toLo` to `toHi`. Values outside the domain saturate, a reversed domain inverts the output, and a
domain narrower than a thousandth always gives `toLo`. -/
def remap (raw fromLo fromHi : Binary32) (toLo toHi : Nat) : Nat :=
  let domain := fromHi - fromLo
  if -0.001 < domain ∧ domain < 0.001 then toLo
  else
    let share := Binary32.clamp 0 1 ((raw - fromLo) / domain)
    let span := Binary32.ofNat toHi - Binary32.ofNat toLo + 1
    let value := (share * span).truncate (2 ^ 32 - 1) + toLo
    max toLo (min value (max toHi toLo))

end MotionMidi
