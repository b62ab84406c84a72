import MotionMidi.Binary32.Basic
import MotionMidi.Decimal.Fraction

/-!
# Single precision numbers as decimal text

Reading rounds a decimal fraction once, to the nearest value. Writing gives the fewest digits
that read back: the coarsest grid of powers of ten on which a neighbour of the value reads back,
and on it the nearer neighbour, the upper one of two equally near.

## Main definitions

- `Binary32.ofDecimal` — the value nearest to a decimal fraction
- `Binary32.parse?` — reads a finite value
- `Binary32.shortest` — the decimal fraction with the fewest digits that reads back
- `Binary32.text` — positional text, without an exponent and without a point for whole numbers
-/

namespace MotionMidi.Binary32

/-- The magnitude nearest to `digits * 10 ^ exponent`. The bounds only keep the powers small: from
`10 ^ 39` on everything is infinite, and below `2 ^ -150` everything is zero. -/
def nearestDecimal (digits : Nat) (exponent : Int) : Magnitude :=
  if digits = 0 then zero
  else
    match exponent with
    | .ofNat e =>
      if 39 ≤ e then infinity else nearest (digits * 10 ^ e * unitsPerOne) 1
    | .negSucc e =>
      if digits.log2 + 151 ≤ 3 * (e + 1) then zero
      else nearest (digits * unitsPerOne) (10 ^ (e + 1))

/-- The value nearest to a decimal fraction; a fraction of zero keeps its sign. -/
def ofDecimal (d : Decimal) : Binary32 :=
  .number d.negative (nearestDecimal d.digits d.exponent)

/-- Reads a word as a decimal fraction whose nearest value is finite. -/
def parse? (word : List Char) : Option Binary32 :=
  ((Decimal.read? word).map ofDecimal).filter isFinite

/-- The neighbour of a magnitude on the grid of multiples of `10 ^ exponent` that reads back as
the magnitude; of two, the nearer one, and the upper one if both are equally near. -/
def gridNeighbour? (magnitude : Magnitude) (exponent : Int) : Option Nat :=
  let num := units magnitude * 10 ^ (-exponent).toNat
  let den := unitsPerOne * 10 ^ exponent.toNat
  let below := num / den
  let belowHits := nearestDecimal below exponent = magnitude
  let aboveHits := nearestDecimal (below + 1) exponent = magnitude
  if belowHits ∧ aboveHits then
    some (if 2 * (num % den) < den then below else below + 1)
  else if belowHits then some below
  else if aboveHits then some (below + 1)
  else none

/-- The grids of powers of ten, from the coarsest that holds a finite value to the finest that is
needed: every finite value is a multiple of `10 ^ -149`. -/
def grids : List Int :=
  (List.range 188).map fun (i : Nat) => 38 - (i : Int)

/-- The digits and the power of ten of the shortest decimal fraction that reads back as a finite
magnitude. -/
def shortest (magnitude : Magnitude) : Nat × Int :=
  if magnitude = zero then (0, 0)
  else
    match grids.findSome? fun e => (gridNeighbour? magnitude e).map (·, e) with
    | some found => found
    | none => (units magnitude * 5 ^ 149, -149)

/-- The text of a value. -/
def text : Binary32 → String
  | .nan => "NaN"
  | .number negative magnitude =>
    if magnitude = infinity then if negative then "-inf" else "inf"
    else
      let (digits, exponent) := shortest magnitude
      String.ofList (Decimal.write ⟨negative, digits, exponent⟩)

end MotionMidi.Binary32
