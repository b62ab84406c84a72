import MotionMidi.Power

/-!
# Single precision numbers

The values of the 32-bit binary format, with exact arithmetic that rounds once.

A magnitude is stored as the number of representable magnitudes below it, so neighbouring
magnitudes differ by one and infinity is the last of them. The value of a magnitude is a whole
number of *units* of `2 ^ -149`, the distance between zero and the smallest positive value, and
every operation is a quotient of natural numbers counted in that unit.

## Main definitions

- `Binary32` — a signed magnitude, or the one undefined value `nan`
- `Binary32.units` — the value of a magnitude in units of `2 ^ -149`
- `Binary32.ofRatio` — the nearest value to a quotient of naturals, ties to the even neighbour
- `Binary32.add`, `sub`, `mul`, `div` — exact results, rounded once
- `Binary32.ofBits`, `toBits` — the interchange encoding

## Design notes

All undefined bit patterns are one value, whose encoding is `0x7fc00000`. The two zeros are
different values that compare equal. Infinity has the units that the format's pattern would give
it, `2 ^ 128` in value, which is exactly the threshold where rounding overflows.
-/

namespace MotionMidi

/-- The quotient of two naturals, rounded to the nearest; a half goes to the even neighbour. -/
def roundDiv (num den : Nat) : Nat :=
  if 2 * (num % den) < den then num / den
  else if den < 2 * (num % den) then num / den + 1
  else num / den + num / den % 2

/-- A magnitude, as the number of magnitudes below it. The last one is infinity. -/
abbrev Magnitude := Fin (0x7f800000 + 1)

/-- A single precision number: a signed magnitude, or undefined. -/
inductive Binary32 where
  | nan
  | number (negative : Bool) (magnitude : Magnitude)
  deriving DecidableEq, Repr

namespace Binary32

/-- The magnitude below every other. -/
def zero : Magnitude := ⟨0, Nat.zero_lt_succ _⟩

/-- The magnitude past every finite one. -/
def infinity : Magnitude := Fin.last 0x7f800000

/-- Units in one. -/
def unitsPerOne : Nat := 2 ^ 149

/-- The value, in units of `2 ^ -149`, of the magnitude with `steps` magnitudes below it. The
first `2 ^ 23` magnitudes are one unit apart; from there on the distance doubles with every
further block of `2 ^ 23` magnitudes. -/
def units (steps : Nat) : Nat :=
  if steps < 2 ^ 23 then steps else (2 ^ 23 + steps % 2 ^ 23) * 2 ^ (steps / 2 ^ 23 - 1)

/-- The magnitude nearest to `num / den` units, a half going to the even one. Values from the
middle of the last step on give infinity. -/
def nearest (num den : Nat) : Magnitude :=
  let shift := (num / den).log2 - 23
  let steps := shift * 2 ^ 23 + roundDiv num (den * 2 ^ shift)
  if h : steps < 0x7f800000 + 1 then ⟨steps, h⟩ else infinity

/-- The value nearest to `num / den` units, with the given sign. -/
def ofRatio (negative : Bool) (num den : Nat) : Binary32 :=
  .number negative (nearest num den)

/-- The value nearest to a natural number. -/
def ofNat (n : Nat) : Binary32 :=
  ofRatio false (n * unitsPerOne) 1

/-- Literals are read as the nearest value to the decimal fraction they write. -/
instance : OfScientific Binary32 where
  ofScientific digits fraction places :=
    if fraction then ofRatio false (digits * unitsPerOne) (10 ^ places)
    else ofNat (digits * 10 ^ places)

instance (n : Nat) : OfNat Binary32 n where
  ofNat := ofNat n

instance : Inhabited Binary32 where
  default := 0

/-- Neither undefined nor infinite. -/
def isFinite : Binary32 → Bool
  | .nan => false
  | .number _ magnitude => magnitude != infinity

/-- The position of a defined value on the number line, counted in magnitudes from zero. The two
zeros share a position. -/
def rank? : Binary32 → Option Int
  | .nan => none
  | .number true magnitude => some (-(magnitude.val : Int))
  | .number false magnitude => some magnitude.val

/-- The order of the number line. An undefined operand makes every comparison false. -/
def lt (a b : Binary32) : Bool :=
  match a.rank?, b.rank? with
  | some x, some y => x < y
  | _, _ => false

instance : LT Binary32 where
  lt a b := a.lt b = true

instance (a b : Binary32) : Decidable (a < b) :=
  inferInstanceAs (Decidable (a.lt b = true))

/-- Equality on the number line: the two zeros are equal, undefined equals nothing. -/
def same (a b : Binary32) : Bool :=
  match a.rank?, b.rank? with
  | some x, some y => x == y
  | _, _ => false

/-- The value of the opposite sign. -/
def neg : Binary32 → Binary32
  | .nan => .nan
  | .number negative magnitude => .number (!negative) magnitude

instance : Neg Binary32 where
  neg := neg

/-- A finite value in units, with its sign. -/
def signedUnits (negative : Bool) (magnitude : Magnitude) : Int :=
  if negative then -(units magnitude : Int) else units magnitude

/-- The sum. Opposite infinities have none; a sum of zero is negative only if both operands
are. -/
def add : Binary32 → Binary32 → Binary32
  | .number s a, .number t b =>
    if a = infinity then
      if b = infinity ∧ s ≠ t then .nan else .number s infinity
    else if b = infinity then .number t infinity
    else
      let total := signedUnits s a + signedUnits t b
      if total = 0 then .number (s && t) 0 else ofRatio (total < 0) total.natAbs 1
  | _, _ => .nan

instance : Add Binary32 where
  add := add

/-- The difference. -/
def sub (a b : Binary32) : Binary32 :=
  a + -b

instance : Sub Binary32 where
  sub := sub

/-- The product. Infinity times zero has none. -/
def mul : Binary32 → Binary32 → Binary32
  | .number s a, .number t b =>
    if a = infinity ∨ b = infinity then
      if a = 0 ∨ b = 0 then .nan else .number (s != t) infinity
    else ofRatio (s != t) (units a * units b) unitsPerOne
  | _, _ => .nan

instance : Mul Binary32 where
  mul := mul

/-- The quotient. Zero by zero and infinity by infinity have none; any other division by zero is
infinite. -/
def div : Binary32 → Binary32 → Binary32
  | .number s a, .number t b =>
    if a = infinity then
      if b = infinity then .nan else .number (s != t) infinity
    else if b = infinity then .number (s != t) 0
    else if b = 0 then
      if a = 0 then .nan else .number (s != t) infinity
    else ofRatio (s != t) (units a * unitsPerOne) (units b)
  | _, _ => .nan

instance : Div Binary32 where
  div := div

/-- The larger of two values; of a defined and an undefined one, the defined one. -/
def max (a b : Binary32) : Binary32 :=
  match a with
  | .nan => b
  | a => if a < b then b else a

/-- The nearest value between two bounds. Undefined stays undefined, and a zero keeps its
sign. -/
def clamp (low high x : Binary32) : Binary32 :=
  if x < low then low else if high < x then high else x

/-- The whole part as a natural number, at most `bound`. Negative and undefined values give
zero. -/
def truncate (bound : Nat) : Binary32 → Nat
  | .nan => 0
  | .number true _ => 0
  | .number false magnitude => min (units magnitude / unitsPerOne) bound

/-- The value with the given bits: the sign on top, then the magnitude. -/
def ofBits (bits : UInt32) : Binary32 :=
  if h : bits.toNat % 2 ^ 31 < 0x7f800000 + 1 then
    .number (decide (2 ^ 31 ≤ bits.toNat)) ⟨bits.toNat % 2 ^ 31, h⟩
  else .nan

/-- The bits of a value. -/
def toBits : Binary32 → UInt32
  | .nan => 0x7fc00000
  | .number negative magnitude =>
    UInt32.ofNat ((if negative then 2 ^ 31 else 0) + magnitude.val)

end Binary32

end MotionMidi
