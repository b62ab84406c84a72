import MotionMidi.Decimal.Numeral

/-!
# Decimal fractions

Signed decimal fractions, read from and written as text.

## Main definitions

- `Decimal` — a sign, a whole number of digits, and a power of ten
- `Decimal.read?` — reads digits with an optional point and an optional exponent
- `Decimal.write` — the positional text, without an exponent
-/

namespace MotionMidi

/-- The number `digits * 10 ^ exponent`, with a sign that zero has too. -/
structure Decimal where
  negative : Bool
  digits : Nat
  exponent : Int
  deriving DecidableEq, Repr

namespace Decimal

/-- Reads what follows the digits: nothing, or the letter `e` in either case and an integer. -/
def exponent? : List Char → Option Int
  | [] => some 0
  | 'e' :: word => Numeral.integer? word
  | 'E' :: word => Numeral.integer? word
  | _ :: _ => none

/-- Splits the digits after the point off a word, if it starts with a point. -/
def splitFraction : List Char → List Char × List Char
  | '.' :: rest => (rest.takeWhile Char.isDigit, rest.dropWhile Char.isDigit)
  | word => ([], word)

/-- Reads a whole word: an optional sign, digits with at most one point before, between or after
them, and an optional exponent. -/
def read? (word : List Char) : Option Decimal :=
  let (negative, body) := Numeral.splitSign word
  let whole := body.takeWhile Char.isDigit
  let (fraction, tail) := splitFraction (body.dropWhile Char.isDigit)
  if whole ++ fraction = [] then none
  else (exponent? tail).map fun exponent =>
    { negative
      digits := Numeral.value (whole ++ fraction)
      exponent := exponent - fraction.length }

/-- The digits of a number with a point in front of the last `places` of them, and at least one
digit in front of the point. -/
def writePlaces (digits places : Nat) : List Char :=
  let written := Numeral.write digits
  let padded := List.replicate (places + 1 - written.length) '0' ++ written
  padded.take (padded.length - places) ++ '.' :: padded.drop (padded.length - places)

/-- The text of a decimal fraction: a minus if it is negative, then its digits, with zeros up to
the point if the power of ten is not negative and with the point among them if it is. -/
def write (d : Decimal) : List Char :=
  let body :=
    match d.exponent with
    | .ofNat zeros => Numeral.write d.digits ++ List.replicate zeros '0'
    | .negSucc places => writePlaces d.digits (places + 1)
  if d.negative then '-' :: body else body

end Decimal

end MotionMidi
