import MotionMidi.Power

/-!
# Decimal numerals

Natural numbers and integers written with ASCII digits.

## Main definitions

- `Numeral.write` — the digits of a natural number, without leading zeros
- `Numeral.value` — the number that a run of digits stands for
- `Numeral.integer?` — reads an optional sign and at least one digit

Main statement: `Numeral.value_write`, writing and reading agree.
-/

namespace MotionMidi.Numeral

/-- The character of a digit below ten. -/
def digit (n : Nat) : Char :=
  Char.ofNat ('0'.toNat + n)

/-- The number a digit stands for. -/
def digitValue (c : Char) : Nat :=
  c.toNat - '0'.toNat

/-- The digits of a number, most significant first. -/
def write (n : Nat) : List Char :=
  if n < 10 then [digit n] else write (n / 10) ++ [digit (n % 10)]
termination_by n
decreasing_by omega

/-- The digits of a number, as text. -/
def text (n : Nat) : String :=
  String.ofList (write n)

/-- The number that a run of digits stands for; no digits stand for zero. -/
def value (digits : List Char) : Nat :=
  digits.foldl (fun total c => 10 * total + digitValue c) 0

/-- Splits an optional sign off a word. The flag tells whether the sign is a minus. -/
def splitSign : List Char → Bool × List Char
  | '-' :: rest => (true, rest)
  | '+' :: rest => (false, rest)
  | word => (false, word)

/-- Reads a whole word as an integer: an optional sign and at least one digit. -/
def integer? (word : List Char) : Option Int :=
  let (negative, digits) := splitSign word
  if digits ≠ [] ∧ digits.all Char.isDigit then
    some (if negative then -(value digits : Int) else value digits)
  else none

theorem digitValue_digit {n : Nat} (h : n < 10) : digitValue (digit n) = n := by
  revert n
  decide

theorem isDigit_digit {n : Nat} (h : n < 10) : (digit n).isDigit = true := by
  revert n
  decide

theorem value_append_digit (digits : List Char) (c : Char) :
    value (digits ++ [c]) = 10 * value digits + digitValue c := by
  simp [value, List.foldl_append]

/-- Reading the written digits gives the number back. -/
@[simp] theorem value_write (n : Nat) : value (write n) = n := by
  induction n using Nat.strongRecOn with
  | ind n ih =>
    rw [write]
    split
    · next h => simp [value, digitValue_digit h]
    · next h =>
      rw [value_append_digit, ih (n / 10) (by omega),
        digitValue_digit (Nat.mod_lt n (by decide))]
      omega

@[simp] theorem write_ne_nil (n : Nat) : write n ≠ [] := by
  rw [write]
  split <;> simp

@[simp] theorem all_isDigit_write (n : Nat) : (write n).all Char.isDigit = true := by
  induction n using Nat.strongRecOn with
  | ind n ih =>
    rw [write]
    split
    · next h => simp [isDigit_digit h]
    · next h => simp [ih (n / 10) (by omega), isDigit_digit (Nat.mod_lt n (by decide))]

end MotionMidi.Numeral
