/-!
# Decimal numbers in texts

Reading a number from its decimal digits. A sign may stand in front, no blank may, and a number out
of its range is no number.

## Implementation notes

Digits are read up to a bound, so that a text of many digits takes no more than one step for each.
-/

namespace Blocklist.Text

/-- The number that digits of a base stand for, or `bound` if it is greater. -/
def numberUpTo (bound base : Nat) (digits : List Nat) : Nat :=
  digits.foldl (fun n digit => min bound (n * base + digit)) 0

/-- The number that decimal digits stand for, or `bound` if it is greater. -/
def decimalUpTo (bound : Nat) (s : List Char) : Nat :=
  numberUpTo bound 10 (s.map fun c => c.toNat - 48)

/-- The number from zero to `bound` that a non-empty text of digits stands for. -/
def digitsUpTo? (bound : Nat) (s : List Char) : Option Nat :=
  let n := decimalUpTo (bound + 1) s
  if !s.isEmpty && s.all Char.isDigit && n ≤ bound then some n else none

/-- A number from zero to `bound`, with or without a plus sign. -/
def natUpTo? (bound : Nat) (s : List Char) : Option Nat :=
  match s with
  | '+' :: r => digitsUpTo? bound r
  | r => digitsUpTo? bound r

/-- An integer of 64 bits, with or without a sign. -/
def int64? (s : List Char) : Option Int :=
  match s with
  | '-' :: r => (digitsUpTo? Int64.minValue.toInt.natAbs r).map fun n => -(n : Int)
  | '+' :: r => (digitsUpTo? Int64.maxValue.toInt.natAbs r).map fun n => (n : Int)
  | r => (digitsUpTo? Int64.maxValue.toInt.natAbs r).map fun n => (n : Int)

/-- A number written with at least `width` digits. -/
def padded (width n : Nat) : List Char :=
  let ds := Nat.toDigits 10 n
  List.replicate (width - ds.length) '0' ++ ds

end Blocklist.Text
