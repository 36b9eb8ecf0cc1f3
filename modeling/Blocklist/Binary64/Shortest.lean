import Blocklist.Binary64.Basic

/-!
# The shortest decimal of a number

The fewest decimal digits that read back as a number of double precision, and of those the nearest
to it; of two that are equally near, the even one. The reals that round to a number form an interval
around it; the search asks, for one digit, two digits and so on, whether a point of that decimal grid
lies inside.

## Implementation notes

Everything is scaled to natural numbers by a common denominator. The interval reaches half way to
both neighbours, its ends count when the multiple is even, and below a power of two the lower
neighbour is only half as far.
-/

namespace Blocklist.Binary64

/-- A decimal number `digits * 10 ^ exponent`. -/
structure Decimal where
  /-- The digits as one number. -/
  digits : Nat
  /-- The power of ten of the last digit. -/
  exponent : Int
  deriving DecidableEq, Repr, Inhabited

/-- The greatest power of ten below one that a quotient reaches, as the number of its places. -/
def placesFrom (fuel places num den : Nat) : Nat :=
  match fuel with
  | 0 => places
  | fuel + 1 => if den ≤ num * Nat.pow 10 places then places else placesFrom fuel (places + 1) num den

/-- The greatest power of ten that is at most a positive quotient, as its exponent. -/
def floorLog10 (num den : Nat) : Int :=
  if den ≤ num then ((Nat.toDigits 10 (num / den)).length : Int) - 1
  else -(placesFrom 400 1 num den : Int)

/-- The point of the grid of multiples of `10 ^ exponent` that lies in the interval of `x`, the
nearer of the two next to `x`, or the even one if `x` lies half way between them. -/
def onGrid? (x : Binary64) (exponent : Int) : Option Decimal :=
  let m := x.mantissa
  let lowGap := if m = 1 <<< 52 && x.exponent != -1074 then 1 else 2
  let up := Nat.pow 10 (-exponent).toNat <<< (x.exponent - 2).toNat
  let down := Nat.pow 10 exponent.toNat <<< (2 - x.exponent).toNat
  let value := 4 * m * up
  let low := (4 * m - lowGap) * up
  let high := (4 * m + 2) * up
  let inside := fun (n : Nat) =>
    if m % 2 = 0 then low ≤ n * down && n * down ≤ high else low < n * down && n * down < high
  let below := value / down
  let above := below + 1
  let middle := (below + above) * down
  let prefersBelow := 2 * value < middle || (2 * value == middle && below % 2 == 0)
  if inside below && (prefersBelow || !inside above) then some ⟨below, exponent⟩
  else if inside above then some ⟨above, exponent⟩
  else none

/-- Try grids of more and more digits, from `digits` on. -/
def shortestFrom (fuel digits : Nat) (top : Int) (x : Binary64) : Decimal :=
  match fuel with
  | 0 => ⟨x.num / x.den, 0⟩
  | fuel + 1 =>
    match x.onGrid? (top + 1 - digits) with
    | some d => d
    | none => shortestFrom fuel (digits + 1) top x

/-- Take zeros off the end of the digits. -/
def Decimal.strip (fuel : Nat) (d : Decimal) : Decimal :=
  match fuel with
  | 0 => d
  | fuel + 1 =>
    if d.digits ≠ 0 && d.digits % 10 = 0 then (⟨d.digits / 10, d.exponent + 1⟩ : Decimal).strip fuel
    else d

/-- The shortest decimal that reads back as a positive number. -/
def shortest (x : Binary64) : Decimal :=
  (shortestFrom 17 1 (floorLog10 x.num x.den) x).strip 17

end Blocklist.Binary64
