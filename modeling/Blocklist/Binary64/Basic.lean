/-!
# Numbers of double precision

The non-negative numbers that a binary format of 64 bits holds, and rounding to the nearest of them.
A number is a whole multiple of a power of two; the multiple has at most 53 bits and the power is at
least -1074. A tie goes to the even multiple.

## Implementation notes

All arithmetic is on natural numbers: an operation works out its exact quotient and rounds it once.
The sign of a number is kept apart, where a number is used.
-/

namespace Blocklist

/-- The number `mantissa * 2 ^ exponent`. -/
structure Binary64 where
  /-- At most 53 bits, and 53 of them unless the exponent is least. -/
  mantissa : Nat
  /-- At least -1074 and at most 971. -/
  exponent : Int
  deriving DecidableEq, Repr, Inhabited

namespace Binary64

/-- Zero. -/
def zero : Binary64 :=
  ⟨0, -1074⟩

/-- The numerator of a number as a quotient of natural numbers. -/
def num (x : Binary64) : Nat :=
  x.mantissa <<< x.exponent.toNat

/-- The denominator of a number as a quotient of natural numbers. -/
def den (x : Binary64) : Nat :=
  1 <<< (-x.exponent).toNat

/-- The greatest power of two that is at most a positive quotient, as its exponent. -/
def floorLog2 (num den : Nat) : Int :=
  let k : Int := (num.log2 : Int) - (den.log2 : Int)
  if den <<< k.toNat ≤ num <<< (-k).toNat then k else k - 1

/-- Round a quotient half to even. -/
def roundHalfEven (num den : Nat) : Nat :=
  let q := num / den
  let r := num % den
  if den < 2 * r || (2 * r == den && q % 2 == 1) then q + 1 else q

/-- The number nearest to a quotient, unless the quotient lies beyond all of them. -/
def nearest? (num den : Nat) : Option Binary64 :=
  if num = 0 then some zero
  else
    let e := max (floorLog2 num den - 52) (-1074)
    let m := roundHalfEven (num <<< (-e).toNat) (den <<< e.toNat)
    let (m, e) := if m = 1 <<< 53 then (1 <<< 52, e + 1) else (m, e)
    if 971 < e then none else some ⟨m, e⟩

/-- The number nearest to a natural number. -/
def ofNat? (n : Nat) : Option Binary64 :=
  nearest? n 1

/-- The rounded product. -/
def mul? (x y : Binary64) : Option Binary64 :=
  nearest? (x.num * y.num) (x.den * y.den)

/-- The rounded quotient by a number that is not zero. -/
def div? (x y : Binary64) : Option Binary64 :=
  nearest? (x.num * y.den) (x.den * y.num)

/-- The nearest natural number, where a half goes up. -/
def round (x : Binary64) : Nat :=
  (2 * x.num + x.den) / (2 * x.den)

/-- Divide by `10 ^ 308` as long as the exponent is below the least power of ten, then scale by the
power that is left. Three divisions take any 64-bit number to zero, which bounds `fuel`. -/
def scaleFrom? (fuel : Nat) (x : Binary64) (exponent : Int) : Option Binary64 :=
  if exponent.natAbs ≤ 308 then do
    let power ← ofNat? (Nat.pow 10 exponent.natAbs)
    if 0 ≤ exponent then x.mul? power else x.div? power
  else if x.mantissa = 0 then some x
  else if 0 ≤ exponent then none
  else
    match fuel with
    | 0 => some zero
    | fuel + 1 => do
      let power ← ofNat? (Nat.pow 10 308)
      let y ← x.div? power
      scaleFrom? fuel y (exponent + 308)

/-- The number read for `significand * 10 ^ exponent`: the significand is rounded first and scaled
after, so the result may be a neighbour of the nearest number. -/
def ofDecimal? (significand : Nat) (exponent : Int) : Option Binary64 := do
  let x ← ofNat? significand
  scaleFrom? 4 x exponent

end Binary64

end Blocklist
