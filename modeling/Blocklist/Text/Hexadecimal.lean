/-!
# Hexadecimal digits

The values of hexadecimal digits in both cases, and the digits of a number in upper case.
-/

namespace Blocklist.Text

/-- The value of a hexadecimal digit. -/
def hexValue? (c : Char) : Option Nat :=
  if c.isDigit then some (c.toNat - 48)
  else if 'a' ≤ c && c ≤ 'f' then some (c.toNat - 87)
  else if 'A' ≤ c && c ≤ 'F' then some (c.toNat - 55)
  else none

/-- The number that hexadecimal digits stand for. -/
def hexNumber? (s : List Char) : Option Nat :=
  (s.mapM hexValue?).map fun values => values.foldl (fun n v => n * 16 + v) 0

/-- A number below 256 as two hexadecimal digits. -/
def hexPair (n : Nat) : List Char :=
  [Nat.digitChar (n / 16), Nat.digitChar (n % 16)].map Char.toUpper

end Blocklist.Text
