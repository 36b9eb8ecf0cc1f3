/-!
# UTF-8

The characters that a sequence of octets encodes. Where the octets encode none, the longest start of
a character that stands there counts as one flaw, so a lossy reading shows one replacement character
for it and goes on after it.
-/

namespace Blocklist.Text.Utf8

/-- The octets a character may continue with. -/
def isTail (b : UInt8) : Bool :=
  0x80 ≤ b && b ≤ 0xBF

/-- The second octets allowed after the first octet of a character of three octets. -/
def isSecondOfThree (a b : UInt8) : Bool :=
  if a == 0xE0 then 0xA0 ≤ b && b ≤ 0xBF
  else if a == 0xED then 0x80 ≤ b && b ≤ 0x9F
  else isTail b

/-- The second octets allowed after the first octet of a character of four octets. -/
def isSecondOfFour (a b : UInt8) : Bool :=
  if a == 0xF0 then 0x90 ≤ b && b ≤ 0xBF
  else if a == 0xF4 then 0x80 ≤ b && b ≤ 0x8F
  else isTail b

/-- The six bits that a continuing octet carries. -/
def low (b : UInt8) : Nat :=
  b.toNat % 64

/-- Read octets in order; `none` stands for a flaw. What is already read is in `done`, last first. -/
def scanFrom (done : List (Option Char)) : List UInt8 → List (Option Char)
  | [] => done.reverse
  | a :: s =>
    if a < 0x80 then scanFrom (some (Char.ofNat a.toNat) :: done) s
    else if 0xC2 ≤ a && a ≤ 0xDF then
      match s with
      | b :: t =>
        if isTail b then scanFrom (some (Char.ofNat ((a.toNat % 32) * 64 + low b)) :: done) t
        else scanFrom (none :: done) (b :: t)
      | [] => (none :: done).reverse
    else if 0xE0 ≤ a && a ≤ 0xEF then
      match s with
      | b :: t =>
        if isSecondOfThree a b then
          match t with
          | c :: u =>
            if isTail c then
              scanFrom (some (Char.ofNat ((a.toNat % 16) * 4096 + low b * 64 + low c)) :: done) u
            else scanFrom (none :: done) (c :: u)
          | [] => (none :: done).reverse
        else scanFrom (none :: done) (b :: t)
      | [] => (none :: done).reverse
    else if 0xF0 ≤ a && a ≤ 0xF4 then
      match s with
      | b :: t =>
        if isSecondOfFour a b then
          match t with
          | c :: u =>
            if isTail c then
              match u with
              | d :: v =>
                if isTail d then
                  scanFrom (some (Char.ofNat
                    ((a.toNat % 8) * 262144 + low b * 4096 + low c * 64 + low d)) :: done) v
                else scanFrom (none :: done) (d :: v)
              | [] => (none :: done).reverse
            else scanFrom (none :: done) (c :: u)
          | [] => (none :: done).reverse
        else scanFrom (none :: done) (b :: t)
      | [] => (none :: done).reverse
    else scanFrom (none :: done) s

/-- The characters that octets encode, with `none` for every flaw. -/
def scan (octets : List UInt8) : List (Option Char) :=
  scanFrom [] octets

/-- The text that octets encode, if they are free of flaws. -/
def decode? (octets : List UInt8) : Option (List Char) :=
  let units := scan octets
  if units.all Option.isSome then some (units.filterMap id) else none

/-- The text that octets encode, with a replacement character for every flaw. -/
def decodeLossy (octets : List UInt8) : List Char :=
  (scan octets).map fun unit => unit.getD '\uFFFD'

end Blocklist.Text.Utf8
