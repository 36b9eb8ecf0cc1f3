import Blocklist.Binary64.Shortest
import Blocklist.Json.Basic

/-!
# Writing JSON

Two layouts of one value: the compact one without any blank, and the one with a line for every item
and member, indented by two blanks for each level.

A string is written as it is, except for quotes, backslashes and control characters. A real number is
written with the fewest digits that read back: in positional notation while its first digit stands
between the fifth place after the point and the sixteenth before it, with an exponent and its sign
otherwise.

## Implementation notes

A printer appends to the text written so far. Lists are walked with that text as the only thing
carried on, so the depth of a call is the depth of the value.
-/

namespace Blocklist.Json

/-- The hexadecimal digit of a number below sixteen. -/
def hexDigit (n : Nat) : Char :=
  Char.ofNat (if n < 10 then 48 + n else 87 + n)

/-- The characters that stand for a character inside a string. -/
def escaped (c : Char) : List Char :=
  if c = '"' then ['\\', '"']
  else if c = '\\' then ['\\', '\\']
  else if c = '\n' then ['\\', 'n']
  else if c = '\r' then ['\\', 'r']
  else if c = '\t' then ['\\', 't']
  else if c = '\x08' then ['\\', 'b']
  else if c = '\x0c' then ['\\', 'f']
  else if c.toNat < 32 then ['\\', 'u', '0', '0', hexDigit (c.toNat / 16), hexDigit (c.toNat % 16)]
  else [c]

/-- Append characters to a text. -/
def append (out : String) (cs : List Char) : String :=
  cs.foldl String.push out

/-- Append a string in quotes. -/
def writeString (out : String) (s : String) : String :=
  (s.toList.foldl (fun out c => append out (escaped c)) (out.push '"')).push '"'

/-- The text of an integer. -/
def integerText (n : Int) : List Char :=
  if n < 0 then '-' :: Nat.toDigits 10 n.natAbs else Nat.toDigits 10 n.natAbs

/-- The text of an exponent, always with a sign. -/
def exponentText (n : Int) : List Char :=
  if n < 0 then integerText n else '+' :: integerText n

/-- The text of a decimal number that is not zero. -/
def decimalText (d : Binary64.Decimal) : List Char :=
  let digits := Nat.toDigits 10 d.digits
  let point : Int := digits.length + d.exponent
  if 0 ≤ d.exponent && point ≤ 16 then
    digits ++ List.replicate d.exponent.toNat '0' ++ ['.', '0']
  else if 0 < point && point ≤ 16 then
    digits.take point.toNat ++ '.' :: digits.drop point.toNat
  else if -5 < point && point ≤ 0 then
    '0' :: '.' :: List.replicate (-point).toNat '0' ++ digits
  else
    let fraction := if digits.length = 1 then [] else '.' :: digits.drop 1
    digits.take 1 ++ fraction ++ 'e' :: exponentText (point - 1)

/-- The text of a number. -/
def numeralText : Numeral → List Char
  | .integer n => integerText n
  | .real negative size =>
    let text := if size.mantissa = 0 then ['0', '.', '0'] else decimalText size.shortest
    if negative then '-' :: text else text

mutual

/-- Append a value in the compact layout. -/
def write (out : String) : Json → String
  | .null => out ++ "null"
  | .bool true => out ++ "true"
  | .bool false => out ++ "false"
  | .number n => append out (numeralText n)
  | .string s => writeString out s
  | .array [] => out ++ "[]"
  | .array (v :: rest) => (writeItems (write (out.push '[') v) rest).push ']'
  | .object [] => out ++ "\x7b\x7d"
  | .object ((k, v) :: rest) =>
    (writeMembers (write ((writeString (out.push '\x7b') k).push ':') v) rest).push '\x7d'
  | .unusable => out ++ "null"

/-- Append the items after the first. -/
def writeItems (out : String) : List Json → String
  | [] => out
  | v :: rest => writeItems (write (out.push ',') v) rest

/-- Append the members after the first. -/
def writeMembers (out : String) : List (String × Json) → String
  | [] => out
  | (k, v) :: rest => writeMembers (write ((writeString (out.push ',') k).push ':') v) rest

end

/-- A value in the compact layout. -/
def compact (v : Json) : String :=
  write "" v

/-- Append the start of a line at a level of indentation. -/
def newLine (out : String) (level : Nat) : String :=
  append (out.push '\n') (List.replicate (2 * level) ' ')

mutual

/-- Append a value in the indented layout, inside `level` arrays and objects. -/
def writeIndented (out : String) (level : Nat) : Json → String
  | .null => out ++ "null"
  | .bool true => out ++ "true"
  | .bool false => out ++ "false"
  | .number n => append out (numeralText n)
  | .string s => writeString out s
  | .array [] => out ++ "[]"
  | .array (v :: rest) =>
    let first := writeIndented (newLine (out.push '[') (level + 1)) (level + 1) v
    (newLine (writeIndentedItems first (level + 1) rest) level).push ']'
  | .object [] => out ++ "\x7b\x7d"
  | .object ((k, v) :: rest) =>
    let name := writeString (newLine (out.push '\x7b') (level + 1)) k ++ ": "
    let first := writeIndented name (level + 1) v
    (newLine (writeIndentedMembers first (level + 1) rest) level).push '\x7d'
  | .unusable => out ++ "null"

/-- Append the items after the first, each on a line. -/
def writeIndentedItems (out : String) (level : Nat) : List Json → String
  | [] => out
  | v :: rest =>
    writeIndentedItems (writeIndented (newLine (out.push ',') level) level v) level rest

/-- Append the members after the first, each on a line. -/
def writeIndentedMembers (out : String) (level : Nat) : List (String × Json) → String
  | [] => out
  | (k, v) :: rest =>
    let name := writeString (newLine (out.push ',') level) k ++ ": "
    writeIndentedMembers (writeIndented name level v) level rest

end

/-- A value in the indented layout. -/
def indented (v : Json) : String :=
  writeIndented "" 0 v

end Blocklist.Json
