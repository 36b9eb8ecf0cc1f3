import Blocklist.Json.Basic
import Blocklist.Text.Decimal
import Blocklist.Text.Hexadecimal
import Blocklist.Text.Utf8

/-!
# Reading JSON

The value of a JSON text, or nothing if the text is not well formed. Blanks are spaces, tabs and the
two line characters; a text holds one value and nothing else but blanks.

A number is read digit by digit into 64 bits. Digits that no longer fit are dropped, those before the
point with a power of ten in their place.

## Implementation notes

A reader returns the value and the rest of the text. Every call and every further item takes at least
one character, so the length of the text is enough fuel.
-/

namespace Blocklist.Json

/-- A blank of a JSON text. -/
def isSpace (c : Char) : Bool :=
  c == ' ' || c == '\n' || c == '\t' || c == '\r'

/-- The text without the blanks it starts with. -/
def skipSpace (s : List Char) : List Char :=
  s.dropWhile isSpace

/-- The first half of a surrogate pair. -/
def isHighSurrogate (n : Nat) : Bool :=
  0xD800 ≤ n && n ≤ 0xDBFF

/-- The second half of a surrogate pair. -/
def isLowSurrogate (n : Nat) : Bool :=
  0xDC00 ≤ n && n ≤ 0xDFFF

/-- The character that an escape of one letter stands for. -/
def shortEscape? (c : Char) : Option Char :=
  match c with
  | '"' => some '"'
  | '\\' => some '\\'
  | '/' => some '/'
  | 'b' => some '\x08'
  | 'f' => some '\x0c'
  | 'n' => some '\n'
  | 'r' => some '\r'
  | 't' => some '\t'
  | _ => none

/-- The second half of a surrogate pair, given as the digits of its escape. -/
def lowHalf? (a b c d : Char) : Option Nat :=
  (Text.hexNumber? [a, b, c, d]).filter isLowSurrogate

/-- Read the characters of a string up to its closing quote. The characters before stand in `done`,
last one first; `whole` tells whether every escape so far stands for a character. -/
def readString (done : List Char) (whole : Bool) : List Char → Option (Option String × List Char)
  | [] => none
  | '"' :: rest => some (if whole then some (String.ofList done.reverse) else none, rest)
  | '\\' :: 'u' :: a :: b :: c :: d :: rest =>
    match Text.hexNumber? [a, b, c, d] with
    | none => none
    | some n =>
      if isHighSurrogate n then
        match rest with
        | '\\' :: 'u' :: e :: f :: g :: h :: rest' =>
          match lowHalf? e f g h with
          | some m =>
            readString (Char.ofNat (0x10000 + (n - 0xD800) * 1024 + (m - 0xDC00)) :: done) whole rest'
          | none => readString done false ('\\' :: 'u' :: e :: f :: g :: h :: rest')
        | rest => readString done false rest
      else if isLowSurrogate n then readString done false rest
      else readString (Char.ofNat n :: done) whole rest
  | '\\' :: c :: rest =>
    match shortEscape? c with
    | some e => readString (e :: done) whole rest
    | none => none
  | c :: rest => if c = '\\' || c.toNat < 32 then none else readString (c :: done) whole rest

/-- Digits read into 64 bits: the number they give, and how many did not fit. -/
structure Digits where
  value : Nat
  dropped : Nat
  deriving Repr

/-- Add a digit, unless one before did not fit or this one does not. -/
def Digits.push (ds : Digits) (c : Char) : Digits :=
  let next := ds.value * 10 + (c.toNat - 48)
  if ds.dropped = 0 && next < UInt64.size then { ds with value := next }
  else { ds with dropped := ds.dropped + 1 }

/-- The number written with these digits before and after the point and this exponent. -/
def realOf? (negative : Bool) (whole fraction : List Char) (exponent : Int) : Option Numeral :=
  let before := whole.foldl Digits.push ⟨0, 0⟩
  let after := fraction.foldl Digits.push ⟨before.value, 0⟩
  let places : Int := (fraction.length - after.dropped : Nat)
  (Binary64.ofDecimal? after.value (exponent + before.dropped - places)).map (.real negative ·)

/-- The number written with these digits and neither point nor exponent. -/
def integerOf? (negative : Bool) (whole : List Char) : Option Numeral :=
  let n := Text.decimalUpTo UInt64.size whole
  if negative then
    if n ≠ 0 && Int64.minValue.toInt ≤ -n then some (.integer (-n)) else realOf? true whole [] 0
  else if n < UInt64.size then some (.integer n)
  else realOf? false whole [] 0

/-- Split off the digits a text starts with. -/
def spanDigits (s : List Char) : List Char × List Char :=
  s.span Char.isDigit

/-- The greatest exponent that is told apart. No text has the digits to make up for a greater one. -/
def maxExponent : Nat := 1 <<< 40

/-- Read the exponent of a number, if there is one. -/
def readExponent? (s : List Char) : Option (Option Int × List Char) :=
  match s with
  | c :: rest =>
    if c = 'e' || c = 'E' then
      let (negative, body) := match rest with
        | '-' :: r => (true, r)
        | '+' :: r => (false, r)
        | r => (false, r)
      let (ds, rest) := spanDigits body
      if ds.isEmpty then none
      else
        let n : Int := Text.decimalUpTo maxExponent ds
        some (some (if negative then -n else n), rest)
    else some (none, s)
  | [] => some (none, s)

/-- Read a number after its sign. -/
def readNumber? (negative : Bool) (s : List Char) : Option (Json × List Char) := do
  let (whole, rest) := spanDigits s
  guard (!whole.isEmpty && (whole.length == 1 || whole.head? != some '0'))
  let (fraction, rest) ← match rest with
    | '.' :: r =>
      let (ds, r') := spanDigits r
      if ds.isEmpty then none else some (some ds, r')
    | r => some (none, r)
  let (exponent, rest) ← readExponent? rest
  let numeral := match fraction, exponent with
    | none, none => integerOf? negative whole
    | _, _ => realOf? negative whole (fraction.getD []) (exponent.getD 0)
  return (match numeral with | some n => .number n | none => .unusable, rest)

mutual

/-- Read a value. -/
def readValue (fuel : Nat) (s : List Char) : Option (Json × List Char) :=
  match fuel with
  | 0 => none
  | fuel + 1 =>
    match skipSpace s with
    | '"' :: r =>
      (readString [] true r).map fun (text, rest) =>
        (match text with | some t => .string t | none => .unusable, rest)
    | '[' :: r =>
      match skipSpace r with
      | ']' :: rest => some (.array [], rest)
      | _ => readItems fuel [] r
    | '\x7b' :: r =>
      match skipSpace r with
      | '\x7d' :: rest => some (.object [], rest)
      | _ => readMembers fuel [] true r
    | 't' :: 'r' :: 'u' :: 'e' :: rest => some (.bool true, rest)
    | 'f' :: 'a' :: 'l' :: 's' :: 'e' :: rest => some (.bool false, rest)
    | 'n' :: 'u' :: 'l' :: 'l' :: rest => some (.null, rest)
    | '-' :: r => readNumber? true r
    | r => readNumber? false r

/-- Read the items of an array from the next item on. -/
def readItems (fuel : Nat) (done : List Json) (s : List Char) : Option (Json × List Char) :=
  match fuel with
  | 0 => none
  | fuel + 1 =>
    match readValue fuel s with
    | none => none
    | some (v, rest) =>
      match skipSpace rest with
      | ',' :: r => readItems fuel (v :: done) r
      | ']' :: r => some (.array (v :: done).reverse, r)
      | _ => none

/-- Read the members of an object from the next member on. -/
def readMembers (fuel : Nat) (done : List (String × Json)) (whole : Bool) (s : List Char) :
    Option (Json × List Char) :=
  match fuel with
  | 0 => none
  | fuel + 1 =>
    match skipSpace s with
    | '"' :: r =>
      match readString [] true r with
      | none => none
      | some (name, rest) =>
        match skipSpace rest with
        | ':' :: r =>
          match readValue fuel r with
          | none => none
          | some (v, rest) =>
            let done := (name.getD "", v) :: done
            let whole := whole && name.isSome
            match skipSpace rest with
            | ',' :: r => readMembers fuel done whole r
            | '\x7d' :: r => some (if whole then .object done.reverse else .unusable, r)
            | _ => none
        | _ => none
    | _ => none

end

/-- The value of a text, with the members of its objects as they are written. -/
def ofChars? (s : List Char) : Option Json :=
  match readValue (s.length + 1) s with
  | some (v, rest) => if (skipSpace rest).isEmpty then some v else none
  | none => none

/-- The value of a text, with the members of its objects as they are written. -/
def ofText? (s : String) : Option Json :=
  ofChars? s.toList

/-- The characters of a text that is given by its octets. Where they encode none stands a letter before
an escape for half of a surrogate pair, which is well formed inside a string alone. -/
def charsOfOctets (octets : List UInt8) : List Char :=
  (Text.Utf8.scan octets).flatMap fun unit =>
    match unit with
    | some c => [c]
    | none => ['x', '\\', 'u', 'd', 'c', '0', '0']

/-- The value of a text that is given by its octets. A string with octets that encode no character
becomes unusable. -/
def ofOctets? (octets : List UInt8) : Option Json :=
  ofChars? (charsOfOctets octets)

/-- The merged value of a text whose parts all stand for something and do not nest too deep. -/
def valueOf? (s : String) : Option Json :=
  (ofText? s).bind fun v => if v.fitsDepth maxDepth && v.isUsable then some v.merged else none

end Blocklist.Json
