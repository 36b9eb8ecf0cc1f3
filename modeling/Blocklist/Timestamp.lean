import Blocklist.Json.Codec
import Blocklist.Text.Blank
import Blocklist.Text.Decimal

/-!
# Points in time

A date and a time of day in UTC, down to the nanosecond, and its text: `2019-05-06T07:08:09Z`, with
three, six or nine places of a second where they are needed. A leap second is the second 60.

A text may name another offset from UTC, and it is read leniently: blanks may stand between its
parts, `t` or a blank may stand between date and time, a sign may stand before the year.

## Implementation notes

A point is kept by its parts, so writing it and reading it back never leaves the calendar. Only an
offset other than zero counts days.
-/

namespace Blocklist

/-- Whether a year of the Gregorian calendar has a 29th of February. -/
def isLeapYear (year : Int) : Bool :=
  year % 4 == 0 && (year % 100 != 0 || year % 400 == 0)

/-- The number of days of a month. -/
def daysInMonth (year : Int) (month : Nat) : Nat :=
  if month = 2 then (if isLeapYear year then 29 else 28)
  else if month = 4 || month = 6 || month = 9 || month = 11 then 30
  else 31

/-- The parts of a point in time are in their ranges. -/
def isPointInTime (year : Int) (month day hour minute second nano : Nat) : Prop :=
  -262143 ≤ year ∧ year ≤ 262142 ∧ 1 ≤ month ∧ month ≤ 12 ∧ 1 ≤ day ∧ day ≤ daysInMonth year month ∧
    hour < 24 ∧ minute < 60 ∧ second ≤ 60 ∧ nano < 1000000000

instance (year : Int) (month day hour minute second nano : Nat) :
    Decidable (isPointInTime year month day hour minute second nano) := by
  unfold isPointInTime; infer_instance

/-- A point in time, in UTC. -/
structure Timestamp where
  year : Int
  month : Nat
  day : Nat
  hour : Nat
  minute : Nat
  second : Nat
  nano : Nat
  /-- All parts are in their ranges. -/
  valid : isPointInTime year month day hour minute second nano
  deriving DecidableEq, Repr

namespace Timestamp

instance : Inhabited Timestamp :=
  ⟨⟨1970, 1, 1, 0, 0, 0, 0, by decide⟩⟩

/-- The point with these parts, if they are in their ranges. -/
def ofParts? (year : Int) (month day hour minute second nano : Nat) : Option Timestamp :=
  if h : isPointInTime year month day hour minute second nano then
    some ⟨year, month, day, hour, minute, second, nano, h⟩
  else none

/-- The text of a year: four digits, and a sign for a year that has not four. -/
def yearText (year : Int) : List Char :=
  if 0 ≤ year ∧ year ≤ 9999 then Text.padded 4 year.toNat
  else if year < 0 then '-' :: Text.padded 4 year.natAbs
  else '+' :: Text.padded 4 year.natAbs

/-- The text of the part of a second: no, three, six or nine places. -/
def nanoText (nano : Nat) : List Char :=
  if nano = 0 then []
  else if nano % 1000000 = 0 then '.' :: Text.padded 3 (nano / 1000000)
  else if nano % 1000 = 0 then '.' :: Text.padded 6 (nano / 1000)
  else '.' :: Text.padded 9 nano

/-- The text of a point in time. -/
def toChars (t : Timestamp) : List Char :=
  yearText t.year ++ '-' :: Text.padded 2 t.month ++ '-' :: Text.padded 2 t.day ++
    'T' :: Text.padded 2 t.hour ++ ':' :: Text.padded 2 t.minute ++ ':' :: Text.padded 2 t.second ++
    nanoText t.nano ++ ['Z']

/-- The text of a point in time. -/
def toText (t : Timestamp) : String :=
  String.ofList t.toChars

/-- The text of a point in time to the minute, for people to read. -/
def toMinuteText (t : Timestamp) : String :=
  String.ofList (yearText t.year ++ '-' :: Text.padded 2 t.month ++ '-' :: Text.padded 2 t.day ++
    ' ' :: Text.padded 2 t.hour ++ ':' :: Text.padded 2 t.minute) ++ " UTC"

/-- The number of days from the first of March of the year zero. -/
def dayNumber (year : Int) (month day : Nat) : Int :=
  let y := if month ≤ 2 then year - 1 else year
  let m : Int := if month ≤ 2 then month + 9 else month - 3
  365 * y + y.fdiv 4 - y.fdiv 100 + y.fdiv 400 + (153 * m + 2) / 5 + day - 1

/-- Year, month and day of a day number. -/
def ofDayNumber (n : Int) : Int × Nat × Nat :=
  let era := n.fdiv 146097
  let doe := n - era * 146097
  let yoe := (doe - doe / 1460 + doe / 36524 - doe / 146096) / 365
  let doy := doe - (365 * yoe + yoe / 4 - yoe / 100)
  let mp := (5 * doy + 2) / 153
  let day := doy - (153 * mp + 2) / 5 + 1
  let month := if mp < 10 then mp + 3 else mp - 9
  let year := yoe + era * 400 + if month ≤ 2 then 1 else 0
  (year, month.toNat, day.toNat)

/-- The point so many seconds after the start of the year 1970, and a part of a second. -/
def ofSeconds? (seconds : Int) (nano : Nat) : Option Timestamp :=
  let (year, month, day) := ofDayNumber (dayNumber 1970 1 1 + seconds.fdiv 86400)
  let rest := (seconds.fmod 86400).toNat
  ofParts? year month day (rest / 3600) (rest / 60 % 60) (rest % 60) nano

/-- The point that a clock ahead of UTC by `offset` minutes shows as `t`. -/
def behind? (offset : Int) (t : Timestamp) : Option Timestamp :=
  if offset = 0 then some t
  else
    let minutes := (t.hour * 60 + t.minute : Int) - offset
    let days := dayNumber t.year t.month t.day + minutes.fdiv 1440
    let rest := (minutes.fmod 1440).toNat
    let (year, month, day) := ofDayNumber days
    ofParts? year month day (rest / 60) (rest % 60) t.second t.nano

/-- Read a number of at most `width` digits, after blanks. -/
def number? (width : Nat) (s : List Char) : Option (Nat × List Char) :=
  let s := Text.trimStart s
  let ds := (s.take width).takeWhile Char.isDigit
  if ds.isEmpty then none else some (Nat.ofDigitChars 10 ds 0, s.drop ds.length)

/-- Read a year: a sign and digits, or at most four digits. -/
def year? (s : List Char) : Option (Int × List Char) :=
  match Text.trimStart s with
  | '-' :: r => (digitsNow r).map fun (n, rest) => (-(n : Int), rest)
  | '+' :: r => (digitsNow r).map fun (n, rest) => ((n : Int), rest)
  | r => (number? 4 r).map fun (n, rest) => ((n : Int), rest)
where
  digitsNow (r : List Char) : Option (Nat × List Char) :=
    let ds := r.takeWhile Char.isDigit
    if ds.isEmpty then none
    else (Text.digitsUpTo? Int64.maxValue.toInt.natAbs ds).map fun n => (n, r.drop ds.length)

/-- Read a mark, after blanks. -/
def mark? (c : Char) (s : List Char) : Option (List Char) :=
  match Text.trimStart s with
  | d :: r => if d = c then some r else none
  | [] => none

/-- Read the places of a second, if a point follows. Places after the ninth are dropped. -/
def places? (s : List Char) : Option (Nat × List Char) :=
  match s with
  | '.' :: r =>
    let ds := (r.take 9).takeWhile Char.isDigit
    if ds.isEmpty then none
    else
      let n := Nat.ofDigitChars 10 ds 0 * Nat.pow 10 (9 - ds.length)
      some (n, (r.drop ds.length).dropWhile Char.isDigit)
  | _ => some (0, s)

/-- Read the sign of an offset. -/
def offsetSign? (s : List Char) : Option (Int × List Char) :=
  match s with
  | '+' :: r => some (1, r)
  | '-' :: r => some (-1, r)
  | '\u2212' :: r => some (-1, r)
  | _ => none

/-- Read two digits at once. -/
def twoDigits? (s : List Char) : Option (Nat × List Char) :=
  match s with
  | a :: b :: r =>
    if a.isDigit && b.isDigit then some (Nat.ofDigitChars 10 [a, b] 0, r) else none
  | _ => none

/-- Read an offset from UTC in minutes. -/
def offset? (s : List Char) : Option (Int × List Char) :=
  match s with
  | 'Z' :: r => some (0, r)
  | 'z' :: r => some (0, r)
  | u :: t :: c :: r =>
    if [u, t, c].map Char.toLower == ['u', 't', 'c'] then some (0, r) else signed s
  | _ => signed s
where
  signed (s : List Char) : Option (Int × List Char) := do
    let (sign, s) ← offsetSign? s
    let (hours, s) ← twoDigits? s
    let s := s.dropWhile fun c => c == ':' || Text.isBlank c
    let (minutes, s) ← twoDigits? s
    guard (minutes < 60 && hours < 24)
    return (sign * (hours * 60 + minutes), s)

/-- The point in time that a text names. -/
def ofChars? (s : List Char) : Option Timestamp := do
  let (year, s) ← year? s
  let s ← mark? '-' s
  let (month, s) ← number? 2 s
  let s ← mark? '-' s
  let (day, s) ← number? 2 s
  let s ← match s with
    | c :: r => if c = 'T' || c = 't' || c = ' ' then some r else none
    | [] => none
  let (hour, s) ← number? 2 s
  let s ← mark? ':' s
  let (minute, s) ← number? 2 s
  let s ← mark? ':' s
  let (second, s) ← number? 2 s
  let (nano, s) ← places? s
  let (offset, s) ← offset? (Text.trimStart s)
  guard (Text.trimStart s).isEmpty
  let t ← ofParts? year month day hour minute second nano
  t.behind? offset

/-- The point in time that a text names. -/
def ofText? (s : String) : Option Timestamp :=
  ofChars? s.toList

instance : JsonCodec Timestamp where
  encode t := .string t.toText
  decode?
    | .string s => ofText? s
    | _ => none

end Timestamp

end Blocklist
