import Blocklist.Binary64.Basic
import Blocklist.Text.Decimal
import Blocklist.Text.Hexadecimal
import Blocklist.Toml.Table

/-!
# Reading TOML

The tables of a TOML document, or nothing if it is not well formed. Every value is checked in full,
also one that no setting takes: dates name days of the calendar, a float that is not negative lies
within double precision, and an inline table sets no key twice.

## Implementation notes

A reader returns what it read and the rest of the text. Every line, key and value takes at least one
character, so the length of the text is enough fuel, which is taken once and handed down. Arrays and
inline tables nest up to a fixed depth, and a key has a bounded number of parts.
-/

namespace Blocklist.Toml

/-- The deepest nesting of arrays and inline tables, and the most parts of a key. -/
def maxDepth : Nat := 79

/-- A blank within a line. -/
def isSpace (c : Char) : Bool :=
  c == ' ' || c == '\t'

/-- The text without the blanks it starts with. -/
def skipSpace (s : List Char) : List Char :=
  s.dropWhile isSpace

/-- A character that may stand in comments and strings as it is. -/
def isPlain (c : Char) : Bool :=
  c == '\t' || (32 ≤ c.toNat && c.toNat ≠ 127)

/-- What follows the end of a line that stands in front. -/
def newline? : List Char → Option (List Char)
  | '\n' :: r => some r
  | '\r' :: '\n' :: r => some r
  | _ => none

/-- What follows a line of which only blanks and a comment are left. -/
def endLine? (s : List Char) : Option (List Char) :=
  let s := match skipSpace s with
    | '#' :: r => r.dropWhile isPlain
    | r => r
  if s.isEmpty then some [] else newline? s

/-- What follows blanks, comments and ends of lines. -/
def skipLines (fuel : Nat) (s : List Char) : Option (List Char) :=
  match fuel with
  | 0 => none
  | fuel + 1 =>
    match skipSpace s with
    | '#' :: r => (newline? (r.dropWhile isPlain)).bind (skipLines fuel)
    | r =>
      match newline? r with
      | some r => skipLines fuel r
      | none => some r

/-- The character whose number is given by hexadecimal digits. -/
def scalar? (width : Nat) (s : List Char) : Option Char :=
  let ds := s.take width
  if ds.length < width then none
  else (Text.hexNumber? ds).bind fun n =>
    if n < 0xD800 || (0xDFFF < n && n < 0x110000) then some (Char.ofNat n) else none

/-- The character of an escape, and how many characters it takes after its backslash. -/
def escape? : List Char → Option (Char × Nat)
  | 'b' :: _ => some ('\x08', 1)
  | 'f' :: _ => some ('\x0c', 1)
  | 'n' :: _ => some ('\n', 1)
  | 'r' :: _ => some ('\r', 1)
  | 't' :: _ => some ('\t', 1)
  | '"' :: _ => some ('"', 1)
  | '\\' :: _ => some ('\\', 1)
  | 'u' :: r => (scalar? 4 r).map fun c => (c, 5)
  | 'U' :: r => (scalar? 8 r).map fun c => (c, 9)
  | _ => none

/-- Read a string in quotes up to its end; `done` holds what was read, last character first. -/
def readQuoted (done : List Char) : List Char → Option (String × List Char)
  | [] => none
  | '"' :: r => some (String.ofList done.reverse, r)
  | '\\' :: r =>
    match escape? r with
    | some (c, n) => readQuoted (c :: done) (r.drop n)
    | none => none
  | c :: r => if isPlain c then readQuoted (c :: done) r else none
termination_by s => s.length
decreasing_by all_goals (simp only [List.length_drop, List.length_cons]; omega)

/-- Read a string in apostrophes up to its end. -/
def readLiteral (done : List Char) : List Char → Option (String × List Char)
  | [] => none
  | '\'' :: r => some (String.ofList done.reverse, r)
  | c :: r => if isPlain c then readLiteral (c :: done) r else none

/-- Read a string in three quotes up to its end, which may have two more quotes in front. After a
backslash at the end of a line, `joining` tells that blanks and line ends are left out. -/
def readQuotedLines (done : List Char) (joining : Bool) : List Char → Option (String × List Char)
  | [] => none
  | '"' :: '"' :: '"' :: '"' :: '"' :: r =>
    some (String.ofList ('"' :: '"' :: done).reverse, r)
  | '"' :: '"' :: '"' :: '"' :: r => some (String.ofList ('"' :: done).reverse, r)
  | '"' :: '"' :: '"' :: r => some (String.ofList done.reverse, r)
  | '\\' :: r =>
    if (newline? (skipSpace r)).isSome then readQuotedLines done true r
    else
      match escape? r with
      | some (c, n) => readQuotedLines (c :: done) false (r.drop n)
      | none => none
  | '\r' :: '\n' :: r => readQuotedLines (if joining then done else '\n' :: done) joining r
  | c :: r =>
    if joining && (isSpace c || c == '\n') then readQuotedLines done true r
    else if isPlain c || c == '\n' then readQuotedLines (c :: done) false r
    else none
termination_by s => s.length
decreasing_by all_goals (simp only [List.length_drop, List.length_cons]; omega)

/-- Read a string in three apostrophes up to its end. -/
def readLiteralLines (done : List Char) : List Char → Option (String × List Char)
  | [] => none
  | '\'' :: '\'' :: '\'' :: '\'' :: '\'' :: r =>
    some (String.ofList ('\'' :: '\'' :: done).reverse, r)
  | '\'' :: '\'' :: '\'' :: '\'' :: r => some (String.ofList ('\'' :: done).reverse, r)
  | '\'' :: '\'' :: '\'' :: r => some (String.ofList done.reverse, r)
  | '\r' :: '\n' :: r => readLiteralLines ('\n' :: done) r
  | c :: r => if isPlain c || c == '\n' then readLiteralLines (c :: done) r else none

/-- What follows the end of the line that a string in three marks may begin with. -/
def dropNewline (s : List Char) : List Char :=
  (newline? s).getD s

/-- Read one part of a key. -/
def readKeyPart (s : List Char) : Option (String × List Char) :=
  match s with
  | '"' :: r => readQuoted [] r
  | '\'' :: r => readLiteral [] r
  | s =>
    let (name, rest) := s.span fun c => c.isAlphanum || c == '_' || c == '-'
    if name.isEmpty then none else some (String.ofList name, rest)

/-- Read the parts of a key with the blanks around them. -/
def readKeyParts (fuel : Nat) (s : List Char) : Option (List String × List Char) :=
  match fuel with
  | 0 => none
  | fuel + 1 =>
    match readKeyPart (skipSpace s) with
    | none => none
    | some (name, rest) =>
      match skipSpace rest with
      | '.' :: r => (readKeyParts fuel r).map fun (names, rest) => (name :: names, rest)
      | r => some ([name], r)

/-- Read a key: the path to its table, and its name there. -/
def readKey (fuel : Nat) (s : List Char) : Option ((List String × String) × List Char) :=
  match readKeyParts fuel s with
  | some (parts, rest) =>
    if maxDepth < parts.length then none
    else parts.getLast?.map fun key => ((parts.dropLast, key), rest)
  | none => none

/-- Read digits that may have single underscores between them. -/
def readDigits (isDigit : Char → Bool) (done : List Char) :
    List Char → Option (List Char × List Char)
  | '_' :: c :: r => if isDigit c && !done.isEmpty then readDigits isDigit (c :: done) r else none
  | ['_'] => none
  | c :: r =>
    if isDigit c then readDigits isDigit (c :: done) r
    else if done.isEmpty then none else some (done.reverse, c :: r)
  | [] => if done.isEmpty then none else some (done.reverse, [])

/-- The value of an integer in range. -/
def integer? (n : Int) : Option Value :=
  if Int64.minValue.toInt ≤ n ∧ n ≤ Int64.maxValue.toInt then some (.integer n) else none

/-- Read an integer after the mark of its base. -/
def readBased (base : Nat) (s : List Char) : Option (Value × List Char) := do
  let (ds, rest) ← readDigits (fun c => (Text.hexValue? c).any (· < base)) [] s
  let values ← ds.mapM Text.hexValue?
  let v ← integer? (Text.numberUpTo UInt64.size base values)
  return (v, rest)

/-- The number of places before the point that the greatest numbers of double precision have. -/
def maxPlaces : Nat := 309

/-- Whether the number that digits stand for, times `10 ^ exponent`, lies within double precision. Only
the part before the point can tell. -/
def isWithinReals (digits : List Char) (exponent : Int) : Bool :=
  let ds := digits.dropWhile (· == '0')
  let places : Int := ds.length + exponent
  if ds.isEmpty || places < maxPlaces then true
  else if maxPlaces < places then false
  else
    let whole := (ds ++ List.replicate exponent.toNat '0').take maxPlaces
    (Binary64.nearest? (Nat.ofDigitChars 10 whole 0) 1).isSome

/-- The greatest exponent that is told apart. No text has the digits to make up for a greater one. -/
def maxExponent : Nat := 1 <<< 40

/-- Read an exponent, if there is one. -/
def readExponent (s : List Char) : Option (Option Int × List Char) :=
  match s with
  | c :: r =>
    if c == 'e' || c == 'E' then do
      let (negative, r) := match r with
        | '-' :: r => (true, r)
        | '+' :: r => (false, r)
        | r => (false, r)
      let (ds, rest) ← readDigits Char.isDigit [] r
      let n : Int := Text.decimalUpTo maxExponent ds
      return (some (if negative then -n else n), rest)
    else some (none, s)
  | [] => some (none, s)

/-- Read a decimal number after its sign. An integer has no zero in front. -/
def readDecimal (negative : Bool) (s : List Char) : Option (Value × List Char) := do
  let (whole, rest) ← match s with
    | '0' :: r => some (['0'], r)
    | s => readDigits Char.isDigit [] s
  let (fraction, rest) ← match rest with
    | '.' :: r => (readDigits Char.isDigit [] r).map fun (ds, r) => (some ds, r)
    | r => some (none, r)
  let (exponent, rest) ← readExponent rest
  match fraction, exponent with
  | none, none =>
    let n : Int := Text.decimalUpTo UInt64.size whole
    let v ← integer? (if negative then -n else n)
    return (v, rest)
  | _, _ =>
    let ds := whole ++ fraction.getD []
    let e := exponent.getD 0 - (fraction.getD []).length
    guard (negative || isWithinReals ds e)
    return (.other, rest)

/-- Read a number of exactly `width` digits within bounds. -/
def readField (width low high : Nat) (s : List Char) : Option (Nat × List Char) :=
  let ds := (s.take width).takeWhile Char.isDigit
  let n := Nat.ofDigitChars 10 ds 0
  if ds.length = width && low ≤ n && n ≤ high then some (n, s.drop width) else none

/-- Read a mark. -/
def readMark (c : Char) : List Char → Option (List Char)
  | d :: r => if d = c then some r else none
  | [] => none

/-- Read a time of day. -/
def readTime (s : List Char) : Option (List Char) := do
  let (_, s) ← readField 2 0 23 s
  let s ← readMark ':' s
  let (_, s) ← readField 2 0 59 s
  let s ← readMark ':' s
  let (_, s) ← readField 2 0 60 s
  match s with
  | '.' :: d :: r => if d.isDigit then some (r.dropWhile Char.isDigit) else some s
  | s => some s

/-- Read an offset from UTC, if there is one. -/
def readOffset (s : List Char) : Option (List Char) :=
  match s with
  | c :: r =>
    if c == 'Z' || c == 'z' then some r
    else if c == '+' || c == '-' then do
      let (_, r) ← readField 2 0 23 r
      let r ← readMark ':' r
      let (_, r) ← readField 2 0 59 r
      return r
    else some s
  | [] => some s

/-- Whether the time of day that may follow a date follows here. -/
def startsTime : List Char → Bool
  | sep :: a :: b :: ':' :: _ =>
    (sep == 'T' || sep == 't' || sep == ' ') && (readField 2 0 23 [a, b]).isSome
  | _ => false

/-- Read a date, with a time of day and an offset if they follow. -/
def readDate (s : List Char) : Option (List Char) := do
  let (year, s) ← readField 4 0 9999 s
  let s ← readMark '-' s
  let (month, s) ← readField 2 1 12 s
  let s ← readMark '-' s
  let leap := year % 4 == 0 && (year % 100 != 0 || year % 400 == 0)
  let days := if month = 2 then (if leap then 29 else 28)
    else if month = 4 || month = 6 || month = 9 || month = 11 then 30 else 31
  let (_, s) ← readField 2 1 days s
  if startsTime s then readOffset (← readTime (s.drop 1)) else some s

/-- Read a number, a date or a time. -/
def readNumber (s : List Char) : Option (Value × List Char) :=
  match s with
  | '0' :: 'x' :: r => readBased 16 r
  | '0' :: 'o' :: r => readBased 8 r
  | '0' :: 'b' :: r => readBased 2 r
  | s =>
    let width := (s.takeWhile Char.isDigit).length
    if width = 4 && s[4]? == some '-' then (readDate s).map fun rest => (.other, rest)
    else if width = 2 && s[2]? == some ':' then (readTime s).map fun rest => (.other, rest)
    else
      let (negative, r) := match s with
        | '-' :: r => (true, r)
        | '+' :: r => (false, r)
        | r => (false, r)
      match r with
      | 'i' :: 'n' :: 'f' :: rest => some (.other, rest)
      | 'n' :: 'a' :: 'n' :: rest => some (.other, rest)
      | r => readDecimal negative r

mutual

/-- Read a value. Arrays and inline tables may nest `depth` deep in it. -/
def readValue (fuel depth : Nat) (s : List Char) : Option (Value × List Char) :=
  match fuel with
  | 0 => none
  | fuel + 1 =>
    match s with
    | '"' :: '"' :: '"' :: r => text (readQuotedLines [] false (dropNewline r))
    | '"' :: r => text (readQuoted [] r)
    | '\'' :: '\'' :: '\'' :: r => text (readLiteralLines [] (dropNewline r))
    | '\'' :: r => text (readLiteral [] r)
    | '[' :: r => if depth = 0 then none else readItems fuel (depth - 1) r
    | '\x7b' :: r =>
      if depth = 0 then none
      else
        match skipSpace r with
        | '\x7d' :: rest => some (.other, rest)
        | r => readMembers fuel (depth - 1) (.opened ∅) r
    | 't' :: 'r' :: 'u' :: 'e' :: rest => some (.other, rest)
    | 'f' :: 'a' :: 'l' :: 's' :: 'e' :: rest => some (.other, rest)
    | s => readNumber s
where
  /-- The value of a string. -/
  text (read : Option (String × List Char)) : Option (Value × List Char) :=
    read.map fun (t, rest) => (.string t, rest)

/-- Read the items of an array from the next one on. -/
def readItems (fuel depth : Nat) (s : List Char) : Option (Value × List Char) :=
  match fuel with
  | 0 => none
  | fuel + 1 =>
    match skipLines (fuel + 1) s with
    | none => none
    | some (']' :: rest) => some (.other, rest)
    | some s =>
      match readValue fuel depth s with
      | none => none
      | some (_, rest) =>
        match skipLines (fuel + 1) rest with
        | some (',' :: r) => readItems fuel depth r
        | some (']' :: r) => some (.other, r)
        | _ => none

/-- Read the members of an inline table from the next one on. -/
def readMembers (fuel depth : Nat) (t : Table) (s : List Char) : Option (Value × List Char) :=
  match fuel with
  | 0 => none
  | fuel + 1 =>
    match readKey (fuel + 1) s with
    | some ((path, key), '=' :: r) =>
      match readValue fuel depth (skipSpace r) with
      | none => none
      | some (v, rest) =>
        match t.setKey? path key v with
        | none => none
        | some t =>
          match skipSpace rest with
          | ',' :: r => readMembers fuel depth t r
          | '\x7d' :: r => some (.other, r)
          | _ => none
    | _ => none

end

/-- Read one line, and the lines that its value extends over. -/
def readLine (fuel : Nat) (d : Document) (s : List Char) : Option (Document × List Char) :=
  match s with
  | '[' :: '[' :: r =>
    match readKey fuel r with
    | some ((path, key), ']' :: ']' :: rest) => do
      return (← d.openNext? path key, ← endLine? rest)
    | _ => none
  | '[' :: r =>
    match readKey fuel r with
    | some ((path, key), ']' :: rest) => do
      return (← d.openTable? path key, ← endLine? rest)
    | _ => none
  | s =>
    match endLine? s with
    | some rest => some (d, rest)
    | none =>
      match readKey fuel s with
      | some ((path, key), '=' :: r) => do
        let (v, rest) ← readValue fuel maxDepth (skipSpace r)
        let rest ← endLine? rest
        return (← d.setKey? path key v, rest)
      | _ => none

/-- Read the lines of a document. -/
def readLines (fuel : Nat) (d : Document) (s : List Char) : Option Document :=
  match fuel with
  | 0 => none
  | fuel + 1 =>
    match skipSpace s with
    | [] => some d
    | s =>
      match readLine (fuel + 1) d s with
      | some (d, rest) => readLines fuel d rest
      | none => none

/-- The tables of a document. A byte order mark may stand in front. -/
def ofText? (text : String) : Option Table :=
  let s := match text.toList with
    | '\uFEFF' :: r => r
    | s => s
  (readLines (s.length + 1) .empty s).map (·.root)

end Blocklist.Toml
