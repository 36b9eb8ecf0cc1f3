/-!
# Cutting texts at markers

The first place where a marker stands in a text, the parts before and after it, and the text left
when a marker is taken off one end. Cutting at every occurrence of one character is `List.splitOn`.

## Implementation notes

The search walks the text with the part already passed in reverse, so its depth does not grow with
the text.
-/

namespace Blocklist.Text

/-- What follows `marker` in a text that starts with it. -/
def dropLead? : List Char → List Char → Option (List Char)
  | [], s => some s
  | _ :: _, [] => none
  | m :: marker, c :: s => if m = c then dropLead? marker s else none

/-- What precedes the last character of a text that ends with `c`. -/
def dropLast? (c : Char) (s : List Char) : Option (List Char) :=
  match s.reverse with
  | d :: r => if d = c then some r.reverse else none
  | [] => none

/-- Whether `marker` stands somewhere in a text. -/
def occurs (marker : List Char) : List Char → Bool
  | [] => marker.isEmpty
  | c :: s => marker.isPrefixOf (c :: s) || occurs marker s

/-- Search for `marker`, with the characters already passed in `before`, last one first. -/
def splitFirstFrom? (marker before : List Char) : List Char → Option (List Char × List Char)
  | [] => if marker.isEmpty then some (before.reverse, []) else none
  | c :: s =>
    match dropLead? marker (c :: s) with
    | some rest => some (before.reverse, rest)
    | none => splitFirstFrom? marker (c :: before) s

/-- The parts of a text before and after the first occurrence of `marker`. -/
def splitFirst? (marker s : List Char) : Option (List Char × List Char) :=
  splitFirstFrom? marker [] s

end Blocklist.Text
