import Blocklist.Binary64.Basic
import Blocklist.Dict

/-!
# JSON values

The values a JSON text can hold, with the members of an object in the order in which they are
written. `Json.merged` is the value without that order: the members stand in the order of their
names, and of several members with one name the last one counts.

## Implementation notes

A text may be well formed and still hold a number beyond every representable one, or a string whose
escapes leave half of a surrogate pair alone. Such a part becomes `Json.unusable`: a reader that
skips it goes on, a reader that needs it fails.
-/

namespace Blocklist

/-- A number: an integer that fits 64 bits, or the nearest number of double precision. -/
inductive Numeral where
  /-- An integer between `-2 ^ 63` and `2 ^ 64 - 1`. -/
  | integer (value : Int)
  /-- Any other number, with its sign and its size. -/
  | real (negative : Bool) (size : Binary64)
  deriving DecidableEq, Repr, Inhabited

/-- A JSON value. -/
inductive Json where
  | null
  | bool (value : Bool)
  | number (value : Numeral)
  | string (value : String)
  | array (items : List Json)
  | object (members : List (String × Json))
  /-- A well-formed part of a text that stands for no value. -/
  | unusable
  deriving Inhabited, Repr

namespace Json

/-- An integer as a value. -/
def ofNat (n : Nat) : Json :=
  .number (.integer n)

mutual

/-- Whether every part of a value stands for something. -/
def isUsable : Json → Bool
  | .array items => areUsable items
  | .object members => membersAreUsable members
  | .unusable => false
  | _ => true

/-- Whether every item of a list is usable. -/
def areUsable : List Json → Bool
  | [] => true
  | v :: rest => v.isUsable && areUsable rest

/-- Whether the value of every member is usable. -/
def membersAreUsable : List (String × Json) → Bool
  | [] => true
  | (_, v) :: rest => v.isUsable && membersAreUsable rest

end

mutual

/-- Whether arrays and objects stand in each other at most `n` deep. -/
def fitsDepth (n : Nat) : Json → Bool
  | .array items => n != 0 && allFitDepth (n - 1) items
  | .object members => n != 0 && membersFitDepth (n - 1) members
  | _ => true

/-- Whether every item fits the depth. -/
def allFitDepth (n : Nat) : List Json → Bool
  | [] => true
  | v :: rest => v.fitsDepth n && allFitDepth n rest

/-- Whether the value of every member fits the depth. -/
def membersFitDepth (n : Nat) : List (String × Json) → Bool
  | [] => true
  | (_, v) :: rest => v.fitsDepth n && membersFitDepth n rest

end

mutual

/-- The value with the members of its objects in the order of their names, the last of those with one
name standing for all. -/
def merged : Json → Json
  | .array items => .array (mergedItems [] items)
  | .object members => .object (Dict.ofList (mergedMembers [] members)).entries
  | v => v

/-- Merge every item of a list; `done` holds those before, last one first. -/
def mergedItems (done : List Json) : List Json → List Json
  | [] => done.reverse
  | v :: rest => mergedItems (v.merged :: done) rest

/-- Merge the value of every member; `done` holds those before, last one first. -/
def mergedMembers (done : List (String × Json)) : List (String × Json) → List (String × Json)
  | [] => done.reverse
  | (k, v) :: rest => mergedMembers ((k, v.merged) :: done) rest

end

/-- The deepest nesting of a value that is kept as a value. -/
def maxDepth : Nat := 127

end Json

end Blocklist
