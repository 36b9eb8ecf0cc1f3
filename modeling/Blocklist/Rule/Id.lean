import Blocklist.Text.Decimal

/-!
# Rule ids

A rule is known to the engine by a number of 32 bits. A sequence hands the numbers out in ascending
order, and stays at the greatest one when it has reached it.
-/

namespace Blocklist

/-- The number of a rule. -/
abbrev RuleId := UInt32

namespace RuleId

/-- The greatest id. -/
def last : RuleId := 4294967295

/-- The first id of a fresh sequence. -/
def first : RuleId := 1000

/-- The id after another one, or the greatest one. -/
def next (id : RuleId) : RuleId :=
  if id = last then last else id + 1

/-- The id that stands behind the last underscore of a text. -/
def ofTail? (s : List Char) : Option RuleId :=
  let tail := (s.reverse.takeWhile (· ≠ '_')).reverse
  (Text.natUpTo? last.toNat tail).map UInt32.ofNat

end RuleId

/-- A source of ids. -/
structure IdSequence where
  /-- The id handed out next. -/
  next : RuleId
  deriving DecidableEq, Repr

namespace IdSequence

instance : Inhabited IdSequence := ⟨⟨RuleId.first⟩⟩

/-- The sequence after its next id is handed out. -/
def advance (ids : IdSequence) : IdSequence :=
  ⟨ids.next.next⟩

/-- The sequence that hands out only ids greater than `id`, and none that it would have left out. -/
def advancePast (ids : IdSequence) (id : RuleId) : IdSequence :=
  if ids.next ≤ id then ⟨id.next⟩ else ids

end IdSequence

end Blocklist
