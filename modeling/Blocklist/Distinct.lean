import Std.Data.HashSet

/-!
# Repeated members of a list

The first member of a list that stands in it twice, found in one walk.
-/

namespace Blocklist

variable {α : Type} [BEq α] [Hashable α]

/-- The first member of a list that is in `seen` or stands in the list before. -/
def firstRepeated? (seen : Std.HashSet α) : List α → Option α
  | [] => none
  | a :: rest => if seen.contains a then some a else firstRepeated? (seen.insert a) rest

end Blocklist
