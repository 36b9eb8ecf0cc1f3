import Blocklist.Json.Codec

/-!
# Counts of lines

How the lines of a filter list were taken: comments, the four kinds of records, and lines that give
none. `total` counts the lines that are not blank and not comments. A count has 64 bits, so a sum
beyond them starts again at zero.
-/

namespace Blocklist

/-- The counts of the lines of a list. -/
structure LineStats where
  total : UInt64
  networkRules : UInt64
  cosmeticRules : UInt64
  scriptlets : UInt64
  exceptions : UInt64
  comments : UInt64
  invalid : UInt64
  deriving DecidableEq, Repr, Inhabited

namespace LineStats

/-- The counts of a list without lines. -/
def zero : LineStats :=
  ⟨0, 0, 0, 0, 0, 0, 0⟩

/-- The counts of two lists together. -/
def add (a b : LineStats) : LineStats where
  total := a.total + b.total
  networkRules := a.networkRules + b.networkRules
  cosmeticRules := a.cosmeticRules + b.cosmeticRules
  scriptlets := a.scriptlets + b.scriptlets
  exceptions := a.exceptions + b.exceptions
  comments := a.comments + b.comments
  invalid := a.invalid + b.invalid

instance : Add LineStats := ⟨add⟩

/-- The counts of several lists together. -/
def sum (all : List LineStats) : LineStats :=
  all.foldl (· + ·) zero

/-- The lines that were taken for a record of some kind, or for none. -/
def classified (s : LineStats) : UInt64 :=
  s.networkRules + s.cosmeticRules + s.scriptlets + s.exceptions + s.invalid

/-- The counts in words. -/
def message (s : LineStats) : String :=
  s!"{s.total} rules ({s.networkRules} network, {s.exceptions} exceptions, {s.cosmeticRules} cosmetic, {s.scriptlets} scriptlets, {s.invalid} invalid), {s.comments} comments"

end LineStats

instance : JsonCodec LineStats where
  encode s := .object [("total", .of s.total), ("networkRules", .of s.networkRules),
    ("cosmeticRules", .of s.cosmeticRules), ("scriptlets", .of s.scriptlets),
    ("exceptions", .of s.exceptions), ("comments", .of s.comments), ("invalid", .of s.invalid)]
  decode? v :=
    match v.slots ["total", "networkRules", "cosmeticRules", "scriptlets", "exceptions", "comments",
      "invalid"] with
    | some [total, network, cosmetic, scriptlets, exceptions, comments, invalid] => do
      return ⟨← Json.required total, ← Json.required network, ← Json.required cosmetic,
        ← Json.required scriptlets, ← Json.required exceptions, ← Json.required comments,
        ← Json.required invalid⟩
    | _ => none

end Blocklist
