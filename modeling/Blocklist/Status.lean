import Blocklist.Binary64.Basic
import Blocklist.Manifest

/-!
# Status

What the lists of a registry come to, for people and programs to read: each list, and how much of the
budget of rules the enabled lists take.
-/

namespace Blocklist

/-- What is shown of a list. -/
structure ListSummary where
  id : String
  title : String
  category : String
  enabled : Bool
  ruleCount : UInt64
  lastFetch : Option Timestamp
  priority : Int32
  requiresScriptlets : Bool
  deriving DecidableEq, Inhabited

namespace ListSummary

/-- What is shown of the state of a list. -/
def ofList (l : FilterList) : ListSummary :=
  ⟨l.id, l.title, l.category, l.enabled, l.ruleCount, l.lastFetch, l.priority,
    l.requiresScriptlets⟩

/-- The JSON form of what is shown. -/
def toJson (s : ListSummary) : Json :=
  .object [("id", .of s.id), ("title", .of s.title), ("category", .of s.category),
    ("enabled", .of s.enabled), ("ruleCount", .of s.ruleCount), ("lastFetch", .of s.lastFetch),
    ("priority", .of s.priority), ("requiresScriptlets", .of s.requiresScriptlets)]

end ListSummary

/-- The rounded percentage that `total` is of `budget`, at most the greatest number of 32 bits. The
quotient and the percentage are each rounded to double precision on the way. -/
def utilizationPercent (total budget : Nat) : Nat :=
  if budget = 0 then 0
  else
    let percent := do
      let share ← (← Binary64.ofNat? total).div? (← Binary64.ofNat? budget)
      share.mul? (← Binary64.ofNat? 100)
    match percent with
    | some percent => min percent.round (UInt32.size - 1)
    | none => UInt32.size - 1

/-- What all lists come to. -/
structure StatusTotals where
  totalLists : Nat
  enabledLists : Nat
  /-- The rules of all enabled lists. A sum beyond 64 bits starts again at zero. -/
  totalRules : UInt64
  maxRules : Nat
  utilizationPercent : Nat
  deriving DecidableEq, Repr, Inhabited

namespace StatusTotals

/-- What lists come to beside a budget. -/
def ofLists (lists : List FilterList) (budget : Nat) : StatusTotals :=
  let enabled := lists.filter (·.enabled)
  let total := enabled.foldr (fun l n => l.ruleCount + n) 0
  ⟨lists.length, enabled.length, total, budget,
    Blocklist.utilizationPercent total.toNat budget⟩

/-- The JSON form of the totals. -/
def toJson (t : StatusTotals) : Json :=
  .object [("totalLists", .ofNat t.totalLists), ("enabledLists", .ofNat t.enabledLists),
    ("totalRules", .of t.totalRules), ("maxRules", .ofNat t.maxRules),
    ("utilizationPercent", .ofNat t.utilizationPercent)]

end StatusTotals

/-- What is shown of a registry. -/
structure RegistryStatus where
  lists : List ListSummary
  categories : Dict Category
  summary : StatusTotals

namespace RegistryStatus

/-- The JSON form of the status. -/
def toJson (s : RegistryStatus) : Json :=
  .object [("lists", .array (s.lists.map ListSummary.toJson)), ("categories", .of s.categories),
    ("summary", s.summary.toJson)]

/-- A text with blanks behind it up to a width. -/
def padRight (width : Nat) (text : String) : String :=
  text ++ String.ofList (List.replicate (width - text.length) ' ')

/-- A text with blanks in front of it up to a width. -/
def padLeft (width : Nat) (text : String) : String :=
  String.ofList (List.replicate (width - text.length) ' ') ++ text

/-- The line of a list in the table. -/
def listLine (l : ListSummary) : String :=
  let mark := if l.enabled then "x" else " "
  let fetched := match l.lastFetch with
    | some t => t.toMinuteText
    | none => "never"
  s!"  [{mark}] {padRight 24 l.id} {padRight 12 l.category} {padLeft 6 (toString l.ruleCount)} rules  fetched {fetched}"

/-- The status as a table, line by line. -/
def table (s : RegistryStatus) : List String :=
  let t := s.summary
  "Filter lists:" :: s.lists.map listLine ++
    ["", s!"Enabled:     {t.enabledLists} / {t.totalLists}",
      s!"Rules:       {t.totalRules} / {t.maxRules} ({t.utilizationPercent}%)"]

end RegistryStatus

end Blocklist
