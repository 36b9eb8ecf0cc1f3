import Std.Data.HashSet
import Blocklist.Rule.Basic

/-!
# Assembling rules

One bounded set of rules from the rules of several lists. Rules of greater priority come first, of
equal priority the one with the smaller id. The engine takes an id once, so of several rules with one
id the first in that order stays; the budget then cuts the end off.

## Implementation notes

The sort is stable: of two rules equal in priority and id the earlier one stays in front. Ids already
seen are kept in a hash set, which only answers whether an id is in it.
-/

namespace Blocklist

/-- How many rules an assembly took and dropped. -/
structure AssemblyStats where
  /-- The rules offered. -/
  before : Nat
  /-- The rules kept. -/
  after : Nat
  /-- The rules dropped because another one has their id. -/
  duplicateIds : Nat
  /-- The rules cut off by the budget. -/
  overBudget : Nat
  deriving DecidableEq, Repr, Inhabited

namespace Rule

/-- Whether a rule may stand in front of another one. -/
def precedes (a b : Rule) : Bool :=
  b.priority < a.priority || (a.priority == b.priority && a.id ≤ b.id)

/-- Rules in the order of the engine. -/
def sorted (rules : List Rule) : List Rule :=
  rules.mergeSort precedes

/-- The first rule of every id, in their order. -/
def firstOfEachId (rules : List Rule) : List Rule :=
  (rules.foldl (fun (seen, kept) rule =>
    if seen.contains rule.id then (seen, kept) else (seen.insert rule.id, rule :: kept))
    ((∅ : Std.HashSet RuleId), [])).2.reverse

/-- Rules in the order of the engine, cut to `budget`. -/
def prioritized (rules : List Rule) (budget : Nat) : List Rule :=
  (sorted rules).take budget

end Rule

/-- Merge the rules of several lists into one set of at most `budget` rules. -/
def assemble (lists : List (List Rule)) (budget : Nat) : List Rule × AssemblyStats :=
  let offered := lists.flatten
  let unique := Rule.firstOfEachId (Rule.sorted offered)
  let kept := unique.take budget
  (kept,
    { before := offered.length
      after := kept.length
      duplicateIds := offered.length - unique.length
      overBudget := unique.length - kept.length })

/-- The update that replaces the rules with the ids `previous` by a new set. -/
def RuleUpdate.replacing (previous : List RuleId) (rules : List Rule) : RuleUpdate :=
  ⟨previous, rules⟩

end Blocklist
