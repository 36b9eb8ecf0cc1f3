import Blocklist.Event

/-!
# Installing assembled rules

The rules of several lists, assembled into one set, in an engine in place of all it holds.
-/

namespace Blocklist

/-- Assemble the rules of lists and put them into an engine. -/
def installRules {ε : Type} [FilteringEngine ε] (lists : List (List Rule)) (budget : Nat)
    (engine : ε) : Except EngineError AssemblyStats × ε × List Event :=
  let (rules, stats) := assemble lists budget
  let dropped := if stats.duplicateIds = 0 then [] else [.duplicatesDropped stats.duplicateIds]
  match replaceRules rules engine with
  | (.ok (), engine) => (.ok stats, engine, dropped ++ [.rulesApplied stats budget])
  | (.error error, engine) => (.error error, engine, dropped)

end Blocklist
