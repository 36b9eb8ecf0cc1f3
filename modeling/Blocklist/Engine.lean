import Blocklist.Assembly
import Blocklist.Disk.Basic
import Blocklist.Distinct
import Blocklist.Json.Parser
import Blocklist.Json.Printer

/-!
# Engines

What enforces the network rules: it holds a bounded set of rules with distinct ids, and changes it by
one update at a time. An update is taken as a whole or not at all. An engine may live in memory, or in
a file that holds the array of its rules.

## Implementation notes

`FilteringEngine` leaves open what an engine does, as `KeyValueStore` does for stores.
-/

namespace Blocklist

/-- Why an engine does not take an update. -/
inductive EngineError where
  | rejected (reason : String)
  | tooManyRules (count limit : Nat)
  | io (path : String) (fault : IoFault)
  /-- The file of the engine does not hold an array of rules. -/
  | json
  deriving DecidableEq, Repr

namespace EngineError

/-- An update would add a second rule with an id. -/
def duplicateId (id : RuleId) : EngineError :=
  .rejected s!"duplicate rule id {id.toNat}"

/-- The error in words. -/
def message : EngineError → String
  | .rejected reason => s!"Engine rejected update: {reason}"
  | .tooManyRules count limit =>
    s!"Update adds {count} rules, engine accepts at most {limit}"
  | .io path fault => s!"Engine I/O failed for '{path}': {fault.message}"
  | .json => "Engine state is not valid JSON: unexpected form"

end EngineError

/-- Engines that hold rules. -/
class FilteringEngine (ε : Type) where
  /-- The ids of the rules the engine holds, in their order. -/
  ruleIds : ε → Except EngineError (List RuleId) × ε
  /-- Change the rules. -/
  update : RuleUpdate → ε → Except EngineError Unit × ε

namespace RuleUpdate

/-- The rules of `current` that the update leaves. -/
def kept (update : RuleUpdate) (current : List Rule) : List Rule :=
  let removed := Std.HashSet.ofList update.removeRuleIds
  current.filter fun rule => !removed.contains rule.id

/-- The rules after the update, if an engine that takes `limit` rules takes it. -/
def apply (update : RuleUpdate) (limit : Nat) (current : List Rule) : Except EngineError (List Rule) :=
  let kept := update.kept current
  match firstRepeated? (Std.HashSet.ofList (kept.map (·.id))) (update.addRules.map (·.id)) with
  | some id => .error (.duplicateId id)
  | none =>
    let next := kept ++ update.addRules
    if limit < next.length then .error (.tooManyRules next.length limit) else .ok next

end RuleUpdate

/-- An engine in memory. -/
structure MemoryEngine where
  rules : List Rule
  /-- The most rules it takes. -/
  limit : Nat
  /-- The updates it has taken. -/
  updates : Nat
  deriving Inhabited

namespace MemoryEngine

/-- An engine without rules. -/
def withLimit (limit : Nat) : MemoryEngine :=
  ⟨[], limit, 0⟩

instance : FilteringEngine MemoryEngine where
  ruleIds engine := (.ok (engine.rules.map (·.id)), engine)
  update update engine :=
    match update.apply engine.limit engine.rules with
    | .ok rules => (.ok (), { engine with rules, updates := engine.updates + 1 })
    | .error error => (.error error, engine)

end MemoryEngine

/-- The JSON value that a file holds. Octets that encode no text make a string unusable. -/
def Content.json? : Content → Option Json
  | .text s => Json.ofText? s
  | .octets bytes => Json.ofOctets? bytes

/-- The rules that a file holds as a JSON array. A file that is missing holds none. -/
def Disk.readRules (disk : Disk) (path : String) : Except EngineError (List Rule) :=
  match disk.read path with
  | .error .notFound => .ok []
  | .error fault => .error (.io path fault)
  | .ok content =>
    match content.json?.bind (·.as? (List Rule)) with
    | some rules => .ok rules
    | none => .error .json

/-- Change the rules that a file holds. -/
def Disk.updateRules (disk : Disk) (path : String) (limit : Nat) (update : RuleUpdate) :
    Except EngineError Unit × Disk :=
  match (disk.readRules path).bind (update.apply limit) with
  | .error error => (.error error, disk)
  | .ok rules =>
    let (result, disk) := disk.replace path (Json.of rules).indented
    (result.mapError fun (path, fault) => .io path fault, disk)

/-- An engine in one file of a disk. -/
structure FileEngine where
  disk : Disk
  path : String
  deriving Inhabited

namespace FileEngine

instance : FilteringEngine FileEngine where
  ruleIds engine :=
    ((engine.disk.readRules engine.path).map (·.map (·.id)), engine)
  update update engine :=
    let (result, disk) := engine.disk.updateRules engine.path Rule.engineLimit update
    (result, { engine with disk })

end FileEngine

/-- An engine whose calls fail while an error is set for them. -/
structure InterruptibleEngine (ε : Type) where
  engine : ε
  error : Option EngineError
  deriving Inhabited

namespace InterruptibleEngine

instance {ε : Type} [FilteringEngine ε] : FilteringEngine (InterruptibleEngine ε) where
  ruleIds s :=
    match s.error with
    | some error => (.error error, s)
    | none =>
      let (result, engine) := FilteringEngine.ruleIds s.engine
      (result, { s with engine })
  update update s :=
    match s.error with
    | some error => (.error error, s)
    | none =>
      let (result, engine) := FilteringEngine.update update s.engine
      (result, { s with engine })

end InterruptibleEngine

/-- Put rules into an engine in place of all it holds. -/
def replaceRules {ε : Type} [FilteringEngine ε] (rules : List Rule) (engine : ε) :
    Except EngineError Unit × ε :=
  match FilteringEngine.ruleIds engine with
  | (.error error, engine) => (.error error, engine)
  | (.ok previous, engine) => FilteringEngine.update (.replacing previous rules) engine

end Blocklist
