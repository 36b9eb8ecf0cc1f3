import Blocklist.Proofs.Assembly
import Blocklist.Proofs.Distinct
import Blocklist.Proofs.Faults

/-!
# What an engine takes

An update is taken if the ids it adds are distinct, none of them stays from before, and the rules
fit the limit; then the engine holds what was left and what was added. So an engine in memory takes
an assembled set that fits its limit whatever it held, and holds nothing else afterwards.

## Implementation notes

Which call of a faulty engine fails decides what a replacement does: the first call asks for the
ids, the second one brings the update.
-/

namespace Blocklist

namespace RuleUpdate

theorem kept_eq_filter (update : RuleUpdate) (current : List Rule) :
    update.kept current = current.filter fun rule => rule.id ∉ update.removeRuleIds := by
  apply List.filter_congr
  intro rule _
  rw [Std.HashSet.contains_ofList]
  by_cases h : rule.id ∈ update.removeRuleIds <;> simp [h]

/-- An update is taken exactly if ids stay distinct and the limit is kept. -/
theorem apply_eq_ok_iff {update : RuleUpdate} {limit : Nat} {current next : List Rule} :
    update.apply limit current = .ok next ↔
      (update.addRules.map (·.id)).Nodup ∧
        (∀ rule ∈ update.addRules, rule.id ∉ (update.kept current).map (·.id)) ∧
        (update.kept current ++ update.addRules).length ≤ limit ∧
        next = update.kept current ++ update.addRules := by
  have hnone := firstRepeated?_eq_none_iff (.ofList ((update.kept current).map (·.id)))
    (update.addRules.map (·.id))
  simp only [Std.HashSet.mem_ofList, List.contains_iff_mem, List.forall_mem_map] at hnone
  rw [apply]
  split
  · rename_i id hsome
    constructor
    · intro h
      cases h
    · rintro ⟨hnodup, hnew, _, _⟩
      rw [hnone.mpr ⟨hnodup, hnew⟩] at hsome
      cases hsome
  · rename_i hfree
    obtain ⟨hnodup, hnew⟩ := hnone.mp hfree
    dsimp only
    split
    · rename_i hlimit
      constructor
      · intro h
        cases h
      · rintro ⟨_, _, hle, _⟩
        omega
    · rename_i hlimit
      rw [Except.ok.injEq]
      constructor
      · rintro rfl
        exact ⟨hnodup, hnew, by omega, rfl⟩
      · rintro ⟨_, _, _, rfl⟩
        rfl

/-- Nothing is left of rules that are all replaced. -/
theorem kept_replacing (current rules : List Rule) :
    (replacing (current.map (·.id)) rules).kept current = [] := by
  rw [kept_eq_filter, List.filter_eq_nil_iff]
  intro rule hrule
  have hid : rule.id ∈ current.map (·.id) := List.mem_map_of_mem hrule
  simpa [replacing] using hid

/-- A replacement with distinct ids is taken exactly if it fits the limit. -/
theorem apply_replacing {current rules next : List Rule} {limit : Nat}
    (hnodup : (rules.map (·.id)).Nodup) :
    (replacing (current.map (·.id)) rules).apply limit current = .ok next ↔
      rules.length ≤ limit ∧ next = rules := by
  rw [apply_eq_ok_iff, kept_replacing]
  simp [replacing, hnodup]

end RuleUpdate

namespace Disk

variable {disk : Disk} {path : String}

/-- Rules with distinct ids that fit the limit replace those in a file, whatever these are. -/
theorem updateRules_replacing {previous rules : List Rule} {limit : Nat}
    (h : disk.readRules path = .ok previous) (hnodup : (rules.map (·.id)).Nodup)
    (hlimit : rules.length ≤ limit) :
    disk.updateRules path limit (.replacing (previous.map (·.id)) rules) =
      ((disk.replace path (Json.of rules).indented).1.mapError fun (path, fault) => .io path fault,
        (disk.replace path (Json.of rules).indented).2) := by
  have hnext : (disk.readRules path).bind
      ((RuleUpdate.replacing (previous.map (·.id)) rules).apply limit) = .ok rules := by
    rw [h]
    exact (RuleUpdate.apply_replacing hnodup).mpr ⟨hlimit, rfl⟩
  simp only [updateRules, hnext]

/-- A file that cannot be read as rules has a fault, or holds something else. -/
theorem eq_json_or_io_of_readRules {error : EngineError} (h : disk.readRules path = .error error) :
    error = .json ∨ ∃ path fault, error = .io path fault := by
  rw [readRules] at h
  split at h
  · cases h
  · cases h
    exact .inr ⟨_, _, rfl⟩
  · split at h
    · cases h
    · cases h
      exact .inl rfl

end Disk

namespace MemoryEngine

/-- The engine after rules with distinct ids are brought to replace all it holds. -/
def replaced (engine : MemoryEngine) (rules : List Rule) : MemoryEngine :=
  if rules.length ≤ engine.limit then { engine with rules, updates := engine.updates + 1 }
  else engine

theorem update_replacing (engine : MemoryEngine) {rules : List Rule}
    (hnodup : (rules.map (·.id)).Nodup) :
    (FilteringEngine.update (.replacing (engine.rules.map (·.id)) rules) engine).2 =
      engine.replaced rules := by
  simp only [FilteringEngine.update, replaced]
  split
  · rename_i next hok
    obtain ⟨hle, rfl⟩ := (RuleUpdate.apply_replacing hnodup).mp hok
    rw [if_pos hle]
  · rename_i error herror
    rw [if_neg]
    intro hle
    rw [(RuleUpdate.apply_replacing hnodup).mpr ⟨hle, rfl⟩] at herror
    cases herror

/-- Replacing the rules of an engine that refuses no call. -/
theorem replaceRules_eq (engine : MemoryEngine) {rules : List Rule}
    (hnodup : (rules.map (·.id)).Nodup) :
    (replaceRules rules engine).2 = engine.replaced rules :=
  engine.update_replacing hnodup

/-- Rules with distinct ids that fit the limit are taken in place of all that the engine holds. -/
theorem replaceRules_of_fits {engine : MemoryEngine} {rules : List Rule}
    (hnodup : (rules.map (·.id)).Nodup) (hlimit : rules.length ≤ engine.limit) :
    replaceRules rules engine = (.ok (), { engine with rules, updates := engine.updates + 1 }) := by
  have happly : (RuleUpdate.replacing (engine.rules.map (·.id)) rules).apply engine.limit
      engine.rules = .ok rules :=
    (RuleUpdate.apply_replacing hnodup).mpr ⟨hlimit, rfl⟩
  simp only [replaceRules, FilteringEngine.ruleIds, FilteringEngine.update, happly]

@[simp] theorem limit_replaced (engine : MemoryEngine) (rules : List Rule) :
    (engine.replaced rules).limit = engine.limit := by
  rw [replaced]
  split <;> rfl

end MemoryEngine

/-- What the engine of a faulty one becomes when rules are brought to replace all it holds: a
refusal of either call leaves it as it is. -/
def Faulty.replaced (s : Faulty MemoryEngine EngineError) (rules : List Rule) : MemoryEngine :=
  if s.fault s.calls = none ∧ s.fault (s.calls + 1) = none then s.device.replaced rules
  else s.device

/-- Replacing the rules of an engine in memory, whichever calls are refused. -/
theorem device_replaceRules (s : Faulty MemoryEngine EngineError) {rules : List Rule}
    (hnodup : (rules.map (·.id)).Nodup) :
    (replaceRules rules s).2.device = s.replaced rules := by
  have hids : FilteringEngine.ruleIds s = s.call FilteringEngine.ruleIds := rfl
  have hupdate (update : RuleUpdate) (s : Faulty MemoryEngine EngineError) :
      FilteringEngine.update update s = s.call (FilteringEngine.update update) := rfl
  rw [replaceRules, hids, Faulty.replaced]
  cases hfirst : s.fault s.calls with
  | some error => simp [Faulty.call_of_fault hfirst, Faulty.passed]
  | none =>
      rw [Faulty.call_of_sound hfirst]
      simp only [FilteringEngine.ruleIds, hupdate, true_and]
      cases hsecond : s.fault (s.calls + 1) with
      | some error => rw [Faulty.call_of_fault hsecond]; simp [Faulty.passed]
      | none =>
          rw [Faulty.call_of_sound hsecond, if_pos rfl]
          exact MemoryEngine.update_replacing s.device hnodup

end Blocklist
