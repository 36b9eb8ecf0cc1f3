import Blocklist.Proofs.Catalogue
import Blocklist.Proofs.Engine

/-!
# The engine mirrors the registry

After an update that the engine takes it holds the assembled rules of the lists that are enabled
then, and nothing else; after an operation whose update it does not take, or that brings none, it is
as it was. Nothing is assumed of the store, of the servers, or of the rules the engine starts with.
-/

namespace Blocklist

/-- An assembled rule comes from what is cached for a list that is enabled. -/
theorem Registry.mem_of_mem_assembled {r : Registry} {rule : Rule} (h : rule ∈ r.assembled.1) :
    ∃ l ∈ r.lists, l.enabled = true ∧ ∃ a, r.cache.get? l.id = some a ∧ rule ∈ a.rules := by
  have hflat := mem_of_mem_assemble h
  simp only [ruleSlices_eq, List.mem_flatten, List.mem_flatMap, List.mem_filterMap,
    List.mem_filter] at hflat
  obtain ⟨slice, ⟨a, ⟨l, ⟨hl, henabled⟩, ha⟩, hslice⟩, hrule⟩ := hflat
  refine ⟨l, hl, henabled, a, ha, ?_⟩
  obtain ⟨segment, hsegment, rfl⟩ := List.mem_map.mp hslice
  exact List.mem_flatMap.mpr ⟨segment, hsegment, hrule⟩

/-- No change of a registry touches its budget. -/
theorem Registry.budget_invariant (budget : Nat) :
    Registry.Invariant (fun _ => True) (fun r => r.budget = budget) fun _ => True where
  restored h _ := h
  withFlags _ h := h
  refresh _ _ _ _ h := h
  withList _ _ h := h
  withCategory _ _ h := h
  savedState _ := .intro

namespace Faulty

/-- Whether an engine takes an update that replaces all it holds by these rules: neither of the two
calls is refused, and the rules fit. -/
def Takes (engine : Faulty MemoryEngine EngineError) (rules : List Rule) : Prop :=
  engine.fault engine.calls = none ∧ engine.fault (engine.calls + 1) = none ∧
    rules.length ≤ engine.device.limit

theorem replaced_of_takes {engine : Faulty MemoryEngine EngineError} {rules : List Rule}
    (h : engine.Takes rules) :
    engine.replaced rules =
      { engine.device with rules, updates := engine.device.updates + 1 } := by
  obtain ⟨hfirst, hsecond, hfits⟩ := h
  rw [replaced, if_pos ⟨hfirst, hsecond⟩, MemoryEngine.replaced, if_pos hfits]

theorem replaced_of_not_takes {engine : Faulty MemoryEngine EngineError} {rules : List Rule}
    (h : ¬ engine.Takes rules) : engine.replaced rules = engine.device := by
  rw [replaced]
  split
  · rename_i hcalls
    rw [MemoryEngine.replaced, if_neg fun hfits => h ⟨hcalls.1, hcalls.2, hfits⟩]
  · rfl

end Faulty

namespace Session

variable {σ : Type} [KeyValueStore σ]

theorem budget_after {ε : Type} [FilteringEngine ε] (s : Session (Backend σ ε)) (op : Operation) :
    (s.after op).registry.budget = s.registry.budget :=
  (after_invariant (Registry.budget_invariant s.registry.budget) StoreInvariant.trivial
    (fun _ _ => .intro) rfl .intro).1

theorem budget_run {ε : Type} [FilteringEngine ε] (s : Session (Backend σ ε))
    (ops : List Operation) : (s.run ops).registry.budget = s.registry.budget :=
  (run_invariant (Registry.budget_invariant s.registry.budget) StoreInvariant.trivial
    (fun _ _ _ _ => .intro) rfl .intro).1

/-- The engine after an operation, by whether the operation brings rules and the engine takes them.
-/
theorem device_after (s : Session (Backend σ (Faulty MemoryEngine EngineError))) (op : Operation) :
    (s.after op).world.engine.device =
      if op.installs s.registry then s.world.engine.replaced (s.after op).registry.assembled.1
      else s.world.engine.device := by
  rw [s.engine_after]
  split
  · exact device_replaceRules _ (nodup_assemble _ _)
  · rfl

/-- **The engine mirrors the registry.** In every run, an operation whose update the engine takes
leaves in it exactly the assembled rules of the sources that are cached then for the lists enabled
then, list by list and source by source, by the budget of the settings. Every other operation leaves
the engine alone. -/
theorem engine_mirrors_registry (manifest : Manifest) (settings : Settings) (store : σ)
    (engine : Faulty MemoryEngine EngineError) (before : List Operation) (op : Operation) :
    let s := (ofRegistry (.ofManifest manifest settings)
      (⟨store, engine⟩ : Backend σ (Faulty MemoryEngine EngineError))).run before
    let s' := s.after op
    let enabled := s'.registry.lists.filter (·.enabled)
    let cached := enabled.filterMap fun l => s'.registry.cache.get? l.id
    let slices := cached.flatMap fun a => a.sources.map (·.rules)
    let rules := (assemble slices settings.maxDynamicRules).1
    let held := s.world.engine
    let held' := s'.world.engine.device
    (op.installs s.registry = true ∧ held.Takes rules ∧
      held'.rules = rules ∧ held'.updates = held.device.updates + 1 ∧
      ∀ rule ∈ held'.rules, ∃ l ∈ s'.registry.lists, l.enabled = true ∧
        ∃ a, s'.registry.cache.get? l.id = some a ∧ ∃ source ∈ a.sources, rule ∈ source.rules) ∨
    (¬ (op.installs s.registry = true ∧ held.Takes rules) ∧ held' = held.device) := by
  intro s s' enabled cached slices rules held held'
  have hbudget : s'.registry.budget = settings.maxDynamicRules :=
    (budget_after s op).trans (budget_run _ before)
  have hrules : s'.registry.assembled.1 = rules := by
    rw [Registry.assembled, Registry.ruleSlices_eq, hbudget]
  have hheld : held' = if op.installs s.registry then held.replaced rules else held.device := by
    rw [← hrules]
    exact device_after s op
  by_cases hinstalls : op.installs s.registry = true
  · rw [if_pos hinstalls] at hheld
    by_cases htakes : held.Takes rules
    · rw [Faulty.replaced_of_takes htakes] at hheld
      refine .inl ⟨hinstalls, htakes, by rw [hheld], by rw [hheld], fun rule hrule => ?_⟩
      rw [hheld, ← hrules] at hrule
      obtain ⟨l, hl, henabled, a, ha, hmem⟩ := Registry.mem_of_mem_assembled hrule
      exact ⟨l, hl, henabled, a, ha, List.mem_flatMap.mp hmem⟩
    · rw [Faulty.replaced_of_not_takes htakes] at hheld
      exact .inr ⟨fun h => htakes h.2, hheld⟩
  · rw [if_neg hinstalls] at hheld
    exact .inr ⟨fun h => hinstalls h.1, hheld⟩

/-- The engine holds a rule of its own and refuses the first call, which a refresh of two lists makes.
When the second list is disabled it takes the rules of the first one, and they are all it holds. -/
theorem engine_mirrors_registry_sample :
    let engine : Faulty MemoryEngine EngineError :=
      ⟨{ MemoryEngine.withLimit 30000 with rules := [{ (default : Rule) with id := 9 }] },
        fun call => if call = 0 then some .json else none, 0⟩
    let opened : Session (Backend MemoryStore (Faulty MemoryEngine EngineError)) :=
      .ofRegistry (.ofManifest .sample default) ⟨.empty, engine⟩
    let servers := Servers.uniform (fun _ => .ok (.fetched "||ads.example^" none)) default
    let refreshed := opened.after (.refreshAll false servers)
    let toggled := refreshed.after (.toggleList "privacy" false)
    refreshed.world.engine.device.rules.map (·.id) = [9] ∧
      (toggled.world.engine.device.rules.map (·.id)).Perm [1000, 1001] := by
  intro engine opened servers refreshed toggled
  have hmirrors := engine_mirrors_registry .sample default MemoryStore.empty engine
  have hrefused : refreshed.world.engine.device = engine.device := by
    obtain ⟨-, htakes, -⟩ | ⟨-, hsame⟩ := hmirrors [] (.refreshAll false servers)
    · exact absurd htakes.1 (by decide)
    · exact hsame
  have hregistry : toggled.registry = (Operation.toggleList "privacy" false).change
      ((Registry.ofManifest .sample default).refreshEnabled false servers).registry := by
    rw [(after_eq _ _).1]
    rfl
  have hrules : toggled.world.engine.device.rules =
      (assemble (((toggled.registry.lists.filter (·.enabled)).filterMap fun l =>
        toggled.registry.cache.get? l.id).flatMap fun a => a.sources.map (·.rules)) 30000).1 := by
    obtain ⟨-, -, hrules, -⟩ | ⟨hnot, -⟩ :=
      hmirrors [.refreshAll false servers] (.toggleList "privacy" false)
    · exact hrules
    · have hinstalls : (Operation.toggleList "privacy" false).installs refreshed.registry = true := by
        decide +kernel
      have hlimit : refreshed.world.engine.device.limit = 30000 := congrArg _ hrefused
      -- The refused call was the only one, so the next two are not refused.
      exact absurd ⟨hinstalls, rfl, rfl, hlimit ▸ length_assemble_le _ _⟩ hnot
  rw [hrefused, hrules, hregistry]
  constructor
  · rfl
  · exact ((assemble_perm (by decide +kernel) (by decide +kernel)).map _).trans (by decide +kernel)

end Session

end Blocklist
