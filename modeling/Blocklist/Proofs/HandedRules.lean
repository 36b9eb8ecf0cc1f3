import Blocklist.Proofs.EngineMirror
import Blocklist.Proofs.Restart
import Blocklist.Proofs.WellFormed

/-!
# The rules that engines are handed

Whatever registries do from an empty store on, every rule that one of them ever brings to its engine
is well formed: it was compiled by some registry, and neither the cache nor the store changes it.

## Implementation notes

What an engine holds at the end says nothing of the updates it refused or has replaced since, so a
`Recorder` keeps every update. It answers as the engine behind it does.
-/

namespace Blocklist

/-- An engine, and every update that was brought to it, taken or not. -/
structure Recorder (ε : Type) where
  engine : ε
  updates : List RuleUpdate

namespace Recorder

variable {ε : Type} [FilteringEngine ε]

instance : FilteringEngine (Recorder ε) where
  ruleIds s :=
    let (result, engine) := FilteringEngine.ruleIds s.engine
    (result, { s with engine })
  update update s :=
    let (result, engine) := FilteringEngine.update update s.engine
    (result, ⟨engine, s.updates ++ [update]⟩)

/-- An engine that no update was brought to yet. -/
def of (engine : ε) : Recorder ε :=
  ⟨engine, []⟩

theorem ruleIds_eq (s : Recorder ε) :
    FilteringEngine.ruleIds s =
      ((FilteringEngine.ruleIds s.engine).1, ⟨(FilteringEngine.ruleIds s.engine).2, s.updates⟩) :=
  rfl

/-- A replacement of all rules does to the engine behind a recorder what it does to the engine alone.
-/
theorem engine_replaceRules (rules : List Rule) (s : Recorder ε) :
    (replaceRules rules s).1 = (replaceRules rules s.engine).1 ∧
      (replaceRules rules s).2.engine = (replaceRules rules s.engine).2 := by
  rw [replaceRules, replaceRules, ruleIds_eq]
  cases FilteringEngine.ruleIds s.engine with
  | mk ids engine => cases ids <;> exact ⟨rfl, rfl⟩

/-- A replacement of all rules brings at most one update, with exactly the rules. -/
theorem addRules_of_mem_updates {rules : List Rule} {s : Recorder ε} :
    ∀ update ∈ (replaceRules rules s).2.updates, update ∈ s.updates ∨ update.addRules = rules := by
  rw [replaceRules, ruleIds_eq]
  cases FilteringEngine.ruleIds s.engine with
  | mk ids engine =>
      cases ids with
      | error error => exact fun update hupdate => .inl hupdate
      | ok previous =>
          intro update hupdate
          rcases List.mem_append.mp hupdate with hupdate | hupdate
          · exact .inl hupdate
          · rw [List.mem_singleton.mp hupdate]
            exact .inr rfl

end Recorder

/-- Every record that was compiled from a source is well formed. -/
structure Segment.WellFormed (s : Segment) : Prop where
  rules : ∀ r ∈ s.rules, r.WellFormed
  cosmeticRules : ∀ r ∈ s.cosmeticRules, r.WellFormed
  scriptlets : ∀ call ∈ s.scriptlets, call.WellFormed

theorem Segment.wellFormed_ofCompiled (url : String) (etag : Option String) (ids : IdSequence)
    (listId text : String) :
    (Segment.ofCompiled url etag (compileList ids listId text).list).WellFormed :=
  have hlist := wellFormed_compileList ids listId text
  ⟨hlist.rules, hlist.cosmeticRules, hlist.scriptlets⟩

namespace Registry

/-- What every compiled segment has, all cached and all saved segments have. -/
theorem all_invariant {P : Segment → Prop}
    (hP : ∀ url etag ids listId text, P (.ofCompiled url etag (compileList ids listId text).list)) :
    Registry.Invariant (fun _ => True) (fun r => r.cache.All P) fun state => state.cache.All P where
  restored _ hstate := hstate
  withFlags _ h := h
  refresh _ _ _ _ h := Refresh.all_absorbEach hP h _ _
  withList _ _ h := h
  withCategory _ _ h := h
  savedState h := h

theorem wellFormed_of_mem_assembled {r : Registry} (h : r.cache.All Segment.WellFormed)
    {rule : Rule} (hrule : rule ∈ r.assembled.1) : rule.WellFormed := by
  obtain ⟨l, _, _, a, ha, hmem⟩ := mem_of_mem_assembled hrule
  obtain ⟨s, hs, hrule⟩ := List.mem_flatMap.mp hmem
  exact (h a (Dict.mem_values_iff.mpr ⟨l.id, ha⟩) s hs).rules rule hrule

end Registry

namespace Session

variable {σ ε : Type} [KeyValueStore σ] [FilteringEngine ε]

/-- An operation does with a recorder what it does with the engine behind it. -/
theorem after_recorder {s : Session (Backend σ (Recorder ε))} {s' : Session (Backend σ ε)}
    (hregistry : s.registry = s'.registry) (hstore : s.world.store = s'.world.store)
    (hengine : s.world.engine.engine = s'.world.engine) (op : Operation) :
    (s.after op).registry = (s'.after op).registry ∧
      (s.after op).world.store = (s'.after op).world.store ∧
      (s.after op).world.engine.engine = (s'.after op).world.engine := by
  obtain ⟨hread, hstore'⟩ := afterReading_congr hregistry hstore op.reading
  have hafter : (s.after op).registry = (s'.after op).registry := by
    rw [(s.after_eq op).1, (s'.after_eq op).1, hread]
  refine ⟨hafter, ?_, ?_⟩
  · rw [s.store_after, s'.store_after, hafter, hstore', hregistry]
  · rw [s.engine_after, s'.engine_after, hafter, hregistry]
    split
    · exact hengine ▸ (Recorder.engine_replaceRules _ _).2
    · exact hengine

end Session

namespace Fleet

variable {ε : Type} [FilteringEngine ε]

/-- A fleet with the engine behind the recorder in its place. -/
def unrecorded {σ : Type} (f : Fleet (Backend σ (Recorder ε))) : Fleet (Backend σ ε) :=
  ⟨f.registries, f.world.store, f.world.engine.engine⟩

theorem unrecorded_after {σ : Type} [KeyValueStore σ] (manifest : Manifest)
    (f : Fleet (Backend σ (Recorder ε))) (step : Step) :
    (f.after manifest step).unrecorded = f.unrecorded.after manifest step := by
  cases step with
  | opening settings => rfl
  | operation place op =>
      simp only [Fleet.after, unrecorded]
      cases hplace : f.registries[place]? with
      | none => rfl
      | some r =>
          let s := Session.ofRegistry r f.world
          let s' := Session.ofRegistry r f.unrecorded.world
          have hafter : (s.after op).registry = (s'.after op).registry ∧
              (s.after op).world.store = (s'.after op).world.store ∧
              (s.after op).world.engine.engine = (s'.after op).world.engine :=
            Session.after_recorder rfl rfl rfl op
          obtain ⟨hregistry, hstore, hengine⟩ := hafter
          dsimp only
          rw [hregistry, hstore, hengine]
          rfl

/-- A recorder changes nothing in a run. -/
theorem unrecorded_run {σ : Type} [KeyValueStore σ] (manifest : Manifest) (store : σ) (engine : ε)
    (steps : List Step) :
    (run manifest (⟨store, .of engine⟩ : Backend σ (Recorder ε)) steps).unrecorded =
      run manifest ⟨store, engine⟩ steps :=
  (List.foldl_hom unrecorded fun f step => (unrecorded_after manifest f step).symm).symm

/-- All that a fleet has compiled is well formed, wherever it is now: in a cache, in the store, or in
an update that was brought to the engine. -/
structure WellFormed (f : Fleet (Backend (Faulty MemoryStore StoreError) (Recorder ε))) : Prop where
  cached : ∀ r ∈ f.registries, r.cache.All Segment.WellFormed
  stored : f.world.store.device.Holds fun state => state.cache.All Segment.WellFormed
  handed : ∀ update ∈ f.world.engine.updates, ∀ rule ∈ update.addRules, rule.WellFormed

/-- A step hands only well-formed rules to the engine if all that was compiled is well formed, and
what it compiles is so as well. -/
theorem WellFormed.after {f : Fleet (Backend (Faulty MemoryStore StoreError) (Recorder ε))}
    (h : f.WellFormed) (manifest : Manifest) (step : Step) : (f.after manifest step).WellFormed := by
  cases step with
  | opening settings =>
      refine ⟨fun r hr => ?_, h.stored, h.handed⟩
      rcases List.mem_append.mp hr with hr | hr
      · exact h.cached r hr
      · rw [List.mem_singleton.mp hr]
        exact RuleCache.all_empty
  | operation place op =>
      simp only [Fleet.after]
      cases hplace : f.registries[place]? with
      | none => exact h
      | some r =>
          let s := Session.ofRegistry r f.world
          have hafter : (s.after op).registry.cache.All Segment.WellFormed ∧
              (s.after op).world.store.device.Holds fun state => state.cache.All Segment.WellFormed :=
            Session.after_invariant (Registry.all_invariant Segment.wellFormed_ofCompiled)
              (MemoryStore.storeInvariant_holds _) (fun _ _ => .intro)
              (h.cached r (List.mem_of_getElem? hplace)) h.stored
          obtain ⟨hcache, hstore⟩ := hafter
          refine ⟨fun r' hr' => ?_, hstore, fun update hupdate => ?_⟩
          · rcases List.mem_or_eq_of_mem_set hr' with hr' | rfl
            · exact h.cached r' hr'
            · exact hcache
          · have hengine := s.engine_after op
            dsimp only at hupdate
            rw [hengine] at hupdate
            split at hupdate
            · rcases Recorder.addRules_of_mem_updates update hupdate with hupdate | hrules
              · exact h.handed update hupdate
              · rw [hrules]
                exact fun rule hrule => Registry.wellFormed_of_mem_assembled hcache hrule
            · exact h.handed update hupdate

/-- So does every run from an empty store. -/
theorem wellFormed_run (manifest : Manifest) (fault : Nat → Option StoreError) (engine : ε)
    (steps : List Step) :
    (run manifest (emptyWorld fault (Recorder.of engine)) steps).WellFormed := by
  have hempty : (⟨[], emptyWorld fault (Recorder.of engine)⟩ :
      Fleet (Backend (Faulty MemoryStore StoreError) (Recorder ε))).WellFormed :=
    ⟨fun _ hr => absurd hr List.not_mem_nil, MemoryStore.holds_empty RuleCache.all_empty,
      fun _ hupdate => absurd hupdate List.not_mem_nil⟩
  rw [run]
  generalize (⟨[], emptyWorld fault (Recorder.of engine)⟩ :
    Fleet (Backend (Faulty MemoryStore StoreError) (Recorder ε))) = f at *
  induction steps generalizing f with
  | nil => exact hempty
  | cons step steps ih => exact ih _ (hempty.after manifest step)

end Fleet

/-- Every record that any text compiles to is well formed, for every sequence of ids and every list.
Of whatever registries of a manifest do from an empty store on, whichever calls of the store fail and
whatever the engine does: so is every record in a cache, and every rule that is handed to the engine,
which goes on as if nothing were recorded. -/
theorem compiled_records_well_formed {ε : Type} [FilteringEngine ε] :
    (∀ (ids : IdSequence) (listId text : String),
      (compileList ids listId text).list.WellFormed) ∧
    ∀ (manifest : Manifest) (fault : Nat → Option StoreError) (engine : ε)
      (steps : List Fleet.Step),
      let f := Fleet.run manifest (Fleet.emptyWorld fault (Recorder.of engine)) steps
      f.unrecorded = Fleet.run manifest (Fleet.emptyWorld fault engine) steps ∧
        (∀ r ∈ f.registries, r.cache.All Segment.WellFormed) ∧
        ∀ update ∈ f.world.engine.updates, ∀ rule ∈ update.addRules, rule.WellFormed := by
  refine ⟨wellFormed_compileList, fun manifest fault engine steps => ?_⟩
  have hrun := Fleet.wellFormed_run manifest fault engine steps
  exact ⟨Fleet.unrecorded_run manifest _ engine steps, hrun.cached, hrun.handed⟩

/-- A registry downloads its lists and hands three rules to an engine that held none. -/
theorem compiled_records_well_formed_sample :
    let op := Session.Operation.refreshAll false Fleet.sampleServers
    let world := Fleet.emptyWorld (fun _ => none) (Recorder.of (MemoryEngine.withLimit 30000))
    let f := Fleet.run .sample world [.opening default, .operation 0 op]
    ∃ update ∈ f.world.engine.updates, update.addRules.length = 3 ∧
      ∀ rule ∈ update.addRules, rule.WellFormed := by
  intro op world f
  obtain ⟨-, hrun⟩ := @compiled_records_well_formed MemoryEngine _
  obtain ⟨-, -, hhanded⟩ := hrun .sample (fun _ => none) (.withLimit 30000)
    [.opening default, .operation 0 op]
  let s := Session.ofRegistry (.ofManifest .sample default) world
  have hengine : f.world.engine =
      (replaceRules (s.after op).registry.assembled.1 world.engine).2 := s.engine_after op
  have hupdate : .replacing [] (s.after op).registry.assembled.1 ∈ f.world.engine.updates := by
    rw [hengine]
    exact List.mem_singleton_self _
  refine ⟨_, hupdate, ?_, hhanded _ hupdate⟩
  rw [(s.after_eq op).1]
  exact (assemble_perm (by decide +kernel) (by decide +kernel)).length_eq.trans (by decide +kernel)

end Blocklist
