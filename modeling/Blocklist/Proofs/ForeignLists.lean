import Blocklist.Proofs.FaultlessStore
import Blocklist.Proofs.Flags

/-!
# Lists that a manifest does not have

A store may hold the states of lists that a registry does not know, as after a change of the manifest
or when registries of several manifests share a store. A registry that loads keeps what was compiled
for such lists and saves it again. It does not keep their metadata: these are written for its own
lists alone, so they are gone once it saves for the first time.

## Implementation notes

`Session.Foreign` follows one foreign list through the registry and through the store. Of a run only
its saves matter, and whether an operation saves is a matter of the manifest.
-/

namespace Blocklist

namespace Registry

variable {r : Registry} {lists : List FilterList} {id : String}

theorem ids_eq_of_catalogue (h : r.catalogue = lists) :
    r.lists.map (·.id) = lists.map (·.id) := by
  rw [← ids_catalogue, h]

/-- A refresh leaves alone what is cached for a list that the registry does not have. -/
theorem get?_cache_refresh_of_not_mem (hid : id ∉ r.lists.map (·.id))
    (chosen : FilterList → Nat → Bool) (force : Bool) (servers : Servers) :
    (r.refresh chosen force servers).registry.cache.get? id = r.cache.get? id := by
  apply Refresh.get?_absorbEach_of_not_mem
  rwa [Refresh.map_id_mapIdx]

/-- Every change of a registry leaves alone what is cached for a list that it does not have, unless it
takes over another state. -/
theorem foreign_invariant (hid : id ∉ lists.map (·.id)) (artifacts : Option ListArtifacts) :
    Registry.Invariant (fun _ => True)
      (fun r => r.catalogue = lists ∧ r.cache.get? id = artifacts)
      fun state => state.cache.get? id = artifacts where
  restored {r state} h hstate := ⟨(catalogue_restored r state).trans h.1, hstate⟩
  withFlags {r} metadata h := ⟨(catalogue_withFlags r metadata).trans h.1, h.2⟩
  refresh {r} chosen force servers _ h :=
    have hmissing := (ids_eq_of_catalogue h.1).symm ▸ hid
    ⟨(catalogue_refresh r chosen force servers).trans h.1,
      (get?_cache_refresh_of_not_mem hmissing chosen force servers).trans h.2⟩
  withList {r} id enabled h := ⟨(catalogue_withList r id enabled).trans h.1, h.2⟩
  withCategory {r} category enabled h :=
    ⟨(catalogue_withCategory r category enabled).trans h.1, h.2⟩
  savedState h := h.2

end Registry

namespace Session

variable {σ ε : Type} [KeyValueStore σ] [FilteringEngine ε] {Holds : σ → SavedState → Prop}
variable {s : Session (Backend σ ε)} {lists : List FilterList} {id : String}
variable {metadata : Option ListMetadata} {artifacts : Option ListArtifacts}

/-- What a session on some lists keeps of another list: its artifacts in the cache, and its metadata
and artifacts in the store. -/
structure Foreign (Holds : σ → SavedState → Prop) (lists : List FilterList) (id : String)
    (metadata : Option ListMetadata) (artifacts : Option ListArtifacts)
    (s : Session (Backend σ ε)) : Prop where
  catalogue : s.registry.catalogue = lists
  cached : s.registry.cache.get? id = artifacts
  stored : ∃ state, Holds s.world.store state ∧ state.metadata.get? id = metadata ∧
    state.cache.get? id = artifacts

omit [FilteringEngine ε] in
/-- Reading leaves a store with the state that it holds. -/
theorem holds_afterReading (hstore : Faultless Holds) {state : SavedState}
    (h : Holds s.world.store state) (reading : Reading) :
    Holds (s.afterReading reading).world.store state := by
  cases reading with
  | nothing => exact h
  | flags =>
      rw [afterReading, world_adoptFlags, Backend.readMetadata_eq]
      exact (hstore.readMetadata h).2
  | state =>
      rw [afterReading, world_load, Backend.read_eq]
      exact (hstore.read h).2

omit [FilteringEngine ε] in
/-- A load takes over the state that a store holds. -/
theorem load_of_holds (hstore : Faultless Holds) {state : SavedState}
    (h : Holds s.world.store state) :
    s.load.1 = .ok () ∧ s.load.2.registry = s.registry.restored state := by
  have hread : (SavedState.read s.world).1 = .ok state := by
    rw [Backend.read_eq]
    exact (hstore.read h).1
  rw [load_fst, registry_load, hread]
  exact ⟨rfl, rfl⟩

/-- What is stored of another list is taken over with the state, and stays in the store. -/
theorem foreign_load (hstore : Faultless Holds) {state : SavedState}
    (hcatalogue : s.registry.catalogue = lists) (h : Holds s.world.store state) (id : String) :
    (s.after .load).Foreign Holds lists id (state.metadata.get? id) (state.cache.get? id) := by
  have hregistry : (s.after .load).registry = s.registry.restored state :=
    (load_of_holds hstore h).2
  refine ⟨?_, ?_, state, holds_afterReading hstore h .state, rfl, rfl⟩
  · rw [hregistry, Registry.catalogue_restored, hcatalogue]
  · rw [hregistry]
    rfl

/-- An operation keeps the artifacts of a foreign list, and its metadata unless it saves. -/
theorem Foreign.after (h : s.Foreign Holds lists id metadata artifacts) (hstore : Faultless Holds)
    (hid : id ∉ lists.map (·.id)) (op : Operation) :
    (s.after op).Foreign Holds lists id (if op.saves s.registry then none else metadata)
      artifacts := by
  obtain ⟨state, hheld, hmetadata, hartifacts⟩ := h.stored
  obtain ⟨hcatalogue, hcached⟩ : (s.after op).registry.catalogue = lists ∧
      (s.after op).registry.cache.get? id = artifacts :=
    (after_invariant (Registry.foreign_invariant hid artifacts)
      (hstore.storeInvariant fun state => state.cache.get? id = artifacts) (fun _ _ => .intro)
      ⟨h.catalogue, h.cached⟩ ⟨state, hheld, hartifacts⟩).1
  have hheld' := holds_afterReading hstore hheld op.reading
  refine ⟨hcatalogue, hcached, ?_⟩
  rw [store_after]
  split
  · have hnone := Registry.get?_metadata_of_not_mem
      (Registry.ids_eq_of_catalogue hcatalogue ▸ hid)
    exact ⟨_, (hstore.write _ hheld').2, hnone, hcached⟩
  · exact ⟨state, hheld', hmetadata, hartifacts⟩

/-- A run keeps the artifacts of a foreign list, and its metadata unless an operation saves. -/
theorem Foreign.run (h : s.Foreign Holds lists id metadata artifacts) (hstore : Faultless Holds)
    (hid : id ∉ lists.map (·.id)) {r : Registry} (hr : r.catalogue = lists) (ops : List Operation) :
    (s.run ops).Foreign Holds lists id (if ops.any (·.saves r) then none else metadata)
      artifacts := by
  induction ops generalizing s metadata with
  | nil => exact h
  | cons op ops ih =>
      have hsaves : op.saves s.registry = op.saves r :=
        Registry.saves_eq_of_catalogue (h.catalogue.trans hr.symm) op
      have hrun := ih (hsaves ▸ h.after hstore hid op)
      have hlast : (if ops.any (·.saves r) then none
          else if op.saves r then none else metadata) =
            if (op :: ops).any (·.saves r) then none else metadata := by
        rw [List.any_cons]
        cases op.saves r <;> simp
      exact hlast ▸ hrun

omit [FilteringEngine ε] in
/-- Where the metadata of a foreign list are gone, a registry that knows the list gives it the flag
of its own manifest, and still takes over its artifacts. -/
theorem Foreign.flag?_of_lost (h : s.Foreign Holds lists id none artifacts)
    (hstore : Faultless Holds) (r : Registry) (engine : ε) :
    let other : Session (Backend σ ε) := .ofRegistry r ⟨s.world.store, engine⟩
    other.load.2.registry.flag? id = r.flag? id ∧
      other.load.2.registry.cache.get? id = artifacts := by
  intro other
  obtain ⟨state, hheld, hmetadata, hartifacts⟩ := h.stored
  rw [(load_of_holds hstore (s := other) hheld).2]
  constructor
  · rw [Registry.flag?_restored, hmetadata]
    exact congrFun Option.map_id _
  · exact hartifacts

/-- **What is stored of a list outside the manifest is kept up to the first save, and from then on
only what was compiled for it.** Let a store that serves every call hold a state, and let a registry
of a manifest load it, which it can; then let anything be asked of the registry. In the store is a
state in which the artifacts of every list outside the manifest are as before. Its metadata are as
before exactly if nothing that was asked has saved, or if there were none; else they are gone.

What saves is known from the manifest (`Registry.saves_eq_of_catalogue`). Stores in memory and in
files serve every call (`MemoryStore.faultless`, `FileStore.faultless`). -/
theorem foreign_state_is_kept_iff (hstore : Faultless Holds) (manifest : Manifest)
    (settings : Settings) (engine : ε) {store : σ} {state : SavedState} (hholds : Holds store state)
    (ops : List Operation) (hid : id ∉ manifest.lists.map (·.id)) :
    let opened : Session (Backend σ ε) := .ofRegistry (.ofManifest manifest settings) ⟨store, engine⟩
    let saved := ops.any (·.saves opened.registry)
    opened.load.1 = .ok () ∧
      ∃ state', (SavedState.read (opened.run (.load :: ops)).world.store).1 = .ok state' ∧
        state'.cache.get? id = state.cache.get? id ∧
        state'.metadata.get? id = (if saved then none else state.metadata.get? id) ∧
        (state'.metadata.get? id = state.metadata.get? id ↔
          saved = false ∨ state.metadata.get? id = none) := by
  intro opened saved
  have hcatalogue : opened.registry.catalogue = manifest.catalogue :=
    manifest.catalogue_ofManifest settings
  have hforeign : id ∉ manifest.catalogue.map (·.id) := by
    rw [Manifest.catalogue, List.map_map]
    exact hid
  have hloaded := foreign_load hstore hcatalogue hholds id
  obtain ⟨state', hheld, hmetadata, hartifacts⟩ :=
    (hloaded.run hstore hforeign hcatalogue ops).stored
  have hlost : ∀ (b : Bool) (m : Option ListMetadata),
      (if b then none else m) = m ↔ b = false ∨ m = none := by
    rintro (_ | _) m <;> simp [eq_comm]
  refine ⟨(load_of_holds hstore hholds).1, state', (hstore.read hheld).1, hartifacts, hmetadata, ?_⟩
  rw [hmetadata]
  exact hlost saved _

/-- The state that a registry with a list of social media left, in which that list is disabled. -/
def socialState : SavedState where
  metadata := .ofList [("social", ⟨1, none, some "s1", some false⟩)]
  cache := .ofList [("social", ⟨[.ofCompiled "https://s.example/social" (some "s1")
    (compileList ⟨1000⟩ "social" "||like.example.com^\n").list]⟩)]

/-- The state lies in a file, and a list of the manifest is switched off. -/
theorem foreign_state_is_kept_sample :
    let file := (SavedState.write socialState (FileStore.mk .empty "state.json")).2
    let opened : Session (Backend FileStore MemoryEngine) :=
      .ofRegistry (.ofManifest .sample default) ⟨file, .withLimit 30000⟩
    opened.load.1 = .ok () ∧
      ∃ state', (SavedState.read (opened.run [.load, .toggleList "ads" false]).world.store).1 =
        .ok state' ∧
          state'.cache.get? "social" = socialState.cache.get? "social" ∧
          state'.metadata.get? "social" = none := by
  intro file opened
  have hready : Disk.empty.Ready "state.json" ["state.json.tmp"] ["state.json"] :=
    Disk.ready_empty rfl rfl rfl rfl rfl
  have hempty : (FileStore.mk .empty "state.json").Mirrors .empty :=
    ⟨hready.accepts, rfl, List.forall_mem_nil _⟩
  have hfile : file.Shows socialState :=
    ⟨_, (hempty.write socialState).2, MemoryStore.shows_write socialState .empty⟩
  have hforeign : "social" ∉ Manifest.sample.lists.map (·.id) := by decide
  have hsaved : [Operation.toggleList "ads" false].any (·.saves opened.registry) = true := by
    decide
  obtain ⟨hload, state', hread, hcache, hmetadata, -⟩ := foreign_state_is_kept_iff
    FileStore.faultless .sample default (MemoryEngine.withLimit 30000) hfile
    [.toggleList "ads" false] hforeign
  rw [if_pos hsaved] at hmetadata
  exact ⟨hload, state', hread, hcache, hmetadata⟩

/-- Switching a list of the manifest off leaves the artifacts of another list in the store and takes
its metadata away. -/
theorem foreign_metadata_is_lost :
    let store := (SavedState.write socialState MemoryStore.empty).2
    let opened : Session (Backend MemoryStore MemoryEngine) :=
      .ofRegistry (.ofManifest .sample default) ⟨store, .withLimit 30000⟩
    "social" ∉ Manifest.sample.lists.map (·.id) ∧ (SavedState.read store).1 = .ok socialState ∧
      ∃ state', (SavedState.read (opened.run [.load, .toggleList "ads" false]).world.store).1 =
        .ok state' ∧
          state'.cache.get? "social" = socialState.cache.get? "social" ∧
          (state'.cache.get? "social").isSome ∧
          state'.metadata.get? "social" = none ∧
          socialState.metadata.get? "social" = some ⟨1, none, some "s1", some false⟩ := by
  intro store opened
  have hshows := MemoryStore.shows_write socialState .empty
  have hforeign : "social" ∉ opened.registry.catalogue.map (·.id) := by decide
  have hartifacts : (socialState.cache.get? "social").isSome := by decide +kernel
  have hloaded := foreign_load (s := opened) MemoryStore.faultless rfl hshows "social"
  obtain ⟨state', hheld, hmetadata, hcache⟩ :=
    (hloaded.run MemoryStore.faultless hforeign rfl [.toggleList "ads" false]).stored
  rw [if_pos (by decide)] at hmetadata
  exact ⟨by decide, hshows, state', hheld, hcache, hcache ▸ hartifacts, hmetadata, by decide +kernel⟩

end Session

end Blocklist
