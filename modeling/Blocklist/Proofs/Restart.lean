import Blocklist.Proofs.FreshIds

/-!
# A restart restores the state

A registry that opens on a store which has just taken the state of another one of the same manifest
and settings comes to that state: its lists, its cache, and with them its answers, the rules it
assembles and the requests it makes. Only its sequence of ids may stand earlier, behind the ids that
the cache still holds.

## Implementation notes

What is saved does not name what a manifest fixes, so a registry is restored exactly if it is opened
on the same manifest. `Registry.Continues` says so much of every registry of a run, and that its
sequence stands behind its settings and its cache.
-/

namespace Blocklist

namespace RuleId

theorem next_le_next {id id' : RuleId} (h : id ≤ id') : id.next ≤ id'.next := by
  have hnext := toNat_next id
  have hnext' := toNat_next id'
  rw [UInt32.le_iff_toNat_le] at *
  omega

end RuleId

namespace IdSequence

/-- A sequence is beyond ids in use: its next id does not come before the next one of any of them. -/
def Beyond (ids : IdSequence) (used : List RuleId) : Prop :=
  ∀ id ∈ used, id.next ≤ ids.next

theorem Beyond.mono {ids ids' : IdSequence} {used : List RuleId} (h : ids.Beyond used)
    (hle : ids.next ≤ ids'.next) : ids'.Beyond used :=
  fun id hid => UInt32.le_trans (h id hid) hle

/-- A sequence is beyond what it has handed out. -/
theorem beyond_taken (ids : IdSequence) (n : Nat) : (ids.skip n).Beyond (ids.taken n) := by
  intro id hid
  rcases (le_and_lt_of_mem_taken hid).2 with hlast | hlt
  · rw [hlast]
    exact RuleId.le_last _
  · exact RuleId.next_le_of_lt hlt

/-- A sequence that passes an id is beyond all that are not greater. -/
theorem beyond_advancePast (ids : IdSequence) {used : List RuleId} {top : RuleId}
    (htop : ∀ id ∈ used, id ≤ top) : (ids.advancePast top).Beyond used := by
  intro id hid
  rw [advancePast]
  split
  · exact RuleId.next_le_next (htop id hid)
  · rename_i hlt
    exact RuleId.next_le_of_lt (UInt32.lt_of_le_of_lt (htop id hid) (UInt32.not_le.mp hlt))

end IdSequence

namespace RuleCache

theorem mem_ids_of_get? {cache : RuleCache} {key : String} {a : ListArtifacts}
    (h : cache.get? key = some a) {id : RuleId} (hid : id ∈ a.ids) : id ∈ cache.ids :=
  List.mem_flatMap.mpr ⟨a, Dict.mem_values_iff.mpr ⟨key, h⟩, hid⟩

/-- What is inserted brings no ids but its own. -/
theorem mem_ids_insert {cache : RuleCache} {key : String} {a : ListArtifacts} {id : RuleId}
    (h : id ∈ ids (cache.insert key a)) : id ∈ a.ids ∨ id ∈ cache.ids := by
  rcases List.mem_append.mp ((cache.ids_insert_perm key a).mem_iff.mp h) with h | h
  · exact .inl h
  · exact .inr ((cache.ids_perm_erase key).mem_iff.mpr (List.mem_append_right _ h))

end RuleCache

/-! ### What runs keep -/

namespace FilterList

/-- The state of a list brings it back from its description. -/
theorem withMetadata_metadata {l l' : FilterList} (h : l'.pristine = l.pristine) :
    l'.withMetadata l.metadata = l := by
  obtain ⟨⟩ := l
  obtain ⟨⟩ := l'
  simp only [pristine, mk.injEq] at h
  simp only [withMetadata, metadata, Option.getD_some, h]

/-- Taking in replies keeps a sequence beyond the cache, and takes no id twice. -/
theorem beyond_absorb (l : FilterList) {cache : RuleCache} {ids : IdSequence}
    (h : ids.Beyond cache.ids) (delivery : Delivery) :
    ids.next ≤ (l.absorb cache ids delivery).ids.next ∧
      (l.absorb cache ids delivery).ids.Beyond (l.absorb cache ids delivery).cache.ids := by
  obtain ⟨hperm, hids⟩ := Intake.ids_ofReplies l.id (cache.get? l.id) ids
    (l.sources.zip delivery.replies)
  simp only [absorb]
  generalize Intake.ofReplies l.id (cache.get? l.id) ids (l.sources.zip delivery.replies) = intake
    at *
  have hle : ids.next ≤ intake.ids.next := hids ▸ ids.next_le_skip _
  split
  · exact ⟨hle, h.mono hle⟩
  · split
    · exact ⟨hle, h.mono hle⟩
    · refine ⟨hle, fun id hid => ?_⟩
      rcases RuleCache.mem_ids_insert hid with hid | hid
      · rcases List.mem_append.mp (hperm.mem_iff.mp hid) with hid | hid
        · obtain ⟨s, hs, hid⟩ := List.mem_flatMap.mp hid
          obtain ⟨pair, _, hs⟩ := List.mem_flatMap.mp hs
          obtain ⟨_, a, ha, hmem⟩ := Intake.mem_kept hs
          have hused := RuleCache.mem_ids_of_get? ha (List.mem_flatMap.mpr ⟨s, hmem, hid⟩)
          exact h.mono hle id hused
        · rw [hids]
          exact ids.beyond_taken _ id hid
      · exact h.mono hle id hid

end FilterList

namespace Refresh

/-- So does taking in the replies for several lists. -/
theorem beyond_absorbEach {cache : RuleCache} {ids : IdSequence} (h : ids.Beyond cache.ids)
    (deliveries : List (FilterList × Option Delivery)) :
    ids.next ≤ (absorbEach cache ids deliveries).ids.next ∧
      (absorbEach cache ids deliveries).ids.Beyond
        (absorbEach cache ids deliveries).cache.ids := by
  induction deliveries generalizing cache ids with
  | nil => exact ⟨UInt32.le_refl _, h⟩
  | cons d rest ih =>
      obtain ⟨l, _ | delivery⟩ := d
      · exact ih h
      · obtain ⟨hle, hbeyond⟩ := l.beyond_absorb h delivery
        obtain ⟨hle', hbeyond'⟩ := ih hbeyond
        exact ⟨UInt32.le_trans hle hle', hbeyond'⟩

end Refresh

namespace Registry

/-- A registry continues what one of a manifest and settings began. -/
structure Continues (manifest : Manifest) (settings : Settings) (r : Registry) : Prop where
  catalogue : r.catalogue = manifest.catalogue
  categories : r.categories = manifest.categories
  budget : r.budget = settings.maxDynamicRules
  numbered : r.cache.Numbered
  started : settings.ruleIdStart ≤ r.ids.next
  beyond : r.ids.Beyond r.cache.ids

theorem continues_ofManifest (manifest : Manifest) (settings : Settings) :
    (ofManifest manifest settings).Continues manifest settings where
  catalogue := manifest.catalogue_ofManifest settings
  categories := rfl
  budget := rfl
  numbered := RuleCache.numbered_empty
  started := UInt32.le_refl _
  beyond _ hid := absurd hid List.not_mem_nil

/-- The sequence of a registry that takes over a state stands where it stood or behind the greatest
id in use. -/
theorem ids_restored (r : Registry) (state : SavedState) :
    ((r.restored state).ids = r.ids ∧ state.cache.ids = []) ∨
      ∃ top ∈ state.cache.ids, (∀ id ∈ state.cache.ids, id ≤ top) ∧
        (r.restored state).ids = r.ids.advancePast top := by
  rw [restored, RuleCache.maxId?_eq]
  dsimp only
  split
  · rename_i top htop
    obtain ⟨hmem, hle⟩ := List.max?_eq_some_iff.mp htop
    exact .inr ⟨top, hmem, hle, rfl⟩
  · rename_i hnone
    exact .inl ⟨rfl, List.max?_eq_none_iff.mp hnone⟩

theorem Continues.restored {manifest : Manifest} {settings : Settings} {r : Registry}
    (h : r.Continues manifest settings) {state : SavedState} (hstate : state.cache.Numbered) :
    (r.restored state).Continues manifest settings where
  catalogue := (catalogue_restored r state).trans h.catalogue
  categories := h.categories
  budget := h.budget
  numbered := hstate
  started := by
    obtain ⟨hids, _⟩ | ⟨top, _, _, hids⟩ := r.ids_restored state
    · rw [hids]
      exact h.started
    · rw [hids]
      exact UInt32.le_trans h.started (r.ids.le_advancePast top)
  beyond := by
    obtain ⟨_, hnone⟩ | ⟨top, _, htop, hids⟩ := r.ids_restored state
    · intro id hid
      exact absurd (hnone ▸ hid : id ∈ []) List.not_mem_nil
    · rw [hids]
      exact r.ids.beyond_advancePast htop

theorem continues_invariant (manifest : Manifest) (settings : Settings) :
    Registry.Invariant (fun _ => True) (Continues manifest settings) fun state =>
      state.cache.Numbered where
  restored h hstate := h.restored hstate
  withFlags {r} metadata h := { h with catalogue := (catalogue_withFlags r metadata).trans h.catalogue }
  refresh {r} chosen force servers _ h :=
    have hbeyond := Refresh.beyond_absorbEach h.beyond _
    { catalogue := (catalogue_refresh r chosen force servers).trans h.catalogue
      categories := h.categories
      budget := h.budget
      numbered := Refresh.all_absorbEach Segment.numbered_ofCompiled h.numbered _ _
      started := UInt32.le_trans h.started hbeyond.1
      beyond := hbeyond.2 }
  withList {r} id enabled h :=
    { h with catalogue := (catalogue_withList r id enabled).trans h.catalogue }
  withCategory {r} category enabled h :=
    { h with catalogue := (catalogue_withCategory r category enabled).trans h.catalogue }
  savedState h := h.numbered

/-- The saved state brings back the lists of any registry of the same catalogue. -/
theorem lists_restored_savedState {r r' : Registry} (hids : (r.lists.map (·.id)).Nodup)
    (h : r'.catalogue = r.catalogue) : (r'.restored r.savedState).lists = r.lists := by
  have hlength : r'.lists.length = r.lists.length := by
    simpa [catalogue] using congrArg List.length h
  apply List.ext_getElem (by simpa [restored] using hlength)
  intro place hplace hplace'
  have hplace'' : place < r'.lists.length := hlength ▸ hplace'
  have hpristine : r'.lists[place].pristine = r.lists[place].pristine := by
    simpa [catalogue, hplace', hplace''] using congrArg (·[place]?) h
  have hid : r'.lists[place].id = r.lists[place].id := by
    rw [← FilterList.id_pristine, hpristine, FilterList.id_pristine]
  have hget : r.metadata.get? r'.lists[place].id = some r.lists[place].metadata :=
    hid ▸ get?_metadata hids (List.getElem_mem hplace')
  simp only [restored, savedState, List.getElem_map, hget]
  exact FilterList.withMetadata_metadata hpristine

/-- The saved state brings back all of a registry but its sequence. -/
theorem restored_savedState {manifest : Manifest} {settings : Settings} {r r' : Registry}
    (hids : (r.lists.map (·.id)).Nodup) (h : r.Continues manifest settings)
    (h' : r'.Continues manifest settings) :
    r'.restored r.savedState = { r with ids := (r'.restored r.savedState).ids } := by
  have hlists := lists_restored_savedState hids (h'.catalogue.trans h.catalogue.symm)
  have hcategories : r'.categories = r.categories := h'.categories.trans h.categories.symm
  have hbudget : r'.budget = r.budget := h'.budget.trans h.budget.symm
  exact (mk.injEq ..).mpr ⟨hlists, hcategories, rfl, rfl, hbudget⟩

/-- The sequence of a registry that opens anew stands behind the cache it takes over, and not behind
that of the registry which saved it. -/
theorem Continues.ids_restart {manifest : Manifest} {settings : Settings} {r : Registry}
    (h : r.Continues manifest settings) :
    let restarted := (ofManifest manifest settings).restored r.savedState
    settings.ruleIdStart ≤ restarted.ids.next ∧ restarted.ids.next ≤ r.ids.next ∧
      (RuleId.last ∈ r.cache.ids ∨ ∀ id ∈ r.cache.ids, id < restarted.ids.next) := by
  have hnumbered : r.savedState.cache.Numbered := h.numbered
  have hstarted := (continues_ofManifest manifest settings).restored hnumbered
  obtain ⟨hids, hnone⟩ | ⟨top, hmem, htop, hids⟩ :=
    (ofManifest manifest settings).ids_restored r.savedState
  · refine ⟨hstarted.started, ?_, .inr fun id hid => ?_⟩
    · rw [hids]
      exact h.started
    · exact absurd (hnone ▸ hid : id ∈ []) List.not_mem_nil
  · refine ⟨hstarted.started, ?_, ?_⟩
    · rw [hids]
      exact IdSequence.advancePast_le h.started (h.beyond top hmem)
    · by_cases hlast : top = RuleId.last
      · exact .inl (hlast ▸ hmem)
      · right
        intro id hid
        rw [hids]
        exact UInt32.lt_of_le_of_lt (htop id hid) (IdSequence.lt_advancePast _ hlast)

end Registry

/-! ### Restarts -/

/-- A store has just taken a state. -/
def SavedState.JustWritten {σ : Type} [KeyValueStore σ] (state : SavedState) (store : σ) : Prop :=
  ∃ before : σ, SavedState.write state before = (.ok (), store)

/-- What is read from a store that has just taken a state is that state. -/
theorem SavedState.JustWritten.read {state : SavedState} {store : Faulty MemoryStore StoreError}
    (h : state.JustWritten store) :
    (∀ state', (SavedState.read store).1 = .ok state' → state' = state) ∧
      (store.fault store.calls = none → store.fault (store.calls + 1) = none →
        (SavedState.read store).1 = .ok state) := by
  obtain ⟨before, hwrite⟩ := h
  have hread : (SavedState.read store.device).1 = .ok state := by
    rw [Faulty.device_of_write_ok hwrite, SavedState.read_write]
  constructor
  · intro state' hstate'
    have hdevice := (Faulty.readsThrough.read store).2 state' hstate'
    exact Except.ok.inj (hdevice.symm.trans hread)
  · intro hfirst hsecond
    exact (Faulty.read_of_sound hfirst hsecond).trans hread

namespace Session

/-- An operation that saves, and succeeds in it, leaves a store that has just taken its state. -/
theorem justWritten_after {σ ε : Type} [KeyValueStore σ] [FilteringEngine ε]
    {s : Session (Backend σ ε)} {op : Operation} (h : op.saves s.registry = true)
    (hok : (SavedState.write (s.after op).registry.savedState
      (s.afterReading op.reading).world.store).1 = .ok ()) :
    (s.after op).registry.savedState.JustWritten (s.after op).world.store := by
  rw [store_after, if_pos h]
  exact ⟨_, Prod.ext hok rfl⟩

/-- A load that fails changes nothing in the registry. -/
theorem registry_load_of_error {w : Type} [KeyValueStore w] {s : Session w} {error : StoreError}
    (h : s.load.1 = .error error) : s.load.2.registry = s.registry := by
  rw [load_fst] at h
  rw [registry_load]
  cases hread : (SavedState.read s.world).1 with
  | ok state =>
      rw [hread] at h
      cases h
  | error reason => rfl

end Session

namespace Fleet

/-- An empty store whose calls fail on a schedule, beside an engine. -/
def emptyWorld {ε : Type} (fault : Nat → Option StoreError) (engine : ε) :
    Backend (Faulty MemoryStore StoreError) ε :=
  ⟨⟨.empty, fault, 0⟩, engine⟩

variable {ε : Type} [FilteringEngine ε]

/-- Of whatever registries of one manifest do from an empty store on, and whichever calls of the
store fail: once the state of a registry is saved, a registry of the same settings that opens on the
store and loads it has the same lists and the same cache, gives the same answers, assembles the same
rules and makes the same requests. Its next id is not below that of the settings, not above that of
the other registry, and above all ids in the cache unless the greatest one is among them. A load
fails only if a call of the store does, and a load that fails changes nothing in the registry.
A manifest that is read has distinct list ids (`Manifest.nodup_ids_of_ofText`). -/
theorem restart_restores (manifest : Manifest) (hids : (manifest.lists.map (·.id)).Nodup)
    (fault : Nat → Option StoreError) (engine : ε) (steps : List Step) {place : Nat}
    {settings : Settings} (hsettings : (openings steps)[place]? = some settings) {r : Registry}
    (hr : (run manifest (emptyWorld fault engine) steps).registries[place]? = some r)
    (hsaved : r.savedState.JustWritten (run manifest (emptyWorld fault engine) steps).world.store)
    {ε' : Type} (engine' : ε') :
    let store := (run manifest (emptyWorld fault engine) steps).world.store
    let opened : Session (Backend (Faulty MemoryStore StoreError) ε') :=
      .ofRegistry (.ofManifest manifest settings) ⟨store, engine'⟩
    let restarted := opened.load.2.registry
    (store.fault store.calls = none → store.fault (store.calls + 1) = none →
      opened.load.1 = .ok ()) ∧
    (opened.load.1 = .ok () →
      restarted.lists = r.lists ∧ restarted.cache = r.cache ∧ restarted.status = r.status ∧
        (∀ host, restarted.cosmeticRulesFor host = r.cosmeticRulesFor host ∧
          restarted.scriptletsFor host = r.scriptletsFor host) ∧
        restarted.assembled = r.assembled ∧
        (∀ chosen force servers, (restarted.refresh chosen force servers).requests =
          (r.refresh chosen force servers).requests) ∧
        settings.ruleIdStart ≤ restarted.ids.next ∧ restarted.ids.next ≤ r.ids.next ∧
        r.cache.Numbered ∧
        (RuleId.last ∈ r.cache.ids ∨ ∀ id ∈ r.cache.ids, id < restarted.ids.next)) ∧
    ∀ {w : Type} [KeyValueStore w] (s : Session w) (error : StoreError),
      s.load.1 = .error error → s.load.2.registry = s.registry := by
  intro store opened restarted
  obtain ⟨settings', hsettings', hcontinues⟩ := exists_getElem?_of_forall₂
    (run_invariant_openings (Registry.continues_invariant manifest)
      (MemoryStore.storeInvariant_holds fun state => state.cache.Numbered)
      (Registry.continues_ofManifest manifest) (MemoryStore.holds_empty RuleCache.numbered_empty)
      fun _ _ _ _ => .intro).1 hr
  obtain rfl : settings = settings' := Option.some.inj (hsettings.symm.trans hsettings')
  have hnodup := Registry.nodup_ids_of_catalogue (Manifest.nodup_catalogue hids)
    hcontinues.catalogue
  obtain ⟨hread, hsound⟩ := hsaved.read
  have hload : opened.load.1 = (SavedState.read store).1.map fun _ => () := by
    rw [Session.load_fst, Backend.read_eq]
    rfl
  refine ⟨?_, ?_, ?_⟩
  · intro hfirst hsecond
    rw [hload, hsound hfirst hsecond]
    rfl
  · intro hok
    obtain ⟨state, hstate⟩ : ∃ state, (SavedState.read store).1 = .ok state := by
      rw [hload] at hok
      cases hresult : (SavedState.read store).1 with
      | ok state => exact ⟨state, rfl⟩
      | error error =>
          rw [hresult] at hok
          cases hok
    obtain rfl := hread state hstate
    have hworld : (SavedState.read opened.world).1 = .ok r.savedState := by
      rw [Backend.read_eq]
      exact hstate
    have hrestored : restarted = (Registry.ofManifest manifest settings).restored r.savedState := by
      have hregistry := opened.registry_load
      rw [hworld] at hregistry
      exact hregistry
    have hequal : restarted = { r with ids := restarted.ids } := by
      rw [hrestored]
      exact Registry.restored_savedState hnodup hcontinues
        (Registry.continues_ofManifest manifest settings)
    obtain ⟨hstart, hle, habove⟩ := hcontinues.ids_restart
    rw [← hrestored] at hstart hle habove
    rw [hequal]
    exact ⟨rfl, rfl, rfl, fun host => ⟨rfl, rfl⟩, rfl, fun chosen force servers => rfl, hstart, hle,
      hcontinues.numbered, habove⟩
  · intro w _ s error
    exact Session.registry_load_of_error

/-- A registry opens and downloads its lists, which saves its state; the store fails none of its
calls. -/
theorem restart_restores_sample :
    let steps : List Step := [.opening default, .operation 0 (.refreshAll false sampleServers)]
    let f := run .sample (emptyWorld (fun _ => none) (MemoryEngine.withLimit 30000)) steps
    let opened : Session (Backend (Faulty MemoryStore StoreError) MemoryEngine) :=
      .ofRegistry (.ofManifest .sample default) ⟨f.world.store, .withLimit 30000⟩
    ∃ r, f.registries[0]? = some r ∧ r.savedState.JustWritten f.world.store ∧
      opened.load.1 = .ok () ∧ opened.load.2.registry.cache = r.cache ∧
      r.cache.ids = [1000, 1001, 1002, 1003, 1004, 1005] ∧
      opened.load.2.registry.assembled = r.assembled := by
  intro steps f opened
  let s : Session (Backend (Faulty MemoryStore StoreError) MemoryEngine) :=
    .ofRegistry (.ofManifest .sample default) (emptyWorld (fun _ => none) (.withLimit 30000))
  have hr : f.registries[0]? = some (s.after (.refreshAll false sampleServers)).registry := rfl
  have hsaved : (s.after (.refreshAll false sampleServers)).registry.savedState.JustWritten
      f.world.store :=
    Session.justWritten_after rfl rfl
  obtain ⟨hload, hsame, -⟩ := restart_restores .sample (by decide) (fun _ => none)
    (MemoryEngine.withLimit 30000) steps rfl hr hsaved (MemoryEngine.withLimit 30000)
  have hstore : f.world.store = (SavedState.write
      (s.after (.refreshAll false sampleServers)).registry.savedState s.world.store).2 :=
    s.store_after (.refreshAll false sampleServers)
  have hfault : ∀ call, f.world.store.fault call = none := fun call => by
    rw [hstore]
    rfl
  have hok := hload (hfault _) (hfault _)
  obtain ⟨-, hcache, -, -, hassembled, -⟩ := hsame hok
  refine ⟨_, hr, hsaved, hok, hcache, ?_, hassembled⟩
  rw [(s.after_eq (.refreshAll false sampleServers)).1]
  decide +kernel

end Fleet

end Blocklist
