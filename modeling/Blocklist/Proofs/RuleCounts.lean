import Blocklist.Proofs.Flags
import Blocklist.Proofs.FreshIds
import Blocklist.Proofs.LineAccount

/-!
# Counts agree

The number of rules that a list shows, the counts of its lines and the rules cached for it are kept in
three places and brought up to date on different ways. They agree in every registry and in the store,
as long as no write fails: then a store has the numbers and the rules of one registry, and as long as
it has none, no registry has compiled anything.

## Implementation notes

A registry that loads an empty store drops its rules and keeps its numbers. So the invariant of a
fleet has two phases: nothing is written and nothing compiled, or what is written covers every list.
-/

namespace Blocklist

/-! ### Segments -/

/-- The counts of a segment go with its rules. -/
structure Segment.Balanced (s : Segment) : Prop where
  rules : s.stats.networkRules + s.stats.exceptions = .ofNat s.rules.length
  classified : s.stats.classified = s.stats.total

theorem Segment.balanced_ofCompiled (url : String) (etag : Option String) (ids : IdSequence)
    (listId text : String) :
    (ofCompiled url etag (compileList ids listId text).list).Balanced := by
  have htallied := Compilation.tallied_ofReadings ids listId
    ((Text.lines text.toList).map Filter.Reading.of)
  rw [← Compilation.compileList_eq] at htallied
  constructor
  · rw [ofCompiled, htallied.stats, htallied.rules, UInt64.ofNat_add]
    rfl
  · rw [ofCompiled, htallied.stats, LineStats.classified_ofTally]

/-- Merged counts go with the rules of all segments. -/
theorem ListArtifacts.stats_of_balanced {a : ListArtifacts} (h : ∀ s ∈ a.sources, s.Balanced) :
    a.stats.networkRules + a.stats.exceptions = a.ruleCount ∧
      a.stats.classified = a.stats.total := by
  obtain ⟨sources⟩ := a
  induction sources with
  | nil => exact ⟨rfl, rfl⟩
  | cons s rest ih =>
      obtain ⟨hrules, hclassified⟩ := ih fun s' hs' => h s' (List.mem_cons_of_mem _ hs')
      have hs := h s List.mem_cons_self
      have hstats : stats ⟨s :: rest⟩ = s.stats + stats ⟨rest⟩ := LineStats.sum_cons s.stats _
      have hcount : ruleCount ⟨s :: rest⟩ = .ofNat s.rules.length + ruleCount ⟨rest⟩ := by
        simp only [ruleCount, rules, List.flatMap_cons, List.length_append, UInt64.ofNat_add]
      rw [hstats, hcount]
      constructor
      · calc
          (s.stats + stats ⟨rest⟩).networkRules + (s.stats + stats ⟨rest⟩).exceptions =
              s.stats.networkRules + (stats ⟨rest⟩).networkRules +
                (s.stats.exceptions + (stats ⟨rest⟩).exceptions) := rfl
          _ = s.stats.networkRules + s.stats.exceptions +
                ((stats ⟨rest⟩).networkRules + (stats ⟨rest⟩).exceptions) := by ac_rfl
          _ = .ofNat s.rules.length + ruleCount ⟨rest⟩ := by rw [hs.rules, hrules]
      · calc
          (s.stats + stats ⟨rest⟩).classified = s.stats.classified + (stats ⟨rest⟩).classified :=
            LineStats.classified_add s.stats _
          _ = s.stats.total + (stats ⟨rest⟩).total := by rw [hs.classified, hclassified]
          _ = (s.stats + stats ⟨rest⟩).total := rfl

/-! ### Registries -/

namespace RuleCache

/-- The number of network rules cached for a list. -/
def ruleCount (cache : RuleCache) (id : String) : UInt64 :=
  ((cache.get? id).map ListArtifacts.ruleCount).getD 0

end RuleCache

/-- Replies that change the segments of a list bring its number up to date. -/
theorem FilterList.counted_absorb {l : FilterList} {cache : RuleCache}
    (h : l.ruleCount = cache.ruleCount l.id) (ids : IdSequence) (delivery : Delivery) :
    (l.absorb cache ids delivery).list.ruleCount =
      RuleCache.ruleCount (l.absorb cache ids delivery).cache l.id := by
  simp only [absorb]
  split
  · exact h
  · split
    · exact h
    · rw [RuleCache.ruleCount, Dict.get?_insert_self]
      rfl

/-- The numbers of all lists and the counts of all segments go with the cached rules. -/
structure Registry.Counted (lists : List FilterList) (r : Registry) : Prop where
  catalogue : r.catalogue = lists
  counted : ∀ l ∈ r.lists, l.ruleCount = r.cache.ruleCount l.id
  balanced : r.cache.All Segment.Balanced

/-- A saved state has a number for every list, and it goes with the saved rules. -/
structure SavedState.Counted (lists : List FilterList) (state : SavedState) : Prop where
  counted : ∀ l ∈ lists, ∃ m, state.metadata.get? l.id = some m ∧
    m.ruleCount = state.cache.ruleCount l.id
  balanced : state.cache.All Segment.Balanced

namespace Registry

variable {lists : List FilterList} {r : Registry}

/-- What changes neither the ids nor the numbers of the lists, and no cached rule, keeps this. -/
theorem Counted.congr {r' : Registry} (h : r.Counted lists) (hcatalogue : r'.catalogue = r.catalogue)
    (hcache : r'.cache = r.cache)
    (hlists : r'.lists.map (fun l => (l.id, l.ruleCount)) =
      r.lists.map fun l => (l.id, l.ruleCount)) : r'.Counted lists where
  catalogue := hcatalogue.trans h.catalogue
  counted l hl := by
    have hmem : (l.id, l.ruleCount) ∈ r.lists.map fun l => (l.id, l.ruleCount) :=
      hlists ▸ List.mem_map_of_mem hl
    obtain ⟨l', hl', heq⟩ := List.mem_map.mp hmem
    obtain ⟨hid, hcount⟩ := Prod.mk.inj heq
    rw [← hid, ← hcount, hcache]
    exact h.counted l' hl'
  balanced := hcache ▸ h.balanced

theorem Counted.restored (h : r.Counted lists) {state : SavedState} (hstate : state.Counted lists) :
    (r.restored state).Counted lists where
  catalogue := (catalogue_restored r state).trans h.catalogue
  counted l' hl' := by
    obtain ⟨l, hl, rfl⟩ := List.mem_map.mp hl'
    have hmem : l.pristine ∈ lists := h.catalogue ▸ List.mem_map_of_mem hl
    obtain ⟨m, hm, hcount⟩ := hstate.counted l.pristine hmem
    rw [FilterList.id_pristine] at hm hcount
    rw [hm]
    exact hcount
  balanced := hstate.balanced

theorem Counted.refresh (hids : (lists.map (·.id)).Nodup) (h : r.Counted lists)
    (chosen : FilterList → Nat → Bool) (force : Bool) (servers : Servers) :
    (r.refresh chosen force servers).registry.Counted lists where
  catalogue := (catalogue_refresh r chosen force servers).trans h.catalogue
  counted l' hl' := by
    obtain ⟨place, l, hl, hid, htaken⟩ :=
      exists_taken_of_mem_refresh (nodup_ids_of_catalogue hids h.catalogue) hl'
    have hcounted := h.counted l (List.mem_of_getElem? hl)
    by_cases hchosen : chosen l place = true
    · rw [if_pos hchosen] at htaken
      obtain ⟨ids, hlist, hentry⟩ := htaken.absorbed _ rfl
      have habsorbed := FilterList.counted_absorb hcounted ids
        (Refresh.delivery r force servers l place)
      rw [RuleCache.ruleCount, hentry, hlist]
      exact habsorbed
    · rw [if_neg hchosen] at htaken
      obtain ⟨hlist, hentry⟩ := htaken.unchanged rfl
      rw [RuleCache.ruleCount, hentry, hlist]
      exact hcounted
  balanced := Refresh.all_absorbEach Segment.balanced_ofCompiled h.balanced _ _

theorem counted_invariant (hids : (lists.map (·.id)).Nodup) :
    Registry.Invariant (fun _ => True) (Counted lists) (SavedState.Counted lists) where
  restored h hstate := h.restored hstate
  withFlags {r} metadata h := by
    refine h.congr (catalogue_withFlags r metadata) rfl ?_
    rw [withFlags, List.map_map]
    rfl
  refresh chosen force servers _ h := h.refresh hids chosen force servers
  withList {r} id enabled h :=
    h.congr (catalogue_withList r id enabled) rfl
      (map_setListFlag _ (fun _ _ => rfl) id enabled r.lists)
  withCategory {r} category enabled h := by
    refine h.congr (catalogue_withCategory r category enabled) rfl ?_
    rw [withCategory, List.map_map]
    apply List.map_congr_left
    intro l _
    rw [Function.comp_apply]
    split <;> rfl
  savedState {r} h := by
    refine ⟨fun x hx => ?_, h.balanced⟩
    obtain ⟨l, hl, rfl⟩ := List.mem_map.mp (h.catalogue ▸ hx)
    have hnodup := nodup_ids_of_catalogue hids h.catalogue
    exact ⟨l.metadata, get?_metadata hnodup hl, h.counted l hl⟩

theorem counted_ofManifest (manifest : Manifest) (settings : Settings) :
    (ofManifest manifest settings).Counted manifest.catalogue where
  catalogue := manifest.catalogue_ofManifest settings
  counted l hl := by
    obtain ⟨d, _, rfl⟩ := List.mem_map.mp hl
    rfl
  balanced := RuleCache.all_empty

/-- The numbers of lists come to the rules that are cached for them. -/
theorem sum_ruleCount_eq {cache : RuleCache} {ls : List FilterList}
    (h : ∀ l ∈ ls, l.ruleCount = cache.ruleCount l.id) :
    ls.foldr (fun l n => l.ruleCount + n) 0 =
      .ofNat ((ls.filterMap fun l => cache.get? l.id).flatMap (·.ruleSlices)).flatten.length := by
  induction ls with
  | nil => rfl
  | cons l rest ih =>
      have hl : l.ruleCount = _ := h l List.mem_cons_self
      rw [List.foldr_cons, ih fun l hl => h l (List.mem_cons_of_mem _ hl), hl, RuleCache.ruleCount,
        List.filterMap_cons]
      cases cache.get? l.id with
      | none => exact UInt64.zero_add _
      | some a =>
          rw [List.flatMap_cons, List.flatten_append, List.length_append, UInt64.ofNat_add]
          rfl

/-- The total that is shown is the number of rules that an assembly is offered. -/
theorem totalRules_eq (h : ∀ l ∈ r.lists, l.ruleCount = r.cache.ruleCount l.id) :
    r.status.summary.totalRules = .ofNat r.assembled.2.before :=
  sum_ruleCount_eq fun l hl => h l (List.mem_of_mem_filter hl)

end Registry

/-! ### Sessions -/

namespace Session

variable {σ ε : Type} [KeyValueStore σ] {device : σ → MemoryStore} {lists : List FilterList}

/-- Reading an empty store leaves a registry with nothing compiled as it is. -/
theorem counted_afterReading_of_empty (hids : (lists.map (·.id)).Nodup)
    (hreads : ReadsThrough device) {s : Session (Backend σ ε)} (hr : s.registry.Counted lists)
    (hcache : s.registry.cache = .empty) (hstore : device s.world.store = .empty)
    (reading : Reading) :
    (s.afterReading reading).registry.Counted lists ∧
      (s.afterReading reading).registry.cache = .empty ∧
      device (s.afterReading reading).world.store = .empty := by
  cases reading with
  | nothing => exact ⟨hr, hcache, hstore⟩
  | flags =>
      simp only [afterReading, registry_adoptFlags, world_adoptFlags, Backend.readMetadata_eq]
      have hdevice := (hreads.readDict ListMetadata SavedState.metadataKey s.world.store).1
      split
      · exact ⟨(Registry.counted_invariant hids).withFlags _ hr, hcache, hdevice.trans hstore⟩
      · exact ⟨hr, hcache, hdevice.trans hstore⟩
  | state =>
      simp only [afterReading, registry_load, world_load, Backend.read_eq]
      obtain ⟨hdevice, hread⟩ := hreads.read s.world.store
      split
      · rename_i state hstate
        have hempty : (SavedState.read (device s.world.store)).1 = .ok .empty := by
          rw [hstore]
          rfl
        obtain rfl : SavedState.empty = state :=
          Except.ok.inj (hempty.symm.trans (hread state hstate))
        refine ⟨hr.congr (Registry.catalogue_restored _ _) hcache.symm ?_, rfl,
          hdevice.trans hstore⟩
        rw [Registry.restored, List.map_map]
        rfl
      · exact ⟨hr, hcache, hdevice.trans hstore⟩

variable [FilteringEngine ε]

/-- Where numbers for all lists are stored, operations keep registry and store in agreement. -/
theorem counted_after_of_keeps (hids : (lists.map (·.id)).Nodup) (hreads : ReadsThrough device)
    (hwrites : WritesThrough device) {s : Session (Backend σ ε)} (hr : s.registry.Counted lists)
    (hstore : (device s.world.store).Keeps (SavedState.Counted lists)) (op : Operation) :
    (s.after op).registry.Counted lists ∧
      (device (s.after op).world.store).Keeps (SavedState.Counted lists) :=
  after_invariant (Registry.counted_invariant hids) (hreads.storeInvariant_keeps hwrites _)
    (fun _ _ => .intro) hr hstore

/-- The first operation that saves writes numbers for all lists, and those before it compile
nothing. -/
theorem counted_after_of_empty (hids : (lists.map (·.id)).Nodup) (hreads : ReadsThrough device)
    (hwrites : WritesThrough device) {s : Session (Backend σ ε)} (hr : s.registry.Counted lists)
    (hcache : s.registry.cache = .empty) (hstore : device s.world.store = .empty)
    (op : Operation) :
    (s.after op).registry.Counted lists ∧
      ((device (s.after op).world.store).Keeps (SavedState.Counted lists) ∨
        device (s.after op).world.store = .empty ∧ (s.after op).registry.cache = .empty) := by
  obtain ⟨hr', hcache', hstore'⟩ :=
    counted_afterReading_of_empty hids hreads hr hcache hstore op.reading
  have hcounted : (s.after op).registry.Counted lists := by
    rw [(s.after_eq op).1]
    exact change_invariant (Registry.counted_invariant hids) (fun _ _ => .intro) hr'
  refine ⟨hcounted, ?_⟩
  rw [store_after]
  cases hsaves : op.saves s.registry with
  | true =>
      left
      rw [if_pos rfl, hwrites]
      exact MemoryStore.keeps_write ((Registry.counted_invariant hids).savedState hcounted) _
  | false =>
      right
      rw [if_neg Bool.false_ne_true]
      rw [← s.saves_afterReading op] at hsaves
      rw [(s.after_eq op).1, Operation.change_eq_self hsaves]
      exact ⟨hstore', hcache'⟩

end Session

/-! ### Fleets -/

theorem forall_mem_set {α : Type} {P : α → Prop} {as : List α} (h : ∀ a ∈ as, P a) {place : Nat}
    {a : α} (ha : P a) : ∀ b ∈ as.set place a, P b := by
  intro b hb
  rcases List.mem_or_eq_of_mem_set hb with hb | rfl
  · exact h b hb
  · exact ha

namespace Fleet

variable {σ ε : Type} [KeyValueStore σ] [FilteringEngine ε] {device : σ → MemoryStore}
variable {lists : List FilterList}

/-- Counts agree in all registries and in the store, which keeps a number for every list unless
nothing is written and nothing compiled. -/
structure Counted (device : σ → MemoryStore) (lists : List FilterList) (f : Fleet (Backend σ ε)) :
    Prop where
  registries : ∀ r ∈ f.registries, r.Counted lists
  store : (device f.world.store).Keeps (SavedState.Counted lists) ∨
    device f.world.store = .empty ∧ ∀ r ∈ f.registries, r.cache = .empty

/-- A step keeps counts in agreement. -/
theorem Counted.after {manifest : Manifest} (hids : (manifest.lists.map (·.id)).Nodup)
    (hreads : ReadsThrough device) (hwrites : WritesThrough device) {f : Fleet (Backend σ ε)}
    (hf : f.Counted device manifest.catalogue) (step : Step) :
    (f.after manifest step).Counted device manifest.catalogue := by
  have hids' := Manifest.nodup_catalogue hids
  cases step with
  | opening settings =>
      have hnew := Registry.counted_ofManifest manifest settings
      constructor
      · exact List.forall_mem_append.mpr ⟨hf.registries, List.forall_mem_singleton.mpr hnew⟩
      · refine hf.store.imp_right fun h => ⟨h.1, ?_⟩
        exact List.forall_mem_append.mpr ⟨h.2, List.forall_mem_singleton.mpr rfl⟩
  | operation place op =>
      simp only [Fleet.after]
      cases hplace : f.registries[place]? with
      | none => exact hf
      | some r =>
          have hmem : r ∈ f.registries := List.mem_of_getElem? hplace
          have hr := hf.registries r hmem
          let s := Session.ofRegistry r f.world
          rcases hf.store with hstore | ⟨hstore, hcaches⟩
          · obtain ⟨hcounted, hkeeps⟩ :=
              Session.counted_after_of_keeps (s := s) hids' hreads hwrites hr hstore op
            exact ⟨forall_mem_set hf.registries hcounted, .inl hkeeps⟩
          · obtain ⟨hcounted, hstore'⟩ := Session.counted_after_of_empty (s := s) hids' hreads
              hwrites hr (hcaches r hmem) hstore op
            refine ⟨forall_mem_set hf.registries hcounted, hstore'.imp_right fun h => ?_⟩
            exact ⟨h.1, forall_mem_set hcaches h.2⟩

/-- Counts agree after every run from an empty store. -/
theorem counted_run {manifest : Manifest} (hids : (manifest.lists.map (·.id)).Nodup)
    (hreads : ReadsThrough device) (hwrites : WritesThrough device) {world : Backend σ ε}
    (hworld : device world.store = .empty) (steps : List Step) :
    (run manifest world steps).Counted device manifest.catalogue := by
  have hopen : Counted device manifest.catalogue (⟨[], world⟩ : Fleet (Backend σ ε)) :=
    ⟨by simp, .inr ⟨hworld, by simp⟩⟩
  rw [run]
  generalize (⟨[], world⟩ : Fleet (Backend σ ε)) = f at hopen ⊢
  induction steps generalizing f with
  | nil => exact hopen
  | cons step steps ih => exact ih _ (hopen.after hids hreads hwrites step)

/-- Whatever registries of one manifest do that share a store, from an empty store on, and whichever
reads of the store fail: in every registry the number of rules of a list is that of the rules cached
for it, the counts of what is cached go with its rules, and the total that is shown is the number of
rules that an assembly is offered. What is stored agrees in the same way. A manifest that is read has
distinct list ids (`Manifest.nodup_ids_of_ofText`). -/
theorem counts_agree (manifest : Manifest) (hids : (manifest.lists.map (·.id)).Nodup)
    (fault : Nat → Option StoreError) (engine : ε) (steps : List Step) :
    let f := run manifest
      (⟨⟨⟨.empty, fault, 0⟩⟩, engine⟩ : Backend (ReadFaulty MemoryStore) ε) steps
    (∀ r ∈ f.registries,
      (∀ l ∈ r.lists,
        l.ruleCount = ((r.cache.get? l.id).map ListArtifacts.ruleCount).getD 0) ∧
      (∀ a ∈ r.cache.values, a.stats.networkRules + a.stats.exceptions = a.ruleCount ∧
        a.stats.classified = a.stats.total) ∧
      r.status.summary.totalRules = .ofNat r.assembled.2.before) ∧
    ∃ state, (SavedState.read f.world.store.device).1 = .ok state ∧
      (∀ d ∈ manifest.lists, ((state.metadata.get? d.id).map (·.ruleCount)).getD 0 =
        ((state.cache.get? d.id).map ListArtifacts.ruleCount).getD 0) ∧
      ∀ a ∈ state.cache.values, a.stats.networkRules + a.stats.exceptions = a.ruleCount ∧
        a.stats.classified = a.stats.total := by
  intro f
  have hcounted : f.Counted (fun s => s.device) manifest.catalogue :=
    counted_run hids ReadFaulty.readsThrough ReadFaulty.writesThrough rfl steps
  have hbalanced : ∀ {cache : RuleCache}, cache.All Segment.Balanced → ∀ a ∈ cache.values,
      a.stats.networkRules + a.stats.exceptions = a.ruleCount ∧
        a.stats.classified = a.stats.total :=
    fun h a ha => ListArtifacts.stats_of_balanced (h a ha)
  constructor
  · intro r hr
    have hr' := hcounted.registries r hr
    exact ⟨hr'.counted, hbalanced hr'.balanced, Registry.totalRules_eq hr'.counted⟩
  · rcases hcounted.store with ⟨state, hread, hstate⟩ | ⟨hempty, _⟩
    · refine ⟨state, hread, ?_, hbalanced hstate.balanced⟩
      intro d hd
      obtain ⟨m, hm, hcount⟩ := hstate.counted _ (List.mem_map_of_mem hd)
      have hm' : state.metadata.get? d.id = some m := hm
      rw [hm']
      exact hcount
    · refine ⟨.empty, ?_, fun d _ => rfl, hbalanced RuleCache.all_empty⟩
      rw [hempty]
      rfl

/-- A registry opens on a store whose first read fails, starts and saves; another one opens and loads
what is stored. -/
theorem counts_agree_sample :
    let steps : List Step := [.opening default, .operation 0 (.start sampleServers),
      .opening default, .operation 1 .load]
    let fault : Nat → Option StoreError := fun call => if call = 0 then some .json else none
    let world : Backend (ReadFaulty MemoryStore) MemoryEngine :=
      ⟨⟨⟨.empty, fault, 0⟩⟩, .withLimit 30000⟩
    let f := run .sample world steps
    f.registries.length = 2 ∧ ∃ r, f.registries[0]? = some r ∧
      r.lists.map (·.ruleCount) = [2, 1] ∧
      (∀ l ∈ r.lists, l.ruleCount = ((r.cache.get? l.id).map ListArtifacts.ruleCount).getD 0) ∧
      r.status.summary.totalRules = .ofNat r.assembled.2.before := by
  intro steps fault world f
  obtain ⟨hregistries, -⟩ := counts_agree .sample (by decide) fault (MemoryEngine.withLimit 30000)
    steps
  let s : Session (Backend (ReadFaulty MemoryStore) MemoryEngine) :=
    .ofRegistry (.ofManifest .sample default) world
  have hfirst : f.registries[0]? = some (s.after (.start sampleServers)).registry := rfl
  obtain ⟨hcounted, -, htotal⟩ := hregistries _ (List.mem_of_getElem? hfirst)
  refine ⟨rfl, _, hfirst, ?_, hcounted, htotal⟩
  have hload : (s.afterReading .state).registry = .ofManifest .sample default := rfl
  rw [(s.after_eq (.start sampleServers)).1, Session.Operation.reading, hload]
  decide +kernel

end Fleet

end Blocklist
