import Blocklist.Proofs.Absorption
import Blocklist.Proofs.Assembly
import Blocklist.Proofs.Numbering
import Blocklist.Proofs.SavedState

/-!
# No two cached records share an id

Whatever registries do that share a store, and whichever calls and downloads fail, the records in a
cache are told apart by their numbers, and the registry will not hand out any of these numbers
again. So an assembly never drops a rule for its id. All this holds until a sequence is used up.

## Implementation notes

A refresh of a list replaces its segments by some of the old ones and by new ones. The old ones
bring distinct ids that are already in use, the new ones bring ids that the sequence hands out, and
this is all that `IdSequence.Covers` needs.
-/

namespace Blocklist

theorem subperm_flatMap {α β : Type} {as bs : List α} (h : as.Subperm bs) (f : α → List β) :
    (as.flatMap f).Subperm (bs.flatMap f) := by
  obtain ⟨cs, hperm, hsublist⟩ := h
  exact ⟨cs.flatMap f, hperm.flatMap_right f, hsublist.flatMap f⟩

namespace RuleCache

/-- The numbers in the ids of all records. -/
def ids (cache : RuleCache) : List RuleId :=
  cache.values.flatMap ListArtifacts.ids

theorem maxId?_eq (cache : RuleCache) : cache.maxId? = cache.ids.max? :=
  rfl

/-- Every record of a cache has a number in its id. -/
def Numbered (cache : RuleCache) : Prop :=
  ∀ a ∈ cache.values, ∀ s ∈ a.sources, s.Numbered

theorem ids_insert_perm (cache : RuleCache) (key : String) (a : ListArtifacts) :
    (ids (cache.insert key a)).Perm (a.ids ++ ids (cache.erase key)) :=
  (Dict.values_insert_perm cache key a).flatMap_right ListArtifacts.ids

/-- The ids in use are those of a list and those of the others. -/
theorem ids_perm_erase (cache : RuleCache) (key : String) :
    cache.ids.Perm (((cache.get? key).map ListArtifacts.ids).getD [] ++ ids (cache.erase key)) := by
  cases h : cache.get? key with
  | none => rw [Dict.erase_eq_self h]; rfl
  | some a => exact (Dict.values_perm_erase h).flatMap_right ListArtifacts.ids

/-- The ids in use after an insertion are among those of before and new ones, if those of the list
were kept or are new. -/
theorem ids_insert_subperm {cache : RuleCache} {key : String} {a : ListArtifacts}
    {kept taken : List RuleId} (ha : a.ids.Perm (kept ++ taken))
    (hkept : kept.Subperm (((cache.get? key).map ListArtifacts.ids).getD [])) :
    (ids (cache.insert key a)).Subperm (cache.ids ++ taken) := by
  have hold : (kept ++ ids (cache.erase key)).Subperm cache.ids :=
    (hkept.append (List.Subperm.refl _)).trans (cache.ids_perm_erase key).symm.subperm
  have hnew : (ids (cache.insert key a)).Perm (kept ++ ids (cache.erase key) ++ taken) :=
    calc
      (ids (cache.insert key a)).Perm (a.ids ++ ids (cache.erase key)) :=
        cache.ids_insert_perm key a
      List.Perm _ (kept ++ taken ++ ids (cache.erase key)) := ha.append_right _
      List.Perm _ (kept ++ (taken ++ ids (cache.erase key))) := .of_eq (List.append_assoc _ _ _)
      List.Perm _ (kept ++ (ids (cache.erase key) ++ taken)) :=
        List.perm_append_comm.append_left kept
      List.Perm _ (kept ++ ids (cache.erase key) ++ taken) :=
        .of_eq (List.append_assoc _ _ _).symm
  exact hnew.subperm.trans (hold.append (List.Subperm.refl taken))

theorem numbered_empty : Numbered .empty :=
  all_empty

end RuleCache

/-! ### Taking in replies -/

/-- The number of records in the text that a reply brings. -/
def Reply.recordCount : Reply → Nat
  | .ok (.fetched body _) => (draftsOf body).length
  | _ => 0

namespace Intake

variable (listId : String) (previous : Option ListArtifacts)

/-- A reply keeps a segment or brings one whose records take the next ids. -/
theorem ids_ofReply (ids : IdSequence) (source : ListSource) (reply : Reply) :
    ((ofReply listId previous ids source reply).segments.flatMap Segment.ids).Perm
        ((kept previous (source, reply)).flatMap Segment.ids ++ ids.taken reply.recordCount) ∧
      (ofReply listId previous ids source reply).ids = ids.skip reply.recordCount := by
  obtain error | _ | ⟨body, etag⟩ := reply
  · exact ⟨.nil, rfl⟩
  · exact ⟨.of_eq (List.append_nil _).symm, rfl⟩
  · obtain ⟨hperm, hids⟩ := Segment.ids_ofCompiled source.url etag ids listId body
    exact ⟨(List.Perm.of_eq (List.append_nil _)).trans hperm, hids⟩

/-- Replies keep segments and bring ones whose records take the next ids. -/
theorem ids_ofReplies (ids : IdSequence) (pairs : List (ListSource × Reply)) :
    let count := (pairs.map (·.2.recordCount)).sum
    ((ofReplies listId previous ids pairs).segments.flatMap Segment.ids).Perm
        ((pairs.flatMap (kept previous)).flatMap Segment.ids ++ ids.taken count) ∧
      (ofReplies listId previous ids pairs).ids = ids.skip count := by
  induction pairs generalizing ids with
  | nil => exact ⟨.nil, rfl⟩
  | cons pair rest ih =>
      obtain ⟨source, reply⟩ := pair
      obtain ⟨hone, hids⟩ := ids_ofReply listId previous ids source reply
      obtain ⟨hrest, hids'⟩ := ih (ids.skip reply.recordCount)
      simp only [ofReplies, hids, List.map_cons, List.sum_cons, List.flatMap_cons,
        List.flatMap_append, IdSequence.taken_add, IdSequence.skip_add]
      refine ⟨(hone.append hrest).trans ?_, hids'⟩
      rw [List.append_assoc, List.append_assoc]
      apply List.Perm.append_left _
      rw [← List.append_assoc, ← List.append_assoc]
      exact List.perm_append_comm.append_right _

/-- With one address for each source, the kept segments are among those of before. -/
theorem kept_subperm {pairs : List (ListSource × Reply)} (hurls : (pairs.map (·.1.url)).Nodup) :
    ((pairs.flatMap (kept previous)).flatMap Segment.ids).Subperm
      ((previous.map ListArtifacts.ids).getD []) := by
  cases previous with
  | none =>
      have hnone : pairs.flatMap (kept none) = [] := by
        apply List.flatMap_eq_nil_iff.mpr
        intro pair _
        apply List.eq_nil_iff_forall_not_mem.mpr
        intro s hs
        obtain ⟨_, a, hnone, _⟩ := mem_kept hs
        cases hnone
      rw [hnone]
      exact List.nil_subperm
  | some a =>
      have hsub : (pairs.flatMap (kept (some a))) ⊆ a.sources := by
        intro s hs
        obtain ⟨pair, _, hs⟩ := List.mem_flatMap.mp hs
        obtain ⟨_, a', ha, hmem⟩ := mem_kept hs
        exact Option.some.inj ha ▸ hmem
      exact subperm_flatMap (List.subperm_of_subset (nodup_kept _ hurls) hsub) Segment.ids

end Intake

/-! ### What a cache goes with -/

/-- A sequence goes with a cache: every record has a number, and the sequence hands none of these
numbers out again. -/
structure RuleCache.Fresh (cache : RuleCache) (ids : IdSequence) : Prop where
  numbered : cache.Numbered
  covered : ids.Covers cache.ids

namespace FilterList

variable {l : FilterList} {cache : RuleCache} {ids : IdSequence}

/-- Taking in replies keeps a cache and its sequence together. -/
theorem fresh_absorb (hurls : (l.sources.map (·.url)).Nodup) (h : cache.Fresh ids)
    (delivery : Delivery) :
    (l.absorb cache ids delivery).cache.Fresh (l.absorb cache ids delivery).ids := by
  refine ⟨l.all_absorb Segment.numbered_ofCompiled h.numbered ids delivery, ?_⟩
  have hpairs : ((l.sources.zip delivery.replies).map (·.1.url)).Nodup :=
    hurls.sublist (urls_zip_sublist l.sources delivery.replies)
  obtain ⟨hperm, hids⟩ := Intake.ids_ofReplies l.id (cache.get? l.id) ids
    (l.sources.zip delivery.replies)
  have hkept := Intake.kept_subperm (cache.get? l.id) hpairs
  simp only [absorb]
  generalize Intake.ofReplies l.id (cache.get? l.id) ids (l.sources.zip delivery.replies) = intake
    at *
  have hmono : ∀ {used}, ids.Covers used → intake.ids.Covers used := fun hused =>
    hused.mono (hids ▸ ids.next_le_skip _)
  split
  · exact hmono h.covered
  · split
    · exact hmono h.covered
    · rw [hids]
      apply (h.covered.append_taken _).subperm
      exact RuleCache.ids_insert_subperm hperm hkept

end FilterList

/-- Taking in the replies of several lists keeps a cache and its sequence together. -/
theorem Refresh.fresh_absorbEach {deliveries : List (FilterList × Option Delivery)}
    (hurls : ∀ d ∈ deliveries, (d.1.sources.map (·.url)).Nodup) {cache : RuleCache}
    {ids : IdSequence} (h : cache.Fresh ids) :
    (absorbEach cache ids deliveries).cache.Fresh (absorbEach cache ids deliveries).ids := by
  induction deliveries generalizing cache ids with
  | nil => exact h
  | cons d rest ih =>
      have hrest := fun d hd => hurls d (List.mem_cons_of_mem _ hd)
      obtain ⟨l, _ | delivery⟩ := d
      · exact ih hrest h
      · exact ih hrest (l.fresh_absorb (hurls _ List.mem_cons_self) h delivery)

/-- What a saved state brings: every record has a number, and these are distinct. -/
structure SavedState.Fresh (state : SavedState) : Prop where
  numbered : state.cache.Numbered
  distinct : (state.cache.ids.filter (· ≠ RuleId.last)).Nodup

/-- The lists are those of a catalogue, and the sequence goes with the cache. -/
structure Registry.Fresh (lists : List FilterList) (r : Registry) : Prop where
  catalogue : r.catalogue = lists
  cached : r.cache.Fresh r.ids

namespace Registry

/-- Ids continue above all those in a state that is taken over. -/
theorem covers_restored (r : Registry) {state : SavedState} (h : state.Fresh) :
    (r.restored state).ids.Covers state.cache.ids := by
  rw [restored, RuleCache.maxId?_eq]
  dsimp only
  split
  · rename_i top htop
    exact IdSequence.covers_advancePast h.distinct (List.max?_eq_some_iff.mp htop).2
  · rename_i hnone
    rw [List.max?_eq_none_iff.mp hnone]
    exact IdSequence.covers_nil _

/-- Every change of a registry keeps cache and sequence together. -/
theorem fresh_invariant {lists : List FilterList}
    (hurls : ∀ l ∈ lists, (l.sources.map (·.url)).Nodup) :
    Registry.Invariant (fun _ => True) (Fresh lists) SavedState.Fresh where
  restored {r state} h hstate :=
    ⟨(catalogue_restored r state).trans h.catalogue, hstate.numbered, r.covers_restored hstate⟩
  withFlags {r} metadata h := ⟨(catalogue_withFlags r metadata).trans h.catalogue, h.cached⟩
  refresh {r} chosen force servers _ h := by
    refine ⟨(catalogue_refresh r chosen force servers).trans h.catalogue, ?_⟩
    refine Refresh.fresh_absorbEach (fun d hd => ?_) h.cached
    obtain ⟨place, hplace, rfl⟩ := List.mem_mapIdx.mp hd
    have hmem : r.lists[place].pristine ∈ lists :=
      h.catalogue ▸ List.mem_map_of_mem (List.getElem_mem hplace)
    have hnodup := hurls _ hmem
    exact hnodup
  withList {r} id enabled h := ⟨(catalogue_withList r id enabled).trans h.catalogue, h.cached⟩
  withCategory {r} category enabled h :=
    ⟨(catalogue_withCategory r category enabled).trans h.catalogue, h.cached⟩
  savedState h := ⟨h.cached.numbered, h.cached.covered.distinct⟩

theorem fresh_ofManifest (manifest : Manifest) (settings : Settings) :
    Fresh manifest.catalogue (ofManifest manifest settings) :=
  ⟨manifest.catalogue_ofManifest settings, RuleCache.numbered_empty, IdSequence.covers_nil _⟩

/-! ### Assembly -/

/-- The cached entries of the enabled lists, under the ids of the lists. -/
def enabledEntries (r : Registry) : List (String × ListArtifacts) :=
  r.enabledLists.filterMap fun l => (r.cache.get? l.id).map fun a => (l.id, a)

theorem enabledArtifacts_eq (r : Registry) :
    r.enabledArtifacts = r.enabledEntries.map Prod.snd := by
  rw [enabledArtifacts, enabledEntries, List.map_filterMap]
  simp [Function.comp_def]

theorem enabledEntries_subset (r : Registry) : r.enabledEntries ⊆ r.cache.entries := by
  intro e he
  obtain ⟨l, _, hl⟩ := List.mem_filterMap.mp he
  obtain ⟨a, ha, rfl⟩ := Option.map_eq_some_iff.mp hl
  exact Dict.get?_eq_some_iff.mp ha

theorem nodup_enabledEntries {r : Registry} (hids : (r.lists.map (·.id)).Nodup) :
    r.enabledEntries.Nodup := by
  rw [List.Nodup, List.pairwise_map] at hids
  rw [enabledEntries, List.Nodup, List.pairwise_filterMap]
  apply (hids.filter _).imp
  intro l l' hne e he e' he' heq
  apply hne
  obtain ⟨a, _, rfl⟩ := Option.map_eq_some_iff.mp he
  obtain ⟨a', _, rfl⟩ := Option.map_eq_some_iff.mp he'
  exact congrArg Prod.fst heq

/-- With distinct list ids, no cached entry counts twice among the enabled lists. -/
theorem enabledArtifacts_subperm {r : Registry} (hids : (r.lists.map (·.id)).Nodup) :
    r.enabledArtifacts.Subperm r.cache.values := by
  obtain ⟨entries, hperm, hsublist⟩ :=
    List.subperm_of_subset (nodup_enabledEntries hids) r.enabledEntries_subset
  rw [enabledArtifacts_eq]
  exact ⟨entries.map Prod.snd, hperm.map Prod.snd, hsublist.map Prod.snd⟩

/-- The rules of lists with distinct ids have ids that are all in use, each as often as it is. -/
theorem ruleIds_subperm {r : Registry} (hids : (r.lists.map (·.id)).Nodup) :
    (r.ruleSlices.flatten.map (·.id)).Subperm r.cache.ids := by
  have hrules : r.ruleSlices.flatten.map (·.id) =
      r.enabledArtifacts.flatMap fun a => a.sources.flatMap fun s => s.rules.map (·.id) := by
    simp only [ruleSlices, ListArtifacts.ruleSlices, List.flatten_eq_flatMap, List.flatMap_assoc,
      List.map_flatMap, List.flatMap_map, id]
  have hsub : ∀ a : ListArtifacts,
      (a.sources.flatMap fun s => s.rules.map (·.id)).Sublist a.ids := fun a =>
    List.Sublist.flatMap_right _ fun s _ =>
      (List.sublist_append_left _ _).trans (List.sublist_append_left _ _)
  rw [hrules]
  exact (List.Sublist.flatMap_right _ fun a _ => hsub a).subperm.trans
    (subperm_flatMap (enabledArtifacts_subperm hids) ListArtifacts.ids)

end Registry

namespace Fleet

variable {ε : Type} [FilteringEngine ε]

/-- Whatever registries of one manifest do that share a store, from an empty store on, and whichever
calls of the store fail: every record in the cache of a registry that has ids left has a number, no
two records share it, and all are below the next id. So an assembly reports no rule with the id of
another one, and drops none but for the budget. -/
theorem cached_ids_fresh (manifest : Manifest)
    (hurls : ∀ d ∈ manifest.lists, (d.sources.map (·.url)).Nodup)
    (fault : Nat → Option StoreError) (engine : ε) (steps : List Step) {r : Registry}
    (hr : r ∈ (run manifest
      (⟨⟨.empty, fault, 0⟩, engine⟩ : Backend (Faulty MemoryStore StoreError) ε) steps).registries)
    (hroom : r.ids.next < RuleId.last) :
    r.cache.Numbered ∧ r.cache.ids.Nodup ∧ (∀ id ∈ r.cache.ids, id < r.ids.next) ∧
      ((manifest.lists.map (·.id)).Nodup →
        r.assembled.2.duplicateIds = 0 ∧
          r.assembled.1 = Rule.prioritized r.ruleSlices.flatten r.budget) := by
  have hempty : SavedState.Fresh .empty := ⟨RuleCache.numbered_empty, .nil⟩
  have hfresh : r.Fresh manifest.catalogue :=
    (run_invariant (Registry.fresh_invariant (Manifest.nodup_urls_catalogue hurls))
      (MemoryStore.storeInvariant_holds SavedState.Fresh) (Registry.fresh_ofManifest manifest)
      (MemoryStore.holds_empty hempty) fun _ _ _ _ => .intro).1 r hr
  obtain ⟨hnodup, hbelow⟩ := hfresh.cached.covered.nodup hroom
  refine ⟨hfresh.cached.numbered, hnodup, hbelow, fun hids => ?_⟩
  obtain ⟨ids, hperm, hsublist⟩ := Registry.ruleIds_subperm
    (Registry.nodup_ids_of_catalogue (Manifest.nodup_catalogue hids) hfresh.catalogue)
  have hrules := hperm.nodup_iff.mp (hnodup.sublist hsublist)
  obtain ⟨hassembled, hduplicates⟩ := assemble_of_nodup hrules r.budget
  exact ⟨hduplicates, hassembled⟩

/-- Servers that give every source the same two lines. -/
def sampleServers : Servers :=
  .uniform (fun _ => .ok (.fetched "||ads.example^\n##.banner" none)) default

/-- An empty store that fails the third call, beside an empty engine. -/
def sampleWorld : Backend (Faulty MemoryStore StoreError) MemoryEngine :=
  ⟨⟨.empty, fun call => if call = 2 then some .json else none, 0⟩, .withLimit 30000⟩

/-- A registry opens, and it starts; the state it comes to is not saved. -/
def sampleSteps : List Step :=
  [.opening default, .operation 0 (.start sampleServers)]

theorem cached_ids_fresh_sample :
    ∃ r ∈ (run .sample sampleWorld sampleSteps).registries,
      r.cache.ids = [1000, 1001, 1002, 1003, 1004, 1005] ∧ r.cache.ids.Nodup ∧
        r.assembled.2.duplicateIds = 0 := by
  have hr : ((Registry.ofManifest .sample default).refreshEnabled false sampleServers).registry ∈
      (run .sample sampleWorld sampleSteps).registries := by
    apply List.mem_singleton.mpr
    have hafter := ((Session.ofRegistry (.ofManifest .sample default) sampleWorld).after_eq
      (.start sampleServers)).1
    exact hafter.symm
  have hfresh := cached_ids_fresh .sample (by decide) _ _ sampleSteps hr (by decide +kernel)
  exact ⟨_, hr, by decide +kernel, hfresh.2.1, (hfresh.2.2.2 (by decide)).1⟩

end Fleet

end Blocklist
