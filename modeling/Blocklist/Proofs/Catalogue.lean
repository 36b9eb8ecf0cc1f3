import Blocklist.Proofs.Invariant

/-!
# What a registry keeps of its manifest

Whatever happens to a registry, its lists stay the lists of its manifest, in their order, with their
ids, categories, priorities and sources. Only the flags and what was learned from servers change.
-/

namespace Blocklist

namespace FilterList

/-- A list without what changes while a program runs. -/
def pristine (l : FilterList) : FilterList :=
  { l with enabled := false, ruleCount := 0, lastFetch := none, etag := none }

@[simp] theorem id_pristine (l : FilterList) : l.pristine.id = l.id :=
  rfl

@[simp] theorem sources_pristine (l : FilterList) : l.pristine.sources = l.sources :=
  rfl

/-- Taking in replies changes nothing else of a list. -/
theorem pristine_absorb (l : FilterList) (cache : RuleCache) (ids : IdSequence)
    (delivery : Delivery) : (l.absorb cache ids delivery).list.pristine = l.pristine := by
  simp only [absorb]
  split
  · rfl
  · split <;> rfl

end FilterList

namespace Registry

/-- The lists of a registry without what changes while a program runs. -/
def catalogue (r : Registry) : List FilterList :=
  r.lists.map (·.pristine)

/-- Lists that only change in their state stay in the catalogue. -/
theorem catalogue_map {r : Registry} {f : FilterList → FilterList}
    (h : ∀ l, (f l).pristine = l.pristine) : (r.lists.map f).map (·.pristine) = r.catalogue := by
  rw [List.map_map, catalogue]
  exact List.map_congr_left fun l _ => h l

theorem catalogue_restored (r : Registry) (state : SavedState) :
    (r.restored state).catalogue = r.catalogue := by
  apply catalogue_map
  intro l
  split <;> rfl

theorem catalogue_withFlags (r : Registry) (metadata : Dict ListMetadata) :
    (r.withFlags metadata).catalogue = r.catalogue :=
  catalogue_map fun _ => rfl

theorem catalogue_withCategory (r : Registry) (category : String) (enabled : Bool) :
    (r.withCategory category enabled).catalogue = r.catalogue := by
  apply catalogue_map
  intro l
  split <;> rfl

/-- What a flag leaves alone in one list, a change of the flag of a list leaves alone in all. -/
theorem map_setListFlag {γ : Type} (g : FilterList → γ)
    (hg : ∀ (l : FilterList) enabled, g { l with enabled } = g l) (id : String) (enabled : Bool)
    (lists : List FilterList) : (setListFlag id enabled lists).map g = lists.map g := by
  induction lists with
  | nil => rfl
  | cons l rest ih =>
      rw [setListFlag]
      split
      · rw [List.map_cons, List.map_cons, hg]
      · rw [List.map_cons, List.map_cons, ih]

theorem catalogue_withList (r : Registry) (id : String) (enabled : Bool) :
    (r.withList id enabled).catalogue = r.catalogue :=
  map_setListFlag _ (fun _ _ => rfl) id enabled r.lists

/-- What replies leave alone in one list, a refresh leaves alone in all. -/
theorem map_lists_refresh {γ : Type} (g : FilterList → γ)
    (hg : ∀ (l : FilterList) cache ids delivery, g (l.absorb cache ids delivery).list = g l)
    (r : Registry) (chosen : FilterList → Nat → Bool) (force : Bool) (servers : Servers) :
    (r.refresh chosen force servers).registry.lists.map g = r.lists.map g := by
  have heach : ∀ (deliveries : List (FilterList × Option Delivery)) cache ids,
      (Refresh.absorbEach cache ids deliveries).lists.map g = deliveries.map (g ·.1) := by
    intro deliveries
    induction deliveries with
    | nil => exact fun _ _ => rfl
    | cons delivery rest ih =>
        intro cache ids
        obtain ⟨l, _ | delivery⟩ := delivery
        · rw [Refresh.absorbEach, List.map_cons, List.map_cons, ih]
        · rw [Refresh.absorbEach, List.map_cons, List.map_cons, ih, hg]
  rw [refresh]
  dsimp only
  rw [heach]
  apply List.ext_getElem (by simp)
  intro place _ _
  simp

theorem catalogue_refresh (r : Registry) (chosen : FilterList → Nat → Bool) (force : Bool)
    (servers : Servers) : (r.refresh chosen force servers).registry.catalogue = r.catalogue :=
  map_lists_refresh _ FilterList.pristine_absorb r chosen force servers

/-- No change of a registry touches its catalogue. -/
theorem catalogue_invariant (lists : List FilterList) :
    Registry.Invariant (fun _ => True) (fun r => r.catalogue = lists) fun _ => True where
  restored h _ := (catalogue_restored _ _).trans h
  withFlags _ h := (catalogue_withFlags _ _).trans h
  refresh _ _ _ _ h := (catalogue_refresh _ _ _ _).trans h
  withList _ _ h := (catalogue_withList _ _ _).trans h
  withCategory _ _ h := (catalogue_withCategory _ _ _).trans h
  savedState _ := .intro

theorem ids_catalogue (r : Registry) : r.catalogue.map (·.id) = r.lists.map (·.id) := by
  rw [catalogue, List.map_map]
  rfl

theorem nodup_ids_of_catalogue {r : Registry} {lists : List FilterList}
    (hids : (lists.map (·.id)).Nodup) (h : r.catalogue = lists) : (r.lists.map (·.id)).Nodup := by
  rw [← ids_catalogue, h]
  exact hids

end Registry

namespace Manifest

/-- The lists of a manifest as a registry keeps them. -/
def catalogue (manifest : Manifest) : List FilterList :=
  manifest.lists.map fun d => (FilterList.ofDescriptor d).pristine

theorem catalogue_ofManifest (manifest : Manifest) (settings : Settings) :
    (Registry.ofManifest manifest settings).catalogue = manifest.catalogue :=
  List.map_map

theorem nodup_catalogue {manifest : Manifest} (h : (manifest.lists.map (·.id)).Nodup) :
    (manifest.catalogue.map (·.id)).Nodup := by
  rw [catalogue, List.map_map]
  exact h

theorem nodup_urls_catalogue {manifest : Manifest}
    (h : ∀ d ∈ manifest.lists, (d.sources.map (·.url)).Nodup) :
    ∀ l ∈ manifest.catalogue, (l.sources.map (·.url)).Nodup := by
  intro l hl
  obtain ⟨d, hd, rfl⟩ := List.mem_map.mp hl
  exact h d hd

end Manifest

/-- A manifest of two lists, to run examples on. -/
def Manifest.sample : Manifest where
  lists :=
    [⟨"ads", "Ads", "core", true, 0, [⟨"Ads", "https://a.example/ads"⟩,
        ⟨"More ads", "https://a.example/more"⟩], false⟩,
      ⟨"privacy", "Privacy", "core", true, 0, [⟨"Privacy", "https://b.example/privacy"⟩], false⟩]
  categories := .empty

end Blocklist
