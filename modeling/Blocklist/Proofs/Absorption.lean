import Blocklist.Proofs.Catalogue
import Blocklist.Proofs.Dict
import Mathlib.Data.List.Nodup

/-!
# What a refresh does to one list

The segments of a list after a refresh are old ones that were kept and ones compiled from new texts,
in the order of their sources. Lists of distinct ids do not meet in a refresh: what becomes of a
list and of its segments is decided by its own replies and its own segments, whatever other lists
take in before it.
-/

namespace Blocklist

theorem sublist_zip_fst {α β : Type} (as : List α) (bs : List β) :
    ((as.zip bs).map Prod.fst).Sublist as := by
  induction as generalizing bs with
  | nil => exact .slnil
  | cons a as ih =>
      cases bs with
      | nil => exact List.nil_sublist _
      | cons b bs => exact (ih bs).cons_cons a

theorem urls_zip_sublist {β : Type} (sources : List ListSource) (replies : List β) :
    ((sources.zip replies).map (·.1.url)).Sublist (sources.map (·.url)) := by
  have hsub := (sublist_zip_fst sources replies).map ListSource.url
  rwa [List.map_map] at hsub

namespace ListArtifacts

theorem mem_of_source? {a : ListArtifacts} {url : String} {s : Segment}
    (h : a.source? url = some s) : s ∈ a.sources ∧ s.url = url :=
  ⟨List.mem_of_find?_eq_some h, by simpa using List.find?_some h⟩

end ListArtifacts

namespace Intake

/-- The segment that a source keeps when its server has no news. -/
def kept (previous : Option ListArtifacts) : ListSource × Reply → List Segment
  | (source, .ok .notModified) => (previous.bind (·.source? source.url)).toList
  | _ => []

theorem mem_kept {previous : Option ListArtifacts} {pair : ListSource × Reply} {s : Segment}
    (h : s ∈ kept previous pair) :
    s.url = pair.1.url ∧ ∃ a, previous = some a ∧ s ∈ a.sources := by
  obtain ⟨source, (error | _ | ⟨body, etag⟩)⟩ := pair
  · cases h
  · obtain ⟨a, hprevious, hs⟩ := Option.bind_eq_some_iff.mp (Option.mem_toList.mp h)
    obtain ⟨hmem, hurl⟩ := ListArtifacts.mem_of_source? hs
    exact ⟨hurl, a, hprevious, hmem⟩
  · cases h

/-- Sources of distinct addresses keep distinct segments. -/
theorem nodup_kept (previous : Option ListArtifacts) {pairs : List (ListSource × Reply)}
    (hurls : (pairs.map (·.1.url)).Nodup) : (pairs.flatMap (kept previous)).Nodup := by
  apply List.nodup_flatMap.mpr
  constructor
  · intro pair _
    obtain ⟨source, (error | _ | ⟨body, etag⟩)⟩ := pair
    · exact .nil
    · rw [kept]
      cases previous.bind (·.source? source.url) <;> simp
    · exact .nil
  · rw [List.Nodup, List.pairwise_map] at hurls
    apply hurls.imp
    intro a b hne s ha hb
    apply hne
    exact (mem_kept ha).1.symm.trans (mem_kept hb).1

variable (listId : String) (previous : Option ListArtifacts)

/-- A segment of an intake was kept, or was compiled from a text that a reply brought. -/
theorem mem_segments_ofReplies (ids : IdSequence) (pairs : List (ListSource × Reply)) :
    ∀ s ∈ (ofReplies listId previous ids pairs).segments, ∃ pair ∈ pairs,
      s ∈ kept previous pair ∨ ∃ body etag ids', pair.2 = .ok (.fetched body etag) ∧
        s = .ofCompiled pair.1.url etag (compileList ids' listId body).list := by
  induction pairs generalizing ids with
  | nil => exact fun s hs => absurd hs List.not_mem_nil
  | cons pair rest ih =>
      intro s hs
      obtain ⟨source, reply⟩ := pair
      rcases List.mem_append.mp hs with hs | hs
      · refine ⟨(source, reply), List.mem_cons_self, ?_⟩
        obtain error | _ | ⟨body, etag⟩ := reply
        · cases hs
        · exact .inl hs
        · exact .inr ⟨body, etag, ids, rfl, List.mem_singleton.mp hs⟩
      · obtain ⟨pair, hpair, hs⟩ := ih _ s hs
        exact ⟨pair, List.mem_cons_of_mem _ hpair, hs⟩

/-- The segments stand in the order of their sources, at most one for each. -/
theorem urls_ofReplies_sublist (ids : IdSequence) (pairs : List (ListSource × Reply)) :
    ((ofReplies listId previous ids pairs).segments.map (·.url)).Sublist
      (pairs.map (·.1.url)) := by
  induction pairs generalizing ids with
  | nil => exact .slnil
  | cons pair rest ih =>
      obtain ⟨source, reply⟩ := pair
      have hone : ((ofReply listId previous ids source reply).segments.map (·.url)).Sublist
          [source.url] := by
        obtain error | _ | ⟨body, etag⟩ := reply
        · exact List.nil_sublist _
        · rw [ofReply]
          cases hsource : previous.bind (·.source? source.url) with
          | none => exact List.nil_sublist _
          | some s =>
              obtain ⟨a, _, hs⟩ := Option.bind_eq_some_iff.mp hsource
              simp [(ListArtifacts.mem_of_source? hs).2]
        · exact List.Sublist.refl _
      rw [ofReplies, List.map_append, List.map_cons]
      exact hone.append (ih _)

end Intake

namespace FilterList

variable {l : FilterList} {cache cache' : RuleCache} {ids : IdSequence} {delivery : Delivery}

@[simp] theorem id_absorb : (l.absorb cache ids delivery).list.id = l.id := by
  rw [← id_pristine, pristine_absorb, id_pristine]

theorem enabled_absorb : (l.absorb cache ids delivery).list.enabled = l.enabled := by
  simp only [absorb]
  split
  · rfl
  · split <;> rfl

/-- Replies for a list leave the segments of other lists alone. -/
theorem get?_absorb_of_ne {id : String} (h : id ≠ l.id) :
    (l.absorb cache ids delivery).cache.get? id = cache.get? id := by
  simp only [absorb]
  split
  · rfl
  · split
    · rfl
    · rw [Dict.get?_insert, if_neg h]

/-- What replies make of a list depends on the cache by the segments of the list only. -/
theorem absorb_congr (ids : IdSequence) (delivery : Delivery)
    (h : cache.get? l.id = cache'.get? l.id) :
    (l.absorb cache ids delivery).list = (l.absorb cache' ids delivery).list ∧
      (l.absorb cache ids delivery).cache.get? l.id =
        (l.absorb cache' ids delivery).cache.get? l.id := by
  simp only [absorb, h]
  split
  · exact ⟨rfl, h⟩
  · split
    · exact ⟨rfl, h⟩
    · exact ⟨rfl, by rw [Dict.get?_insert_self, Dict.get?_insert_self]⟩

end FilterList

/-! ### What all segments have -/

/-- Every segment of a cache has a property. -/
def RuleCache.All (P : Segment → Prop) (cache : RuleCache) : Prop :=
  ∀ a ∈ cache.values, ∀ s ∈ a.sources, P s

section All

variable {P : Segment → Prop} {cache : RuleCache}

theorem RuleCache.all_empty : RuleCache.All P .empty := by
  intro a ha
  cases ha

theorem RuleCache.All.insert (h : cache.All P) {key : String} {a : ListArtifacts}
    (ha : ∀ s ∈ a.sources, P s) : RuleCache.All P (Dict.insert cache key a) := by
  intro a' ha'
  obtain ⟨key', hkey'⟩ := Dict.mem_values_iff.mp ha'
  rw [Dict.get?_insert] at hkey'
  split at hkey'
  · cases hkey'
    exact ha
  · exact h a' (Dict.mem_values_iff.mpr ⟨key', hkey'⟩)

/-- What every compiled segment has, all segments keep when replies are taken in. -/
theorem FilterList.all_absorb
    (hP : ∀ url etag ids listId text, P (.ofCompiled url etag (compileList ids listId text).list))
    (l : FilterList) (h : cache.All P) (ids : IdSequence) (delivery : Delivery) :
    (l.absorb cache ids delivery).cache.All P := by
  have hsegments := Intake.mem_segments_ofReplies l.id (cache.get? l.id) ids
    (l.sources.zip delivery.replies)
  simp only [absorb]
  split
  · exact h
  · split
    · exact h
    · refine h.insert fun s hs => ?_
      obtain ⟨pair, _, hs | ⟨body, etag, ids', _, rfl⟩⟩ := hsegments s hs
      · obtain ⟨_, a, ha, hmem⟩ := Intake.mem_kept hs
        exact h a (Dict.mem_values_iff.mpr ⟨l.id, ha⟩) s hmem
      · exact hP pair.1.url etag ids' l.id body

theorem Refresh.all_absorbEach
    (hP : ∀ url etag ids listId text, P (.ofCompiled url etag (compileList ids listId text).list))
    (h : cache.All P) (ids : IdSequence) (deliveries : List (FilterList × Option Delivery)) :
    (absorbEach cache ids deliveries).cache.All P := by
  induction deliveries generalizing cache ids with
  | nil => exact h
  | cons d rest ih =>
      obtain ⟨l, _ | delivery⟩ := d
      · exact ih h ids
      · exact ih (l.all_absorb hP h ids delivery) _

end All

namespace Refresh

/-- A list and its cached segments after what was delivered for it, if anything was. -/
structure Taken (cache : RuleCache) (d : FilterList × Option Delivery) (l : FilterList)
    (entry : Option ListArtifacts) : Prop where
  unchanged : d.2 = none → l = d.1 ∧ entry = cache.get? d.1.id
  absorbed : ∀ delivery ∈ d.2, ∃ ids, l = (d.1.absorb cache ids delivery).list ∧
    entry = (d.1.absorb cache ids delivery).cache.get? d.1.id

theorem Taken.id_eq {cache : RuleCache} {d : FilterList × Option Delivery} {l : FilterList}
    {entry : Option ListArtifacts} (h : Taken cache d l entry) : l.id = d.1.id := by
  obtain ⟨l', _ | delivery⟩ := d
  · rw [(h.unchanged rfl).1]
  · obtain ⟨ids, hl, _⟩ := h.absorbed delivery rfl
    rw [hl, FilterList.id_absorb]

/-- Only the segments of the list count. -/
theorem Taken.congr {cache cache' : RuleCache} {d : FilterList × Option Delivery} {l : FilterList}
    {entry : Option ListArtifacts} (h : Taken cache d l entry)
    (hcache : cache.get? d.1.id = cache'.get? d.1.id) : Taken cache' d l entry where
  unchanged hnone := hcache ▸ h.unchanged hnone
  absorbed delivery hdelivery := by
    obtain ⟨ids, hl, hentry⟩ := h.absorbed delivery hdelivery
    obtain ⟨hlist, hget⟩ := FilterList.absorb_congr ids delivery hcache
    exact ⟨ids, hl.trans hlist, hentry.trans hget⟩

theorem get?_absorbEach_of_not_mem {deliveries : List (FilterList × Option Delivery)} {id : String}
    (h : id ∉ deliveries.map (·.1.id)) (cache : RuleCache) (ids : IdSequence) :
    (absorbEach cache ids deliveries).cache.get? id = cache.get? id := by
  induction deliveries generalizing cache ids with
  | nil => rfl
  | cons d rest ih =>
      rw [List.map_cons, List.mem_cons, not_or] at h
      obtain ⟨l, _ | delivery⟩ := d
      · exact ih h.2 cache ids
      · exact (ih h.2 _ _).trans (FilterList.get?_absorb_of_ne h.1)

/-- Each of several lists takes its own delivery. -/
theorem taken_absorbEach {deliveries : List (FilterList × Option Delivery)}
    (hids : (deliveries.map (·.1.id)).Nodup) (cache : RuleCache) (ids : IdSequence)
    {d : FilterList × Option Delivery} (hd : d ∈ deliveries) :
    ∃ l ∈ (absorbEach cache ids deliveries).lists,
      Taken cache d l ((absorbEach cache ids deliveries).cache.get? d.1.id) := by
  induction deliveries generalizing cache ids with
  | nil => exact absurd hd List.not_mem_nil
  | cons first rest ih =>
      obtain ⟨hnew, hrest⟩ := List.nodup_cons.mp hids
      obtain ⟨l, _ | delivery⟩ := first
      · rcases List.mem_cons.mp hd with rfl | hd
        · refine ⟨l, List.mem_cons_self, fun _ => ⟨rfl, ?_⟩, fun _ h => ?_⟩
          · exact get?_absorbEach_of_not_mem hnew cache ids
          · exact (Option.not_mem_none _ h).elim
        · obtain ⟨l', hl', htaken⟩ := ih hrest cache ids hd
          exact ⟨l', List.mem_cons_of_mem _ hl', htaken⟩
      · rcases List.mem_cons.mp hd with rfl | hd
        · refine ⟨_, List.mem_cons_self, ⟨(nofun), fun delivery' h => ?_⟩⟩
          cases h
          exact ⟨ids, rfl, get?_absorbEach_of_not_mem hnew _ _⟩
        · obtain ⟨l', hl', htaken⟩ := ih hrest (l.absorb cache ids delivery).cache
            (l.absorb cache ids delivery).ids hd
          refine ⟨l', List.mem_cons_of_mem _ hl', htaken.congr ?_⟩
          exact FilterList.get?_absorb_of_ne fun heq =>
            hnew (List.mem_map.mpr ⟨d, hd, heq⟩)

/-- Every source has its reply. -/
theorem length_delivery (r : Registry) (force : Bool) (servers : Servers) (l : FilterList)
    (place : Nat) : (delivery r force servers l place).replies.length = l.sources.length := by
  simp [delivery, Registry.requestsFor]

/-- Nothing is taken in where nothing is delivered. -/
theorem absorbEach_of_none {deliveries : List (FilterList × Option Delivery)}
    (h : ∀ d ∈ deliveries, d.2 = none) (cache : RuleCache) (ids : IdSequence) :
    absorbEach cache ids deliveries = ⟨deliveries.map (·.1), cache, ids, [], []⟩ := by
  induction deliveries with
  | nil => rfl
  | cons d rest ih =>
      obtain ⟨hfirst, hrest⟩ := List.forall_mem_cons.mp h
      obtain ⟨l, delivery?⟩ := d
      obtain rfl : delivery? = none := hfirst
      simp only [absorbEach, ih hrest, List.map_cons]

/-- Deliveries for lists are deliveries for these lists. -/
theorem map_fst_mapIdx (lists : List FilterList) (delivery? : Nat → FilterList → Option Delivery) :
    (lists.mapIdx fun place l => (l, delivery? place l)).map (·.1) = lists :=
  List.ext_getElem (by simp) fun _ _ _ => by simp

theorem map_id_mapIdx (lists : List FilterList) (delivery? : Nat → FilterList → Option Delivery) :
    (lists.mapIdx fun place l => (l, delivery? place l)).map (·.1.id) = lists.map (·.id) :=
  List.map_map.symm.trans (congrArg (List.map (·.id)) (map_fst_mapIdx lists delivery?))

/-- A delivery for the list at one place is taken in, and the other lists stay as they are. -/
theorem absorbEach_at {lists : List FilterList} {place : Nat} {l : FilterList}
    (hl : lists[place]? = some l) (delivered : FilterList → Nat → Delivery) (cache : RuleCache)
    (ids : IdSequence) :
    let a := l.absorb cache ids (delivered l place)
    absorbEach cache ids (lists.mapIdx fun at' l =>
        (l, if at' == place then some (delivered l at') else none)) =
      ⟨lists.set place a.list, a.cache, a.ids, [a.outcome], a.events⟩ := by
  induction lists generalizing place delivered with
  | nil => cases hl
  | cons first rest ih =>
      rw [List.mapIdx_cons]
      cases place with
      | zero =>
          obtain rfl : first = l := Option.some.inj hl
          have hnone : ∀ d ∈ rest.mapIdx fun at' l =>
              (l, if at' + 1 == 0 then some (delivered l (at' + 1)) else none), d.2 = none := by
            intro d hd
            obtain ⟨at', _, rfl⟩ := List.mem_mapIdx.mp hd
            rfl
          simp only [beq_self_eq_true, if_true, absorbEach, absorbEach_of_none hnone,
            map_fst_mapIdx, List.set_cons_zero, List.append_nil]
      | succ place =>
          have hrest := ih (List.getElem?_cons_succ ▸ hl) fun l at' => delivered l (at' + 1)
          have hcut : ∀ at', (at' + 1 == place + 1) = (at' == place) := by
            intro at'
            rw [Bool.eq_iff_iff, beq_iff_eq, beq_iff_eq, Nat.succ_inj]
          have hfirst : (0 == place + 1) = false := rfl
          simp only [hfirst, hcut, Bool.false_eq_true, if_false, absorbEach, hrest,
            List.set_cons_succ]

end Refresh

namespace Registry

/-- With distinct ids a list is found by its id. -/
theorem list?_eq_some {r : Registry} (hids : (r.lists.map (·.id)).Nodup) {l : FilterList}
    (hl : l ∈ r.lists) : r.list? l.id = some l := by
  cases hfound : r.list? l.id with
  | none => simpa using List.find?_eq_none.mp hfound l hl
  | some l' =>
      have hid : l'.id = l.id := by simpa using List.find?_some hfound
      rw [List.inj_on_of_nodup_map hids (List.mem_of_find?_eq_some hfound) hl hid]

/-- With distinct ids the state of every list is saved under its id. -/
theorem get?_metadata {r : Registry} (hids : (r.lists.map (·.id)).Nodup) {l : FilterList}
    (hl : l ∈ r.lists) : r.metadata.get? l.id = some l.metadata := by
  have hkeys : ((r.lists.map fun l => (l.id, l.metadata)).map (·.1)).Nodup := by
    rwa [List.map_map]
  rw [metadata, Dict.get?_ofList hkeys, Dict.lookup_eq_some_iff_mem hkeys]
  exact List.mem_map_of_mem hl

/-- A refresh of the list at one place takes in the replies for this list only. -/
theorem refresh_at {r : Registry} {place : Nat} {l : FilterList} (hl : r.lists[place]? = some l)
    (force : Bool) (servers : Servers) :
    let a := l.absorb r.cache r.ids (Refresh.delivery r force servers l place)
    let refresh := r.refresh (fun _ at' => at' == place) force servers
    refresh.outcomes = [a.outcome] ∧
      refresh.registry =
        { r with lists := r.lists.set place a.list, cache := a.cache, ids := a.ids } := by
  have htaken := Refresh.absorbEach_at hl (Refresh.delivery r force servers) r.cache r.ids
  simp only [refresh, htaken, and_self]

/-- What becomes of a list in a refresh, and of its cached segments. -/
theorem taken_refresh {r : Registry} (hids : (r.lists.map (·.id)).Nodup)
    (chosen : FilterList → Nat → Bool) (force : Bool) (servers : Servers) {place : Nat}
    {l : FilterList} (hl : r.lists[place]? = some l) :
    ∃ l' ∈ (r.refresh chosen force servers).registry.lists,
      Refresh.Taken r.cache
        (l, if chosen l place then some (Refresh.delivery r force servers l place) else none) l'
        ((r.refresh chosen force servers).registry.cache.get? l.id) := by
  refine Refresh.taken_absorbEach ?_ r.cache r.ids (List.mem_mapIdx.mpr ?_)
  · rwa [Refresh.map_id_mapIdx]
  · obtain ⟨hplace, rfl⟩ := List.getElem?_eq_some_iff.mp hl
    exact ⟨place, hplace, rfl⟩

/-- Every list of a registry after a refresh is one from before, with what was taken in for it. -/
theorem exists_taken_of_mem_refresh {r : Registry} (hids : (r.lists.map (·.id)).Nodup)
    {chosen : FilterList → Nat → Bool} {force : Bool} {servers : Servers} {l' : FilterList}
    (hl' : l' ∈ (r.refresh chosen force servers).registry.lists) :
    ∃ place l, r.lists[place]? = some l ∧ l'.id = l.id ∧
      Refresh.Taken r.cache
        (l, if chosen l place then some (Refresh.delivery r force servers l place) else none) l'
        ((r.refresh chosen force servers).registry.cache.get? l'.id) := by
  have hmap : (r.refresh chosen force servers).registry.lists.map (·.id) =
      r.lists.map (·.id) := by
    rw [← ids_catalogue, catalogue_refresh, ids_catalogue]
  have hmem : l'.id ∈ r.lists.map (·.id) := hmap ▸ List.mem_map_of_mem hl'
  obtain ⟨l, hl, hid⟩ := List.mem_map.mp hmem
  obtain ⟨place, hplace⟩ := List.mem_iff_getElem?.mp hl
  obtain ⟨l'', hl'', htaken⟩ := taken_refresh hids chosen force servers hplace
  have heq : l'' = l' :=
    List.inj_on_of_nodup_map (hmap ▸ hids) hl'' hl' (htaken.id_eq.trans hid)
  subst heq
  exact ⟨place, l, hplace, hid.symm, hid ▸ htaken⟩

end Registry

end Blocklist
