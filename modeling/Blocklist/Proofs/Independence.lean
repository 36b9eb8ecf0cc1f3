import Blocklist.Proofs.Answers
import Blocklist.Proofs.FreshIds

/-!
# Lists refresh independently

What a refresh makes of a list is decided by the list, by its own part of the cache and by the
replies of its own sources. Other lists share a sequence of ids with it and nothing else, so what
they receive moves the numbers of the records that are compiled for the list, all by one offset.

## Implementation notes

The lists before a list decide where the sequence stands when its replies are taken in, and the
lists after it do not meet its part of the cache. So a refresh is cut at the place of the list, and
the two sequences that come to that place are compared by their offset, record by record.
-/

namespace Blocklist

open Blocklist.Filter (Draft)

/-! ### Numbers moved by an offset -/

/-- Two records of one draft, with numbers that differ by an offset. -/
def Record.ShiftedBy (listId : String) (offset : Int) (x y : Record) : Prop :=
  ∃ (draft : Draft) (id id' : RuleId),
    x = .ofDraft listId id draft ∧ y = .ofDraft listId id' draft ∧
      (id'.toNat : Int) = id.toNat + offset

namespace IdSequence

/-- A sequence that stands an offset behind another one. -/
def ShiftedBy (offset : Int) (ids ids' : IdSequence) : Prop :=
  (ids'.next.toNat : Int) = ids.next.toNat + offset

variable {offset : Int} {ids ids' : IdSequence}

/-- As long as neither is used up, two sequences hand out ids side by side. -/
theorem ShiftedBy.skip (h : ShiftedBy offset ids ids') {n : Nat}
    (hroom : (ids.skip n).next < RuleId.last) (hroom' : (ids'.skip n).next < RuleId.last) :
    ShiftedBy offset (ids.skip n) (ids'.skip n) := by
  rw [UInt32.lt_iff_toNat_lt, toNat_skip] at hroom hroom'
  rw [ShiftedBy, toNat_skip, toNat_skip]
  rw [ShiftedBy] at h
  omega

/-- Two sequences give the same drafts ids that differ by the offset. -/
theorem ShiftedBy.label (h : ShiftedBy offset ids ids') (listId : String) {drafts : List Draft}
    (hroom : (ids.skip drafts.length).next < RuleId.last)
    (hroom' : (ids'.skip drafts.length).next < RuleId.last) :
    List.Forall₂ (Record.ShiftedBy listId offset) (ids.label listId drafts).1
      (ids'.label listId drafts).1 := by
  induction drafts generalizing ids ids' with
  | nil => exact .nil
  | cons draft rest ih =>
      rw [label_cons, label_cons]
      have hadvance : ShiftedBy offset ids.advance ids'.advance := by
        refine h.skip (n := 1) ?_ ?_
        · exact UInt32.lt_of_le_of_lt (ids.advance.next_le_skip rest.length) hroom
        · exact UInt32.lt_of_le_of_lt (ids'.advance.next_le_skip rest.length) hroom'
      exact .cons ⟨draft, ids.next, ids'.next, rfl, rfl, h⟩ (ih hadvance hroom hroom')

end IdSequence

/-- Two segments of one text, the numbers of whose records differ by an offset. -/
structure Segment.ShiftedBy (listId : String) (offset : Int) (s s' : Segment) : Prop where
  url : s'.url = s.url
  etag : s'.etag = s.etag
  rules : List.Forall₂ (fun x y => Record.ShiftedBy listId offset (.network x) (.network y))
    s.rules s'.rules
  cosmeticRules : List.Forall₂
    (fun x y => Record.ShiftedBy listId offset (.cosmetic x) (.cosmetic y))
    s.cosmeticRules s'.cosmeticRules
  scriptlets : List.Forall₂
    (fun x y => Record.ShiftedBy listId offset (.scriptlet x) (.scriptlet y))
    s.scriptlets s'.scriptlets
  stats : s'.stats = s.stats

theorem Segment.shiftedBy_ofCompiled {offset : Int} {ids ids' : IdSequence}
    (h : ids.ShiftedBy offset ids') (url : String) (etag : Option String) {listId text : String}
    (hroom : (compileList ids listId text).ids.next < RuleId.last)
    (hroom' : (compileList ids' listId text).ids.next < RuleId.last) :
    Segment.ShiftedBy listId offset (.ofCompiled url etag (compileList ids listId text).list)
        (.ofCompiled url etag (compileList ids' listId text).list) ∧
      (compileList ids listId text).ids.ShiftedBy offset (compileList ids' listId text).ids := by
  have hids := (ids_ofCompiled url etag ids listId text).2
  have hids' := (ids_ofCompiled url etag ids' listId text).2
  rw [hids] at hroom ⊢
  rw [hids'] at hroom' ⊢
  have hlabel := h.label listId hroom hroom'
  refine ⟨?_, h.skip hroom hroom'⟩
  rw [ofCompiled_eq, ofCompiled_eq]
  refine ⟨rfl, rfl, ?_, ?_, ?_, rfl⟩
  all_goals
    refine List.rel_filterMap (fun x y hxy => ?_) hlabel
    obtain ⟨draft, id, id', rfl, rfl, hid⟩ := hxy
  · cases draft with
    | block body => exact .some ⟨.block body, id, id', rfl, rfl, hid⟩
    | allow body => exact .some ⟨.allow body, id, id', rfl, rfl, hid⟩
    | cosmetic body => exact .none
    | scriptlet body => exact .none
  · cases draft with
    | cosmetic body => exact .some ⟨.cosmetic body, id, id', rfl, rfl, hid⟩
    | _ => exact .none
  · cases draft with
    | scriptlet body => exact .some ⟨.scriptlet body, id, id', rfl, rfl, hid⟩
    | _ => exact .none

namespace Intake

/-- The segments that two intakes of the same replies come to: the kept ones are the same, and the
compiled ones have their numbers moved by one offset. -/
inductive Shifted (listId : String) (previous : Option ListArtifacts) (offset : Int) :
    List (ListSource × Reply) → List Segment → List Segment → Prop
  | nil : Shifted listId previous offset [] [] []
  | failed (source : ListSource) (error : FetchError) {rest ss ss'}
      (tail : Shifted listId previous offset rest ss ss') :
      Shifted listId previous offset ((source, .error error) :: rest) ss ss'
  | kept (source : ListSource) {rest ss ss'} (tail : Shifted listId previous offset rest ss ss') :
      Shifted listId previous offset ((source, .ok .notModified) :: rest)
        ((previous.bind (·.source? source.url)).toList ++ ss)
        ((previous.bind (·.source? source.url)).toList ++ ss')
  | compiled (source : ListSource) (body : String) (etag : Option String) {s s' rest ss ss'}
      (head : Segment.ShiftedBy listId offset s s')
      (tail : Shifted listId previous offset rest ss ss') :
      Shifted listId previous offset ((source, .ok (.fetched body etag)) :: rest) (s :: ss)
        (s' :: ss')

variable {listId : String} {previous : Option ListArtifacts} {offset : Int}

/-- Shifted segments are as many, and so are their rules. -/
theorem Shifted.lengths {pairs : List (ListSource × Reply)} {ss ss' : List Segment}
    (h : Shifted listId previous offset pairs ss ss') :
    ss.length = ss'.length ∧
      (ss.flatMap (·.rules)).length = (ss'.flatMap (·.rules)).length := by
  induction h with
  | nil => exact ⟨rfl, rfl⟩
  | failed source error tail ih => exact ih
  | kept source tail ih =>
      simp only [List.length_append, List.flatMap_append]
      exact ⟨congrArg _ ih.1, congrArg _ ih.2⟩
  | compiled source body etag head tail ih =>
      simp only [List.length_cons, List.flatMap_cons, List.length_append]
      exact ⟨congrArg _ ih.1, congrArg₂ _ head.rules.length_eq ih.2⟩

theorem next_le_ofReplies (listId : String) (previous : Option ListArtifacts) (ids : IdSequence)
    (pairs : List (ListSource × Reply)) :
    ids.next ≤ (ofReplies listId previous ids pairs).ids.next := by
  rw [(ids_ofReplies listId previous ids pairs).2]
  exact ids.next_le_skip _

/-- The same replies, taken in with two sequences. -/
theorem shifted_ofReplies {ids ids' : IdSequence} (h : ids.ShiftedBy offset ids')
    {pairs : List (ListSource × Reply)}
    (hroom : (ofReplies listId previous ids pairs).ids.next < RuleId.last)
    (hroom' : (ofReplies listId previous ids' pairs).ids.next < RuleId.last) :
    Shifted listId previous offset pairs (ofReplies listId previous ids pairs).segments
      (ofReplies listId previous ids' pairs).segments := by
  induction pairs generalizing ids ids' with
  | nil => exact .nil
  | cons pair rest ih =>
      obtain ⟨source, error | _ | ⟨body, etag⟩⟩ := pair
      · exact .failed source error (ih h hroom hroom')
      · exact .kept source (ih h hroom hroom')
      · have hcompiled := Segment.shiftedBy_ofCompiled h source.url etag
          (UInt32.lt_of_le_of_lt (next_le_ofReplies listId previous _ rest) hroom)
          (UInt32.lt_of_le_of_lt (next_le_ofReplies listId previous _ rest) hroom')
        exact .compiled source body etag hcompiled.1 (ih hcompiled.2 hroom hroom')

end Intake

/-! ### One list -/

namespace Refresh

/-- What a refresh made of one list. -/
structure Result where
  outcome : RefreshOutcome
  list : FilterList
  /-- What the cache then holds for the list. -/
  entry : Option ListArtifacts

/-- Two results of one list with a part of the cache and replies: the same outcome, the same state
but for the time, and entries that differ in the numbers of what was compiled, by one offset. -/
structure Result.ShiftedBy (l : FilterList) (previous : Option ListArtifacts) (replies : List Reply)
    (offset : Int) (x y : Result) : Prop where
  outcome : y.outcome = x.outcome
  list : y.list = { x.list with lastFetch := y.list.lastFetch }
  kept : x.outcome ≠ .updated → x.entry = previous ∧ y.entry = previous
  compiled : x.outcome = .updated → ∃ ss ss', x.entry = some ⟨ss⟩ ∧ y.entry = some ⟨ss'⟩ ∧
    Intake.Shifted l.id previous offset (l.sources.zip replies) ss ss'

end Refresh

namespace FilterList

variable {cache cache' : RuleCache} {ids ids' : IdSequence}

theorem ids_absorb (l : FilterList) (cache : RuleCache) (ids : IdSequence) (delivery : Delivery) :
    (l.absorb cache ids delivery).ids =
      (Intake.ofReplies l.id (cache.get? l.id) ids (l.sources.zip delivery.replies)).ids := by
  simp only [absorb]
  split
  · rfl
  · split <;> rfl

theorem next_le_absorb (l : FilterList) (cache : RuleCache) (ids : IdSequence)
    (delivery : Delivery) : ids.next ≤ (l.absorb cache ids delivery).ids.next := by
  rw [ids_absorb]
  exact Intake.next_le_ofReplies _ _ _ _

/-- What becomes of a list and its part of the cache when replies are taken in. -/
def absorbed (l : FilterList) (cache : RuleCache) (ids : IdSequence) (delivery : Delivery) :
    Refresh.Result :=
  let a := l.absorb cache ids delivery
  ⟨a.outcome, a.list, a.cache.get? l.id⟩

/-- The same replies for one list, taken in with two sequences. -/
theorem shiftedBy_absorbed (l : FilterList) {offset : Int} (h : ids.ShiftedBy offset ids')
    (hcache : cache.get? l.id = cache'.get? l.id) {delivery delivery' : Delivery}
    (hreplies : delivery'.replies = delivery.replies)
    (hroom : (l.absorb cache ids delivery).ids.next < RuleId.last)
    (hroom' : (l.absorb cache' ids' delivery').ids.next < RuleId.last) :
    Refresh.Result.ShiftedBy l (cache.get? l.id) delivery.replies offset
      (l.absorbed cache ids delivery) (l.absorbed cache' ids' delivery') := by
  rw [ids_absorb] at hroom hroom'
  rw [hreplies, ← hcache] at hroom'
  have hshifted := Intake.shifted_ofReplies h hroom hroom'
  obtain ⟨hsegments, hrules⟩ := hshifted.lengths
  simp only [absorbed, absorb, hreplies, ← hcache, ← hsegments]
  generalize Intake.ofReplies l.id (cache.get? l.id) ids (l.sources.zip delivery.replies) = intake
    at hshifted hrules ⊢
  generalize Intake.ofReplies l.id (cache.get? l.id) ids' (l.sources.zip delivery.replies) = intake'
    at hshifted hrules ⊢
  split
  · refine ⟨rfl, rfl, fun _ => ⟨rfl, hcache.symm⟩, ?_⟩
    intro h
    cases h
  · split
    · refine ⟨rfl, rfl, fun _ => ⟨rfl, hcache.symm⟩, ?_⟩
      intro h
      cases h
    · have hcount : (ListArtifacts.mk intake'.segments).ruleCount =
          (ListArtifacts.mk intake.segments).ruleCount := congrArg UInt64.ofNat hrules.symm
      refine ⟨rfl, by rw [hcount], fun h => absurd rfl h, fun _ => ?_⟩
      exact ⟨_, _, Dict.get?_insert_self _ _ _, Dict.get?_insert_self _ _ _, hshifted⟩

/-- When replies are taken in makes no difference to the cache, the ids and the outcome. -/
theorem absorb_congr_replies (l : FilterList) (cache : RuleCache) (ids : IdSequence)
    {delivery delivery' : Delivery} (h : delivery'.replies = delivery.replies) :
    (l.absorb cache ids delivery').cache = (l.absorb cache ids delivery).cache ∧
      (l.absorb cache ids delivery').ids = (l.absorb cache ids delivery).ids := by
  refine ⟨?_, by rw [ids_absorb, ids_absorb, h]⟩
  simp only [absorb, h]
  split
  · rfl
  · split <;> rfl

end FilterList

/-! ### All lists -/

namespace Refresh

/-- Deliveries are taken in one after the other. -/
theorem absorbEach_append (cache : RuleCache) (ids : IdSequence)
    (front back : List (FilterList × Option Delivery)) :
    let p := absorbEach cache ids front
    let q := absorbEach p.cache p.ids back
    absorbEach cache ids (front ++ back) =
      ⟨p.lists ++ q.lists, q.cache, q.ids, p.outcomes ++ q.outcomes, p.events ++ q.events⟩ := by
  induction front generalizing cache ids with
  | nil => rfl
  | cons d rest ih =>
      obtain ⟨l, _ | delivery⟩ := d
      · simp only [List.cons_append, absorbEach, ih]
      · simp only [List.cons_append, absorbEach, ih, List.append_assoc]

theorem length_absorbEach (cache : RuleCache) (ids : IdSequence)
    (deliveries : List (FilterList × Option Delivery)) :
    (absorbEach cache ids deliveries).lists.length = deliveries.length ∧
      (absorbEach cache ids deliveries).outcomes.length = deliveries.countP (·.2.isSome) := by
  induction deliveries generalizing cache ids with
  | nil => exact ⟨rfl, rfl⟩
  | cons d rest ih =>
      obtain ⟨l, _ | delivery⟩ := d
      · simp [absorbEach, ih]
      · simp [absorbEach, ih]

theorem next_le_absorbEach (cache : RuleCache) (ids : IdSequence)
    (deliveries : List (FilterList × Option Delivery)) :
    ids.next ≤ (absorbEach cache ids deliveries).ids.next := by
  induction deliveries generalizing cache ids with
  | nil => exact UInt32.le_refl _
  | cons d rest ih =>
      obtain ⟨l, _ | delivery⟩ := d
      · exact ih cache ids
      · exact UInt32.le_trans (l.next_le_absorb cache ids delivery) (ih _ _)

/-- A run of lists of distinct ids makes of each what its own delivery makes of it, with the part of
the cache that it had before. -/
theorem absorbEach_cut {front back : List (FilterList × Option Delivery)} {l : FilterList}
    (hfront : l.id ∉ front.map (·.1.id)) (hback : l.id ∉ back.map (·.1.id)) (cache : RuleCache)
    (ids : IdSequence) (delivery : Delivery) :
    let p := absorbEach cache ids front
    let a := l.absorb p.cache p.ids delivery
    let whole := absorbEach cache ids (front ++ (l, some delivery) :: back)
    p.cache.get? l.id = cache.get? l.id ∧ whole.lists[front.length]? = some a.list ∧
      whole.outcomes[front.countP (·.2.isSome)]? = some a.outcome ∧
      whole.cache.get? l.id = a.cache.get? l.id ∧ a.ids.next ≤ whole.ids.next := by
  intro p a whole
  obtain ⟨hlists, houtcomes⟩ := length_absorbEach cache ids front
  have hwhole : whole = _ := absorbEach_append cache ids front ((l, some delivery) :: back)
  refine ⟨get?_absorbEach_of_not_mem hfront cache ids, ?_, ?_, ?_, ?_⟩
  · rw [hwhole, ← hlists]
    exact (List.getElem?_append_right (Nat.le_refl _)).trans (by rw [Nat.sub_self]; rfl)
  · rw [hwhole, ← houtcomes]
    exact (List.getElem?_append_right (Nat.le_refl _)).trans (by rw [Nat.sub_self]; rfl)
  · rw [hwhole]
    exact get?_absorbEach_of_not_mem hback a.cache a.ids
  · rw [hwhole]
    exact next_le_absorbEach a.cache a.ids back

/-- It leaves a list for which nothing is delivered as it is. -/
theorem absorbEach_cut_none {front back : List (FilterList × Option Delivery)} {l : FilterList}
    (hfront : l.id ∉ front.map (·.1.id)) (hback : l.id ∉ back.map (·.1.id)) (cache : RuleCache)
    (ids : IdSequence) :
    let whole := absorbEach cache ids (front ++ (l, none) :: back)
    whole.lists[front.length]? = some l ∧ whole.cache.get? l.id = cache.get? l.id := by
  intro whole
  have hwhole : whole = _ := absorbEach_append cache ids front ((l, none) :: back)
  rw [hwhole, ← (length_absorbEach cache ids front).1]
  constructor
  · exact (List.getElem?_append_right (Nat.le_refl _)).trans (by rw [Nat.sub_self]; rfl)
  · exact (get?_absorbEach_of_not_mem hback _ _).trans (get?_absorbEach_of_not_mem hfront cache ids)

/-- Two deliveries for one list that bring the same replies, or none. -/
def SameReplies (d d' : FilterList × Option Delivery) : Prop :=
  d'.1 = d.1 ∧ d'.2.map (·.replies) = d.2.map (·.replies)

/-- The same replies for all lists come to the same cache and take the same ids. -/
theorem absorbEach_congr {deliveries deliveries' : List (FilterList × Option Delivery)}
    (h : List.Forall₂ SameReplies deliveries deliveries') (cache : RuleCache) (ids : IdSequence) :
    (absorbEach cache ids deliveries').cache = (absorbEach cache ids deliveries).cache ∧
      (absorbEach cache ids deliveries').ids = (absorbEach cache ids deliveries).ids := by
  induction h generalizing cache ids with
  | nil => exact ⟨rfl, rfl⟩
  | @cons d d' rest rest' hsame _ ih =>
      obtain ⟨l, delivery?⟩ := d
      obtain ⟨l', delivery'?⟩ := d'
      obtain ⟨rfl, hreplies⟩ := hsame
      cases delivery? with
      | none =>
          obtain rfl : delivery'? = none := Option.map_eq_none_iff.mp hreplies
          exact ih cache ids
      | some delivery =>
          obtain ⟨delivery', rfl, hsame⟩ := Option.map_eq_some_iff.mp hreplies
          obtain ⟨hcache, hids⟩ := l'.absorb_congr_replies cache ids hsame
          simp only [absorbEach, hcache, hids]
          exact ih _ _

/-- What a refresh of the enabled lists made of the list at a place, if it is enabled. -/
def resultAt? (r : Registry) (refresh : Refresh) (place : Nat) : Option Result := do
  let outcome ← refresh.outcomes[(r.lists.take place).countP (·.enabled)]?
  let list ← refresh.registry.lists[place]?
  return ⟨outcome, list, refresh.registry.cache.get? list.id⟩

end Refresh

namespace Registry

/-- The deliveries of a refresh of the enabled lists. -/
def deliveries (r : Registry) (force : Bool) (servers : Servers) :
    List (FilterList × Option Delivery) :=
  r.lists.mapIdx fun place l =>
    (l, if l.enabled then some (Refresh.delivery r force servers l place) else none)

/-- Two sets of servers bring the same replies for a list. -/
def SameRepliesFor (r : Registry) (force : Bool) (servers servers' : Servers) (place : Nat)
    (l : FilterList) : Prop :=
  (Refresh.delivery r force servers' l place).replies =
    (Refresh.delivery r force servers l place).replies

variable {r : Registry} {force : Bool} {servers servers' : Servers}

theorem map_fst_deliveries (r : Registry) (force : Bool) (servers : Servers) :
    (r.deliveries force servers).map (·.1) = r.lists := by
  apply List.ext_getElem
  · simp [deliveries]
  · intro place _ _
    simp [deliveries]

/-- What is delivered is for the enabled lists. -/
theorem isSome_of_mem_deliveries {d : FilterList × Option Delivery}
    (hd : d ∈ r.deliveries force servers) : d.2.isSome = d.1.enabled := by
  obtain ⟨place, hplace, rfl⟩ := List.mem_mapIdx.mp hd
  dsimp only
  cases r.lists[place].enabled <;> rfl

theorem filter_deliveries (r : Registry) (force : Bool) (servers : Servers) :
    ((r.deliveries force servers).filter (·.2.isSome)).map (·.1) = r.enabledLists := by
  rw [List.filter_congr fun d hd => isSome_of_mem_deliveries hd, enabledLists,
    ← map_fst_deliveries r force servers, List.filter_map]
  rfl

theorem countP_take_deliveries (place : Nat) :
    ((r.deliveries force servers).take place).countP (·.2.isSome) =
      (r.lists.take place).countP (·.enabled) := by
  have hcongr : ((r.deliveries force servers).take place).countP (·.2.isSome) =
      ((r.deliveries force servers).take place).countP (·.1.enabled) := by
    apply List.countP_congr
    intro d hd
    rw [isSome_of_mem_deliveries (List.mem_of_mem_take hd)]
  rw [hcongr, ← map_fst_deliveries r force servers, ← List.map_take,
    List.countP_map]
  rfl

/-- The requests of a refresh are those for the enabled lists. -/
theorem requests_refreshEnabled :
    (r.refreshEnabled force servers).requests = r.enabledLists.flatMap (r.requestsFor force) := by
  rw [← filter_deliveries r force servers, List.flatMap_map]
  rfl

/-- Every enabled list has one outcome. -/
theorem length_outcomes_refreshEnabled :
    (r.refreshEnabled force servers).outcomes.length = r.enabledLists.length := by
  rw [← filter_deliveries r force servers, List.length_map,
    ← List.countP_eq_length_filter]
  exact (Refresh.length_absorbEach r.cache r.ids (r.deliveries force servers)).2

/-- The sequence that comes to the place of a list in a refresh. -/
def idsAt (r : Registry) (force : Bool) (servers : Servers) (place : Nat) : IdSequence :=
  (Refresh.absorbEach r.cache r.ids ((r.deliveries force servers).take place)).ids

/-- The deliveries of a refresh, cut at the place of a list. -/
theorem deliveries_eq (force : Bool) (servers : Servers) {place : Nat} {l : FilterList}
    (hl : r.lists[place]? = some l) :
    r.deliveries force servers = (r.deliveries force servers).take place ++
        (l, if l.enabled then some (Refresh.delivery r force servers l place) else none) ::
          (r.deliveries force servers).drop (place + 1) ∧
      ((r.deliveries force servers).take place).length = place := by
  obtain ⟨hplace, hl⟩ := List.getElem?_eq_some_iff.mp hl
  have hlength : (r.deliveries force servers).length = r.lists.length := List.length_mapIdx
  have hplace' : place < (r.deliveries force servers).length := hlength ▸ hplace
  have hget : (r.deliveries force servers)[place] =
      (l, if l.enabled then some (Refresh.delivery r force servers l place) else none) := by
    rw [← hl]
    exact List.getElem_mapIdx
  constructor
  · rw [← hget, List.getElem_cons_drop, List.take_append_drop]
  · rw [List.length_take, hlength]
    exact Nat.min_eq_left hplace.le

/-- With distinct ids, no other list has the id of the one at a place. -/
theorem id_not_mem_deliveries (force : Bool) (servers : Servers)
    (hids : (r.lists.map (·.id)).Nodup) {place : Nat} {l : FilterList}
    (hl : r.lists[place]? = some l) :
    l.id ∉ ((r.deliveries force servers).take place).map (·.1.id) ∧
      l.id ∉ ((r.deliveries force servers).drop (place + 1)).map (·.1.id) := by
  rw [← map_fst_deliveries r force servers, List.map_map,
    (deliveries_eq force servers hl).1, List.map_append, List.map_cons,
    List.nodup_middle, List.nodup_cons, List.mem_append, not_or] at hids
  exact hids.1

/-- A refresh makes of the list at a place what its own delivery makes of it, with the part of the
cache that the list had before. -/
theorem resultAt?_refreshEnabled (force : Bool) (servers : Servers)
    (hids : (r.lists.map (·.id)).Nodup) {place : Nat} {l : FilterList}
    (hl : r.lists[place]? = some l) (henabled : l.enabled = true) :
    ∃ cache : RuleCache, cache.get? l.id = r.cache.get? l.id ∧
      let delivery := Refresh.delivery r force servers l place
      (r.refreshEnabled force servers).resultAt? r place =
          some (l.absorbed cache (r.idsAt force servers place) delivery) ∧
        (l.absorb cache (r.idsAt force servers place) delivery).ids.next ≤
          (r.refreshEnabled force servers).registry.ids.next := by
  obtain ⟨hsplit, hplace⟩ := deliveries_eq force servers hl
  rw [if_pos henabled] at hsplit
  obtain ⟨hfront, hback⟩ := id_not_mem_deliveries force servers hids hl
  obtain ⟨hcache, hlists, houtcomes, hentry, hnext⟩ :=
    Refresh.absorbEach_cut hfront hback r.cache r.ids (Refresh.delivery r force servers l place)
  rw [← hsplit] at hlists houtcomes hentry hnext
  rw [hplace] at hlists
  rw [countP_take_deliveries] at houtcomes
  refine ⟨_, hcache, ?_, hnext⟩
  have hlists' : (r.refreshEnabled force servers).registry.lists[place]? = _ := hlists
  have houtcomes' :
      (r.refreshEnabled force servers).outcomes[(r.lists.take place).countP (·.enabled)]? = _ :=
    houtcomes
  simp only [Refresh.resultAt?, hlists', houtcomes', Option.bind_eq_bind, Option.bind_some,
    FilterList.id_absorb]
  exact congrArg (fun entry => some (Refresh.Result.mk _ _ entry)) hentry

/-- A refresh leaves a list that is not enabled as it is, and what the cache holds for it. -/
theorem unchanged_refreshEnabled (hids : (r.lists.map (·.id)).Nodup) {place : Nat} {l : FilterList}
    (hl : r.lists[place]? = some l) (henabled : l.enabled = false) :
    (r.refreshEnabled force servers).registry.lists[place]? = some l ∧
      (r.refreshEnabled force servers).registry.cache.get? l.id = r.cache.get? l.id := by
  obtain ⟨hsplit, hplace⟩ := deliveries_eq force servers hl
  rw [henabled, if_neg Bool.false_ne_true] at hsplit
  obtain ⟨hfront, hback⟩ := id_not_mem_deliveries force servers hids hl
  obtain ⟨hlists, hcache⟩ := Refresh.absorbEach_cut_none hfront hback r.cache r.ids
  rw [← hsplit] at hlists hcache
  rw [hplace] at hlists
  exact ⟨hlists, hcache⟩

/-- The same replies for the enabled lists before a place bring the same sequence there. -/
theorem idsAt_congr {place : Nat}
    (h : ∀ front < place, ∀ l, r.lists[front]? = some l → l.enabled = true →
      r.SameRepliesFor force servers servers' front l) :
    r.idsAt force servers' place = r.idsAt force servers place := by
  refine (Refresh.absorbEach_congr ?_ r.cache r.ids).2
  apply List.forall₂_iff_get.mpr
  constructor
  · simp [deliveries]
  · intro front hfront hfront'
    simp only [deliveries, List.length_take, List.length_mapIdx, Nat.lt_min] at hfront
    have hl : r.lists[front]? = some r.lists[front] := List.getElem?_eq_getElem hfront.2
    simp only [List.get_eq_getElem, List.getElem_take, deliveries, List.getElem_mapIdx]
    refine ⟨rfl, ?_⟩
    dsimp only
    split
    · rename_i henabled
      exact congrArg some (h front hfront.1 _ hl henabled)
    · rfl

end Registry

/-- Each outcome is one of three. -/
theorem Refresh.count_add_count_add_count (refresh : Refresh) :
    refresh.count .updated + refresh.count .notModified + refresh.count .failed =
      refresh.outcomes.length := by
  simp only [Refresh.count]
  induction refresh.outcomes with
  | nil => rfl
  | cons outcome rest ih =>
      cases outcome <;> simp only [List.count_cons, List.length_cons] <;> grind

namespace Session

variable {w : Type} [KeyValueStore w] [FilteringEngine w]

/-- When all enabled lists are refreshed, with the same force and before the ids are used up, two
sets of servers that bring the same replies for an enabled list have the same outcome for it. They
leave the same state of it but for the time, and entries of it in the cache that differ in the
numbers of newly compiled records only, by one offset; the offset is zero if the replies for every
enabled list before it are the same too. A list that is not enabled is not requested, and neither it
nor its entry changes. The counts of the summary add up to the number of enabled lists. -/
theorem lists_refresh_independently (s : Session w)
    (hids : (s.registry.lists.map (·.id)).Nodup) (force : Bool) (servers : Servers) :
    let r := s.registry
    let refresh (servers : Servers) := r.refreshEnabled force servers
    let summary := (s.refreshAll force servers).1
    let t := (s.refreshAll force servers).2
    (∀ servers', (refresh servers).registry.ids.next < RuleId.last →
      (refresh servers').registry.ids.next < RuleId.last →
      ∀ (place : Nat) (l : FilterList), r.lists[place]? = some l → l.enabled = true →
        r.SameRepliesFor force servers servers' place l →
        ∃ result result' offset,
          (refresh servers).resultAt? r place = some result ∧
          (refresh servers').resultAt? r place = some result' ∧
          result.ShiftedBy l (r.cache.get? l.id) (Refresh.delivery r force servers l place).replies
            offset result' ∧
          ((∀ front < place, ∀ l' : FilterList, r.lists[front]? = some l' → l'.enabled = true →
            r.SameRepliesFor force servers servers' front l') → offset = 0)) ∧
    t.registry = (refresh servers).registry ∧
    (∀ (place : Nat) (l : FilterList), r.lists[place]? = some l → l.enabled = false →
      t.registry.lists[place]? = some l ∧ t.registry.cache.get? l.id = r.cache.get? l.id) ∧
    t.requests = s.requests ++ r.enabledLists.flatMap (r.requestsFor force) ∧
    summary.updated + summary.notModified + summary.failed = r.enabledLists.length := by
  intro r refresh summary t
  refine ⟨?_, registry_refreshAll s force servers, ?_, ?_, ?_⟩
  · intro servers' hroom hroom' place l hl henabled hsame
    obtain ⟨cache, hcache, hresult, hnext⟩ :=
      Registry.resultAt?_refreshEnabled force servers hids hl henabled
    obtain ⟨cache', hcache', hresult', hnext'⟩ :=
      Registry.resultAt?_refreshEnabled force servers' hids hl henabled
    -- The offset is that of the sequences that come to the place of the list.
    let offset : Int :=
      (r.idsAt force servers' place).next.toNat - (r.idsAt force servers place).next.toNat
    have hoffset :
        (r.idsAt force servers place).ShiftedBy offset (r.idsAt force servers' place) := by
      rw [IdSequence.ShiftedBy]
      omega
    have hshifted := l.shiftedBy_absorbed hoffset (hcache.trans hcache'.symm) hsame
      (UInt32.lt_of_le_of_lt hnext hroom) (UInt32.lt_of_le_of_lt hnext' hroom')
    rw [hcache] at hshifted
    refine ⟨_, _, offset, hresult, hresult', hshifted, fun hfront => ?_⟩
    have hsequence : r.idsAt force servers' place = r.idsAt force servers place :=
      Registry.idsAt_congr hfront
    simp only [offset, hsequence, Int.sub_self]
  · intro place l hl henabled
    rw [registry_refreshAll]
    exact Registry.unchanged_refreshEnabled hids hl henabled
  · rw [(s.refreshAll_fst force servers).2, Registry.requests_refreshEnabled]
  · simp only [summary, (s.refreshAll_fst force servers).1, Refresh.summary]
    rw [Refresh.count_add_count_add_count, Registry.length_outcomes_refreshEnabled]

/-- The second of two lists is compiled from the same text, with other numbers if the sources of the
first list fail. -/
theorem lists_refresh_independently_sample :
    let r := Registry.ofManifest .sample default
    let servers := Fleet.sampleServers
    let servers' : Servers := { servers with
      reply := fun list source request =>
        if list = 0 then .error .http else servers.reply list source request }
    let ids? (servers : Servers) := do
      let result ← (r.refreshEnabled false servers).resultAt? r 1
      result.entry.map ListArtifacts.ids
    (r.lists.map (·.id)).Nodup ∧
      ids? servers = some [1004, 1005] ∧ ids? servers' = some [1000, 1001] ∧
      ∃ l result result', ∃ offset : Int, r.lists[1]? = some l ∧
        (r.refreshEnabled false servers).resultAt? r 1 = some result ∧
        (r.refreshEnabled false servers').resultAt? r 1 = some result' ∧
        result.ShiftedBy l none (Refresh.delivery r false servers l 1).replies offset result' := by
  intro r servers servers' ids?
  have hids : (r.lists.map (·.id)).Nodup := by decide
  let s : Session (Backend MemoryStore MemoryEngine) := ofRegistry r ⟨.empty, .withLimit 30000⟩
  obtain ⟨hshifted, -⟩ := lists_refresh_independently s hids false servers
  obtain ⟨result, result', offset, hresult, hresult', hoffset, -⟩ :=
    hshifted servers' (by decide +kernel) (by decide +kernel) 1 _ rfl rfl rfl
  exact ⟨hids, by decide +kernel, by decide +kernel, _, result, result', offset, rfl, hresult,
    hresult', hoffset⟩

end Session

end Blocklist
