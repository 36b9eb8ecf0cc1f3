import Blocklist.Proofs.CompileAssemble
import Blocklist.Proofs.Independence
import Blocklist.Proofs.RefreshedSources
import Blocklist.Proofs.ReportedRefresh

/-!
# The refresh of one list

The replies for the sources of a list either leave everything as it was, or leave all but the time of
the list, or give the list a new entry: source by source the segment that was cached, the one compiled
from the text that came, or none. Nothing else of the registry changes but the ids that are left.

## Implementation notes

`Intake.contribution` says what one source brings when the ids of the sources before it are taken. An
entry is put together from that without a recursion over the sources, so that each source is seen to
depend on those before it by the number of their records only.
-/

namespace Blocklist

namespace Intake

/-- What a source brings into the entry of its list, if compiled records take ids from `ids` on: the
segment that is cached for its address, the one that the text compiles to, or nothing. -/
def contribution (listId : String) (previous : Option ListArtifacts) (ids : IdSequence) :
    ListSource × Reply → List Segment
  | (source, .ok .notModified) => (previous.bind (·.source? source.url)).toList
  | (source, .ok (.fetched body etag)) =>
    [.ofCompiled source.url etag (compileList ids listId body).list]
  | (_, .error _) => []

/-- The number of records that the first replies bring. -/
def recordsBefore (pairs : List (ListSource × Reply)) (i : Nat) : Nat :=
  ((pairs.take i).map (·.2.recordCount)).sum

/-- What the sources of a list bring, in their order. The ids of one run on after those of the ones
before it. -/
def contributions (listId : String) (previous : Option ListArtifacts) (ids : IdSequence)
    (pairs : List (ListSource × Reply)) : List Segment :=
  (pairs.mapIdx fun i pair =>
    contribution listId previous (ids.skip (recordsBefore pairs i)) pair).flatten

variable (listId : String) (previous : Option ListArtifacts)

theorem segments_ofReply (ids : IdSequence) (source : ListSource) (reply : Reply) :
    (ofReply listId previous ids source reply).segments =
      contribution listId previous ids (source, reply) := by
  obtain error | _ | ⟨body, etag⟩ := reply <;> rfl

/-- The segments of an intake are what the sources bring. -/
theorem segments_ofReplies (ids : IdSequence) (pairs : List (ListSource × Reply)) :
    (ofReplies listId previous ids pairs).segments = contributions listId previous ids pairs := by
  induction pairs generalizing ids with
  | nil => rfl
  | cons pair rest ih =>
      obtain ⟨source, reply⟩ := pair
      have hbefore : ∀ i, ids.skip (recordsBefore ((source, reply) :: rest) (i + 1)) =
          (ids.skip reply.recordCount).skip (recordsBefore rest i) := by
        intro i
        rw [recordsBefore, List.take_succ_cons, List.map_cons, List.sum_cons,
          IdSequence.skip_add, recordsBefore]
      rw [ofReplies, contributions, List.mapIdx_cons, List.flatten_cons]
      simp only [hbefore, segments_ofReply, (ids_ofReply listId previous ids source reply).2, ih]
      rfl

/-- A reply comes to one segment if it settles its source, and else to none. -/
theorem length_ofReply (ids : IdSequence) (source : ListSource) (reply : Reply) :
    (ofReply listId previous ids source reply).segments.length ≤ 1 ∧
      ((ofReply listId previous ids source reply).segments.length = 1 ↔
        Reply.Settles previous source reply) := by
  obtain error | _ | ⟨body, etag⟩ := reply
  · refine ⟨Nat.zero_le _, fun hone => (Nat.zero_ne_one hone).elim, fun h => ?_⟩
    cases h
  · cases hsource : previous.bind (·.source? source.url) with
    | none =>
        simp only [ofReply, hsource]
        refine ⟨Nat.zero_le _, fun hone => (Nat.zero_ne_one hone).elim, fun h => ?_⟩
        cases h with
        | notModified hs => exact absurd hs (by simp [hsource])
    | some s =>
        simp only [ofReply, hsource]
        exact ⟨Nat.le_refl _, fun _ => .notModified hsource, fun _ => rfl⟩
  · exact ⟨Nat.le_refl _, fun _ => .fetched body etag, fun _ => rfl⟩

/-- There are as many segments as sources exactly if every reply settles its source. -/
theorem length_ofReplies (ids : IdSequence) (pairs : List (ListSource × Reply)) :
    (ofReplies listId previous ids pairs).segments.length ≤ pairs.length ∧
      ((ofReplies listId previous ids pairs).segments.length = pairs.length ↔
        ∀ pair ∈ pairs, Reply.Settles previous pair.1 pair.2) := by
  induction pairs generalizing ids with
  | nil => exact ⟨Nat.le_refl _, fun _ _ hpair => absurd hpair List.not_mem_nil, fun _ => rfl⟩
  | cons pair rest ih =>
      obtain ⟨source, reply⟩ := pair
      obtain ⟨hone, hsettles⟩ := length_ofReply listId previous ids source reply
      obtain ⟨hrest, hall⟩ := ih (ofReply listId previous ids source reply).ids
      rw [ofReplies, List.length_append, List.length_cons, List.forall_mem_cons, ← hsettles, ← hall]
      omega

end Intake

/-- No source has news, and a segment is cached for each. -/
def Intake.Unchanged (previous : Option ListArtifacts) (pairs : List (ListSource × Reply)) : Prop :=
  ∀ pair ∈ pairs, pair.2 = .ok .notModified ∧
    (previous.bind (·.source? pair.1.url)).isSome = true

theorem Reply.recordCount_of_not_isText {reply : Reply} (h : reply.isText = false) :
    reply.recordCount = 0 := by
  obtain error | _ | ⟨body, etag⟩ := reply
  · rfl
  · rfl
  · cases h

/-- A reply that settles its source without a text has no news for a cached segment. -/
theorem Reply.settles_and_not_isText_iff {previous : Option ListArtifacts} {source : ListSource}
    {reply : Reply} :
    reply.isText = false ∧ Reply.Settles previous source reply ↔
      reply = .ok .notModified ∧ (previous.bind (·.source? source.url)).isSome = true := by
  constructor
  · rintro ⟨htext, h⟩
    cases h with
    | fetched body etag => cases htext
    | notModified hs => exact ⟨rfl, Option.isSome_of_eq_some hs⟩
  · rintro ⟨rfl, h⟩
    exact ⟨rfl, .notModified (Option.eq_some_of_isSome h)⟩

namespace FilterList

variable {l : FilterList} {cache : RuleCache} {delivery : Delivery}
variable (hlength : delivery.replies.length = l.sources.length)
include hlength

/-- Sources are unchanged exactly if no text came and there are as many segments as sources. -/
theorem unchanged_iff (ids : IdSequence) :
    let pairs := l.sources.zip delivery.replies
    let intake := Intake.ofReplies l.id (cache.get? l.id) ids pairs
    Intake.Unchanged (cache.get? l.id) pairs ↔
      (!delivery.replies.any Reply.isText && intake.segments.length == l.sources.length) = true := by
  intro pairs intake
  have hreplies : pairs.map Prod.snd = delivery.replies := List.map_snd_zip hlength.le
  have hsources : pairs.length = l.sources.length := by simp [pairs, hlength]
  have htext : delivery.replies.any Reply.isText = false ↔
      ∀ pair ∈ pairs, pair.2.isText = false := by
    simp [← hreplies]
  rw [Bool.and_eq_true_iff, Bool.not_eq_true', beq_iff_eq, ← hsources, htext,
    (Intake.length_ofReplies l.id (cache.get? l.id) ids pairs).2, ← forall₂_and]
  simp only [Reply.settles_and_not_isText_iff]
  rfl

/-- The records of the texts that came take the next ids. -/
theorem ids_absorb_eq_skip (cache : RuleCache) (ids : IdSequence) :
    (l.absorb cache ids delivery).ids = ids.skip (delivery.replies.map Reply.recordCount).sum := by
  have hcount : (l.sources.zip delivery.replies).map (·.2.recordCount) =
      delivery.replies.map Reply.recordCount := by
    have hreplies : (l.sources.zip delivery.replies).map Prod.snd = delivery.replies :=
      List.map_snd_zip hlength.le
    rw [← congrArg (List.map Reply.recordCount) hreplies, List.map_map]
    rfl
  rw [ids_absorb, (Intake.ids_ofReplies l.id (cache.get? l.id) ids _).2, hcount]

/-- Without a text no id is taken. -/
theorem ids_absorb_of_no_text (htext : ∀ reply ∈ delivery.replies, reply.isText = false)
    (cache : RuleCache) (ids : IdSequence) : (l.absorb cache ids delivery).ids = ids := by
  have hzero : (delivery.replies.map Reply.recordCount).sum = 0 := by
    apply List.sum_eq_zero_iff_forall_eq_nat.mpr
    intro count hcount
    obtain ⟨reply, hreply, rfl⟩ := List.mem_map.mp hcount
    exact Reply.recordCount_of_not_isText (htext reply hreply)
  rw [ids_absorb_eq_skip hlength, hzero]
  rfl

/-- A list that is brought no answer stays as it is. -/
theorem absorb_of_fails (h : Refresh.fails l delivery = true) (cache : RuleCache) (ids : IdSequence) :
    let a := l.absorb cache ids delivery
    a.outcome = .failed ∧ a.list = l ∧ a.cache = cache ∧ a.ids = ids := by
  have hids : (l.absorb cache ids delivery).ids = ids := by
    apply ids_absorb_of_no_text hlength
    intro reply hreply
    have hfailure := List.all_eq_true.mp (Bool.and_eq_true_iff.mp h).2 reply hreply
    cases reply with
    | ok _ => cases hfailure
    | error _ => rfl
  simp only [hids, and_true]
  rw [Refresh.fails] at h
  rw [absorb, if_pos h]
  exact ⟨rfl, rfl, rfl⟩

/-- Of a list whose sources are unchanged only the time changes. -/
theorem absorb_of_unchanged (hanswered : Refresh.fails l delivery = false)
    (h : Intake.Unchanged (cache.get? l.id) (l.sources.zip delivery.replies))
    (ids : IdSequence) :
    let a := l.absorb cache ids delivery
    a.outcome = .notModified ∧ a.list = { l with lastFetch := some delivery.time } ∧
      a.cache = cache ∧ a.ids = ids := by
  have hquiet := (unchanged_iff hlength ids).mp h
  have hids : (l.absorb cache ids delivery).ids = ids := by
    apply ids_absorb_of_no_text hlength
    simpa using (Bool.and_eq_true_iff.mp hquiet).1
  simp only [hids, and_true]
  rw [Refresh.fails, Bool.eq_false_iff] at hanswered
  rw [absorb, if_neg hanswered]
  dsimp only
  rw [if_pos hquiet]
  exact ⟨rfl, rfl, rfl⟩

/-- Any other list gets a new entry of what its sources bring. -/
theorem absorb_of_changed (hanswered : Refresh.fails l delivery = false)
    (h : ¬ Intake.Unchanged (cache.get? l.id) (l.sources.zip delivery.replies))
    (ids : IdSequence) :
    let a := l.absorb cache ids delivery
    let entry : ListArtifacts :=
      ⟨Intake.contributions l.id (cache.get? l.id) ids (l.sources.zip delivery.replies)⟩
    a.outcome = .updated ∧
      a.list =
        { l with
          ruleCount := entry.ruleCount
          lastFetch := some delivery.time
          etag := (delivery.replies.filterMap Reply.etag?).getLast?.or l.etag } ∧
      a.cache = cache.insert l.id entry ∧
      a.ids = ids.skip (delivery.replies.map Reply.recordCount).sum := by
  simp only [ids_absorb_eq_skip hlength, and_true, ← Intake.segments_ofReplies]
  rw [Refresh.fails, Bool.eq_false_iff] at hanswered
  rw [absorb, if_neg hanswered]
  dsimp only
  rw [if_neg (mt (unchanged_iff hlength ids).mpr h)]
  exact ⟨rfl, rfl, rfl⟩

end FilterList

namespace Session

variable {w : Type} [KeyValueStore w] [FilteringEngine w] {s : Session w} {id : String}
variable {place : Nat} {l : FilterList}

/-- What a refresh of one list answers, and what it makes of the registry. -/
theorem refreshList_at (hplace : s.registry.lists.findIdx? (·.id == id) = some place)
    (hl : s.registry.lists[place]? = some l) (force : Bool) (servers : Servers) :
    let r := s.registry
    let a := l.absorb r.cache r.ids (Refresh.delivery r force servers l place)
    ((s.refreshList id force servers).1 = true ↔ a.outcome ≠ .failed) ∧
      (s.refreshList id force servers).2.registry =
        { r with lists := r.lists.set place a.list, cache := a.cache, ids := a.ids } := by
  intro r a
  obtain ⟨houtcomes, hregistry⟩ := Registry.refresh_at hl force servers
  have hrefresh : r.refreshList? id force servers =
      some (r.refresh (fun _ at' => at' == place) force servers) := by
    rw [Registry.refreshList?, hplace]
    rfl
  constructor
  · rw [(s.refreshList_fst id force servers).1, hrefresh, Option.map_some, Option.getD_some,
      Refresh.count, houtcomes, List.count_singleton]
    simp [a, r]
  · rw [(s.refreshList_snd id force servers).1, hrefresh, Option.map_some, Option.getD_some]
    exact hregistry

/-- **The refresh of one list folds its sources exactly.** Each source has its reply, and the replies
may be any. If the list has sources and no reply is an answer, the refresh answers that it failed and
the registry stays as it is. Else it answers that it did not fail. Then, if no source has news and
each has its segment in the cache, only the time of the list changes; and if not, the list gets an
entry of what its sources bring, in their order, the number of rules in it, and the last validator
that came.

Whatever the replies are, the other lists and the cached segments of other ids stay as they are, and
the next id moves on by the number of records that the texts compile to, until no id is left. -/
theorem list_refresh_folds_sources
    (hplace : s.registry.lists.findIdx? (·.id == id) = some place)
    (hl : s.registry.lists[place]? = some l) (force : Bool) (servers : Servers) :
    let r := s.registry
    let delivery := Refresh.delivery r force servers l place
    let pairs := l.sources.zip delivery.replies
    let previous := r.cache.get? l.id
    let entry : ListArtifacts := ⟨Intake.contributions l.id previous r.ids pairs⟩
    let records := (delivery.replies.map Reply.recordCount).sum
    let answer := (s.refreshList id force servers).1
    let r' := (s.refreshList id force servers).2.registry
    delivery.replies.length = l.sources.length ∧
      (Refresh.fails l delivery = true → answer = false ∧ r' = r) ∧
      (Refresh.fails l delivery = false → Intake.Unchanged previous pairs →
        answer = true ∧
          r' = { r with
            lists := r.lists.set place { l with lastFetch := some delivery.time } }) ∧
      (Refresh.fails l delivery = false → ¬ Intake.Unchanged previous pairs →
        answer = true ∧
          r' = { r with
            lists := r.lists.set place
              { l with
                ruleCount := entry.ruleCount
                lastFetch := some delivery.time
                etag := (delivery.replies.filterMap Reply.etag?).getLast?.or l.etag }
            cache := r.cache.insert l.id entry
            ids := r.ids.skip records }) ∧
      (∀ other, other ≠ place → r'.lists[other]? = r.lists[other]?) ∧
      (∀ key, key ≠ l.id → r'.cache.get? key = r.cache.get? key) ∧
      r'.ids.next.toNat = min (r.ids.next.toNat + records) RuleId.last.toNat ∧
      ∀ ids body etag,
        (compileList ids l.id body).list.recordCount = Reply.recordCount (.ok (.fetched body etag)) := by
  intro r delivery pairs previous entry records answer r'
  obtain ⟨hanswer, hregistry⟩ := refreshList_at hplace hl force servers
  have hlength : delivery.replies.length = l.sources.length :=
    Refresh.length_delivery r force servers l place
  have hself : r.lists.set place l = r.lists := by
    obtain ⟨hlt, hget⟩ := List.getElem?_eq_some_iff.mp hl
    rw [← hget, List.set_getElem_self]
  refine ⟨hlength, fun h => ?_, fun h hquiet => ?_, fun h hnews => ?_, fun other hother => ?_,
    fun key hkey => ?_, ?_, fun ids body etag => recordCount_compileList ids l.id body⟩
  · obtain ⟨houtcome, hlist, hcache, hids⟩ :=
      FilterList.absorb_of_fails hlength h r.cache r.ids
    rw [hlist, hcache, hids, hself] at hregistry
    refine ⟨?_, hregistry⟩
    rw [← Bool.not_eq_true, hanswer, not_not]
    exact houtcome
  · obtain ⟨houtcome, hlist, hcache, hids⟩ :=
      FilterList.absorb_of_unchanged hlength h hquiet r.ids
    rw [hlist, hcache, hids] at hregistry
    refine ⟨hanswer.mpr ?_, hregistry⟩
    rw [houtcome]
    decide
  · obtain ⟨houtcome, hlist, hcache, hids⟩ :=
      FilterList.absorb_of_changed hlength h hnews r.ids
    rw [hlist, hcache, hids] at hregistry
    refine ⟨hanswer.mpr ?_, hregistry⟩
    rw [houtcome]
    decide
  · simp only [r', hregistry]
    exact List.getElem?_set_ne hother.symm
  · simp only [r', hregistry]
    exact FilterList.get?_absorb_of_ne hkey
  · simp only [r', hregistry]
    rw [FilterList.ids_absorb_eq_skip hlength, IdSequence.toNat_skip]

/-- Of three sources one has no news, one brings two records, and one fails. -/
theorem list_refresh_folds_sources_sample :
    let source (url : String) : ListSource := { (default : ListSource) with url }
    let other : FilterList := { (default : FilterList) with id := "privacy" }
    let l : FilterList :=
      { (default : FilterList) with
        id := "ads", sources := [source "a", source "b", source "c"], etag := some "first" }
    let cached : Segment := { (default : Segment) with url := "a", rules := [default] }
    let r : Registry := ⟨[other, l], .empty, ⟨1000⟩, Dict.empty.insert "ads" ⟨[cached]⟩, 30000⟩
    let s : Session (Backend MemoryStore MemoryEngine) :=
      .ofRegistry r ⟨.empty, .withLimit 30000⟩
    let replies : List Reply :=
      [.ok .notModified, .ok (.fetched "||ads.example^\n##.banner" (some "second")), .error .http]
    let servers : Servers := ⟨fun _ i _ => replies[i]!, fun _ => default⟩
    let after := (s.refreshList "ads" false servers).2.registry
    r.lists.findIdx? (·.id == "ads") = some 1 ∧ r.lists[1]? = some l ∧
      (s.refreshList "ads" false servers).1 = true ∧
      RuleCache.urls after.cache "ads" = ["a", "b"] ∧
      after.ids.next = 1002 ∧ after.lists[0]? = some other ∧
      (after.lists[1]?.map fun l => (l.ruleCount, l.etag)) = some (2, some "second") := by
  intro source other l cached r s replies servers after
  have hplace : s.registry.lists.findIdx? (·.id == "ads") = some 1 := by decide +kernel
  have hl : s.registry.lists[1]? = some l := rfl
  have hreplies : (Refresh.delivery s.registry false servers l 1).replies = replies := rfl
  obtain ⟨_, _, _, hchanged, hother, _, _, _⟩ :=
    list_refresh_folds_sources hplace hl false servers
  rw [hreplies] at hchanged
  have hnews : ¬ Intake.Unchanged (s.registry.cache.get? l.id) (l.sources.zip replies) := by
    intro h
    cases (h _ (List.mem_cons_of_mem _ List.mem_cons_self)).1
  obtain ⟨hanswer, (hafter : after = _)⟩ := hchanged rfl hnews
  refine ⟨hplace, hl, hanswer, ?_, ?_, hother 0 (by decide), ?_⟩
  · rw [hafter]
    decide +kernel
  · rw [hafter]
    decide +kernel
  · rw [hafter]
    decide +kernel

end Session

end Blocklist
