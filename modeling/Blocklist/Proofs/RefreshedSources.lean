import Blocklist.Proofs.ConditionalRefresh
import Blocklist.Proofs.EngineMirror
import Blocklist.Proofs.Flags

/-!
# The sources of a refreshed list

After a refresh in which every source answers, the segments of a list are those of the sources that
its manifest gives it, in their order, if some source brought a text. If none did, the entry of the
list stays as it was, whatever sources it was compiled from: a store that an earlier manifest filled
can hold segments of sources that the list no longer has.

## Implementation notes

`FilterList.urls_absorb` says in one equation what the replies for a list do to the addresses of its
segments. Nothing is assumed of the cache, so the results hold of every state that was ever saved.
-/

namespace Blocklist

/-- The addresses of the segments that are cached for a list, in their order. A list without an
entry has none. -/
def RuleCache.urls (cache : RuleCache) (id : String) : List String :=
  match cache.get? id with
  | some a => a.sources.map (·.url)
  | none => []

theorem RuleCache.urls_congr {cache cache' : RuleCache} {id : String}
    (h : cache.get? id = cache'.get? id) : RuleCache.urls cache id = RuleCache.urls cache' id := by
  rw [urls, urls, h]

@[simp] theorem RuleCache.urls_insert_self (cache : RuleCache) (id : String) (a : ListArtifacts) :
    RuleCache.urls (cache.insert id a) id = a.sources.map (·.url) := by
  rw [urls, Dict.get?_insert_self]

/-- A reply settles a source if it brings a text, or leaves the segment that is cached for the
source. -/
inductive Reply.Settles (previous : Option ListArtifacts) (source : ListSource) : Reply → Prop
  | fetched (body : String) (etag : Option String) :
      Settles previous source (.ok (.fetched body etag))
  | notModified {s : Segment} (hs : previous.bind (·.source? source.url) = some s) :
      Settles previous source (.ok .notModified)

theorem Reply.Settles.isFailure_eq_false {previous : Option ListArtifacts} {source : ListSource}
    {reply : Reply} (h : Reply.Settles previous source reply) : reply.isFailure = false := by
  cases h <;> rfl

namespace Intake

variable {previous : Option ListArtifacts}

/-- A reply that settles a source comes to one segment, with the address of the source. -/
theorem urls_ofReply {source : ListSource} {reply : Reply}
    (h : Reply.Settles previous source reply) (listId : String) (ids : IdSequence) :
    (ofReply listId previous ids source reply).segments.map (·.url) = [source.url] := by
  cases h with
  | fetched body etag => rfl
  | notModified hs =>
      obtain ⟨a, _, hsource⟩ := Option.bind_eq_some_iff.mp hs
      simp [ofReply, hs, (ListArtifacts.mem_of_source? hsource).2]

/-- Replies that settle their sources come to one segment for each source, in their order. -/
theorem urls_ofReplies {pairs : List (ListSource × Reply)}
    (h : ∀ pair ∈ pairs, Reply.Settles previous pair.1 pair.2) (listId : String)
    (ids : IdSequence) :
    (ofReplies listId previous ids pairs).segments.map (·.url) = pairs.map (·.1.url) := by
  induction pairs generalizing ids with
  | nil => rfl
  | cons pair rest ih =>
      obtain ⟨source, reply⟩ := pair
      have hone := urls_ofReply (h _ List.mem_cons_self) listId ids
      have hrest := ih (fun pair hpair => h pair (List.mem_cons_of_mem _ hpair))
        (ofReply listId previous ids source reply).ids
      rw [ofReplies, List.map_append, hone, hrest, List.map_cons]
      rfl

end Intake

/-- The addresses of a list's segments after replies that settle all its sources: those of the
sources if a reply brought a text, and what they were if none did. -/
theorem FilterList.urls_absorb {l : FilterList} {cache : RuleCache} {delivery : Delivery}
    (hlength : delivery.replies.length = l.sources.length)
    (hsettles : ∀ pair ∈ l.sources.zip delivery.replies,
      Reply.Settles (cache.get? l.id) pair.1 pair.2) (ids : IdSequence) :
    RuleCache.urls (l.absorb cache ids delivery).cache l.id =
      if delivery.replies.any Reply.isText then l.sources.map (·.url)
      else RuleCache.urls cache l.id := by
  have hsources : (l.sources.zip delivery.replies).map (·.1.url) = l.sources.map (·.url) := by
    have hfst : (l.sources.zip delivery.replies).map Prod.fst = l.sources :=
      List.map_fst_zip hlength.ge
    rw [← congrArg (List.map ListSource.url) hfst, List.map_map]
    rfl
  have hurls := (Intake.urls_ofReplies hsettles l.id ids).trans hsources
  have hcount : (Intake.ofReplies l.id (cache.get? l.id) ids
      (l.sources.zip delivery.replies)).segments.length = l.sources.length := by
    simpa using congrArg List.length hurls
  have hanswered : (!l.sources.isEmpty && delivery.replies.all Reply.isFailure) = false := by
    cases hzip : l.sources.zip delivery.replies with
    | nil =>
        rw [hzip] at hsources
        simp [List.map_eq_nil_iff.mp hsources.symm]
    | cons pair rest =>
        have hpair : pair ∈ l.sources.zip delivery.replies := by simp [hzip]
        have hreply := (hsettles pair hpair).isFailure_eq_false
        have hall : delivery.replies.all Reply.isFailure = false :=
          List.all_eq_false.mpr ⟨pair.2, (List.of_mem_zip hpair).2, by simp [hreply]⟩
        rw [hall, Bool.and_false]
  cases htext : delivery.replies.any Reply.isText with
  | false => simp [absorb, hanswered, htext, hcount]
  | true => simp [absorb, hanswered, htext, hurls]

/-! ### Servers that answer -/

namespace Servers

/-- Servers respond to the requests for a list: none fails, and only requests with a validator are
told that nothing has changed. -/
structure Respond (servers : Servers) (r : Registry) (force : Bool) (place : Nat) (l : FilterList) :
    Prop where
  answerAll : servers.AnswerAll r force place l
  conditional : ∀ i request, (r.requestsFor force l)[i]? = some request →
    servers.reply place i request = .ok .notModified → request.etag.isSome

theorem respond_serving (offer : Offer) (r : Registry) (force : Bool) (place : Nat)
    (l : FilterList) : (serving offer).Respond r force place l where
  answerAll := answerAll_serving offer r force place l
  conditional i request _ h := by
    have hserve : ∃ validator, request.etag = some validator ∧
        (offer request.url).2 = some validator := (serve_serving offer).notModified h
    obtain ⟨validator, hvalidator, _⟩ := hserve
    simp [hvalidator]

/-- Whether servers bring a text to some request for a list. -/
def bringText (servers : Servers) (r : Registry) (force : Bool) (place : Nat) (l : FilterList) :
    Bool :=
  (Refresh.delivery r force servers l place).replies.any Reply.isText

/-- Servers that respond settle every source of the list. -/
theorem Respond.settles {servers : Servers} {r : Registry} {force : Bool} {place : Nat}
    {l : FilterList} (h : servers.Respond r force place l) {pair : ListSource × Reply}
    (hpair : pair ∈ l.sources.zip (Refresh.delivery r force servers l place).replies) :
    Reply.Settles (r.cache.get? l.id) pair.1 pair.2 := by
  obtain ⟨i, request, hrequest, _, hetag, hreply⟩ := FilterList.mem_zip_delivery hpair
  have hsuccess := h.answerAll i request hrequest
  rw [hreply]
  cases hanswered : servers.reply place i request with
  | error error =>
      rw [hanswered] at hsuccess
      cases hsuccess
  | ok download =>
      cases download with
      | fetched body etag => exact .fetched body etag
      | notModified =>
          have hsent := h.conditional i request hrequest hanswered
          rcases hetag with hnone | hsegment
          · rw [hnone] at hsent
            cases hsent
          · obtain ⟨validator, hvalidator⟩ := Option.isSome_iff_exists.mp hsent
            obtain ⟨s, hs, _⟩ := Option.bind_eq_some_iff.mp (hsegment.symm.trans hvalidator)
            exact .notModified hs

end Servers

/-- The addresses of a list's segments after a refresh that chooses the list and whose servers
respond to its requests. -/
theorem Registry.urls_refresh {r : Registry} (hids : (r.lists.map (·.id)).Nodup) {place : Nat}
    {l : FilterList} (hl : r.lists[place]? = some l) {chosen : FilterList → Nat → Bool}
    (hchosen : chosen l place = true) {force : Bool} {servers : Servers}
    (hservers : servers.Respond r force place l) :
    RuleCache.urls (r.refresh chosen force servers).registry.cache l.id =
      if servers.bringText r force place l then l.sources.map (·.url)
      else RuleCache.urls r.cache l.id := by
  obtain ⟨_, _, htaken⟩ := taken_refresh hids chosen force servers hl
  obtain ⟨ids, _, hentry⟩ := htaken.absorbed _ (by rw [if_pos hchosen]; rfl)
  have hlength := Refresh.length_delivery r force servers l place
  calc RuleCache.urls (r.refresh chosen force servers).registry.cache l.id
      = RuleCache.urls (l.absorb r.cache ids (Refresh.delivery r force servers l place)).cache
          l.id := RuleCache.urls_congr hentry
    _ = _ := FilterList.urls_absorb hlength (fun _ => hservers.settles) ids

/-! ### Operations -/

namespace Session

/-- An operation downloads a list, at the start or later, alone or with every enabled list. -/
inductive Operation.Downloads (l : FilterList) (servers : Servers) : Bool → Operation → Prop
  | start (h : l.enabled = true) : Downloads l servers false (.start servers)
  | refreshes {force : Bool} {op : Operation} (h : op.Refreshes l force servers) :
      Downloads l servers force op

/-- With distinct ids, an operation that downloads a list chooses its place. -/
theorem Operation.Downloads.exists_chosen {l : FilterList} {force : Bool} {servers : Servers}
    {op : Operation} (h : op.Downloads l servers force) {r : Registry}
    (hids : (r.lists.map (·.id)).Nodup) {place : Nat} (hl : r.lists[place]? = some l) :
    ∃ chosen : FilterList → Nat → Bool, chosen l place = true ∧
      op.change r = (r.refresh chosen force servers).registry := by
  cases h with
  | start h => exact ⟨fun l _ => l.enabled, h, rfl⟩
  | refreshes h => exact h.exists_chosen hids hl

theorem Operation.Downloads.installs {l : FilterList} {force : Bool} {servers : Servers}
    {op : Operation} (h : op.Downloads l servers force) {r : Registry} (hl : r.list? l.id ≠ none) :
    op.installs r = true := by
  cases h with
  | start h => rfl
  | refreshes h =>
      cases h with
      | all h => rfl
      | one => exact Option.isSome_iff_ne_none.mpr hl

variable {σ : Type} [KeyValueStore σ]

/-- An operation that brings rules to an engine with room for them leaves it with the assembled
ones. -/
theorem rules_after {s : Session (Backend σ MemoryEngine)} {op : Operation}
    (h : op.installs s.registry = true) (hfits : s.registry.budget ≤ s.world.engine.limit) :
    (s.after op).world.engine.rules = (s.after op).registry.assembled.1 := by
  have hlength : (s.after op).registry.assembled.1.length ≤ s.world.engine.limit := by
    calc (s.after op).registry.assembled.1.length
        ≤ (s.after op).registry.budget := length_assemble_le _ _
      _ = s.registry.budget := s.budget_after op
      _ ≤ s.world.engine.limit := hfits
  have hengine : (s.after op).world.engine =
      s.world.engine.replaced (s.after op).registry.assembled.1 := by
    rw [s.engine_after, if_pos h]
    exact s.world.engine.replaceRules_eq (nodup_assemble _ _)
  rw [hengine, MemoryEngine.replaced, if_pos hlength]

/-- After a download to whose requests servers respond, the segments of a list are those of the
sources that the manifest gives it, in their order, exactly if some source brought a text or they
were before. The engine then holds no other rules of the list. This is so for every registry of the
manifest, whatever it has cached and whatever is stored. -/
theorem refreshed_sources_iff (manifest : Manifest) (hids : (manifest.lists.map (·.id)).Nodup)
    {s : Session (Backend σ MemoryEngine)} (hs : s.registry.catalogue = manifest.catalogue)
    (hfits : s.registry.budget ≤ s.world.engine.limit) {op : Operation} {r : Registry}
    (hr : r = (s.afterReading op.reading).registry) {place : Nat} {d : ListDescriptor}
    (hd : manifest.lists[place]? = some d) {l : FilterList} (hl : r.lists[place]? = some l)
    {force : Bool} {servers : Servers} (hop : op.Downloads l servers force)
    (hservers : servers.Respond r force place l) :
    let cache := (s.after op).registry.cache
    (RuleCache.urls cache d.id = d.sources.map (·.url) ↔
        servers.bringText r force place l ∨ RuleCache.urls r.cache d.id = d.sources.map (·.url)) ∧
      (RuleCache.urls cache d.id = d.sources.map (·.url) →
        ∀ rule ∈ (s.after op).world.engine.rules, ∃ l' ∈ (s.after op).registry.enabledLists,
          ∃ a, cache.get? l'.id = some a ∧ ∃ segment ∈ a.sources, rule ∈ segment.rules ∧
            (l'.id = d.id → segment.url ∈ d.sources.map (·.url))) := by
  subst hr
  intro cache
  have hids' := Manifest.nodup_catalogue hids
  have hcatalogue : (s.afterReading op.reading).registry.catalogue = manifest.catalogue :=
    (afterReading_invariant (Registry.catalogue_invariant manifest.catalogue)
      StoreInvariant.trivial op.reading hs .intro).1
  have hnodup := Registry.nodup_ids_of_catalogue hids' hcatalogue
  have hlist : l.pristine = (FilterList.ofDescriptor d).pristine := by
    have hplace := congrArg (·[place]?) hcatalogue
    simpa [Registry.catalogue, Manifest.catalogue, hl, hd] using hplace
  have hid : l.id = d.id := congrArg FilterList.id hlist
  have hsources : l.sources = d.sources := congrArg FilterList.sources hlist
  obtain ⟨chosen, hchosen, hchange⟩ := hop.exists_chosen hnodup hl
  have hurls : RuleCache.urls cache d.id =
      if servers.bringText (s.afterReading op.reading).registry force place l then
        d.sources.map (·.url)
      else RuleCache.urls (s.afterReading op.reading).registry.cache d.id := by
    have hrefresh := Registry.urls_refresh hnodup hl hchosen hservers
    rw [← hchange, ← (s.after_eq op).1, hid, hsources] at hrefresh
    exact hrefresh
  constructor
  · rw [hurls]
    split <;> rename_i htext <;> simp [htext]
  · intro hexact rule hrule
    have hinstalls : op.installs s.registry = true := by
      rw [← s.installs_afterReading]
      apply hop.installs
      rw [Registry.list?_eq_some hnodup (List.mem_of_getElem? hl)]
      exact Option.some_ne_none l
    rw [rules_after hinstalls hfits] at hrule
    obtain ⟨l', hl', henabled, a, ha, hmem⟩ := Registry.mem_of_mem_assembled hrule
    obtain ⟨segment, hsegment, hrule'⟩ := List.mem_flatMap.mp hmem
    refine ⟨l', List.mem_filter.mpr ⟨hl', henabled⟩, a, ha, segment, hsegment, hrule', ?_⟩
    intro hsame
    have hentry : RuleCache.urls cache d.id = a.sources.map (·.url) := by
      rw [RuleCache.urls, ← hsame, ha]
    rw [← hexact, hentry]
    exact List.mem_map_of_mem hsegment

/-! ### A manifest that gives up a source -/

/-- The sample manifest without the second source of its first list. -/
def narrowed : Manifest :=
  { Manifest.sample with
    lists := Manifest.sample.lists.map fun d => { d with sources := d.sources.take 1 } }

/-- Every address offers a line of its own, and all of them the same validator. -/
def editionOffer (validator : String) : Offer :=
  fun url => (s!"||{url}^", some validator)

/-- The world after the sample manifest was downloaded for the first time. -/
def filledWorld : Backend MemoryStore MemoryEngine :=
  let world : Backend MemoryStore MemoryEngine := ⟨.empty, .withLimit 30000⟩
  ((ofRegistry (.ofManifest .sample default) world).after
    (.refreshAll false (.serving (editionOffer "first")))).world

/-- The narrowed manifest over a store that the sample manifest filled. -/
def narrowedSession : Session (Backend MemoryStore MemoryEngine) :=
  ofRegistry (.ofManifest narrowed default) filledWorld

/-- What the sample manifest downloaded. -/
def filledRegistry : Registry :=
  ((Registry.ofManifest .sample default).refreshEnabled false
    (.serving (editionOffer "first"))).registry

/-- The narrowed manifest with what the sample manifest downloaded. -/
def narrowedRegistry : Registry :=
  { Registry.ofManifest narrowed default with
    lists := (Registry.ofManifest narrowed default).lists.map fun l =>
      match (filledRegistry.list? l.id).map (·.metadata) with
      | some m => l.withMetadata m
      | none => l
    ids := (RuleCache.maxId? filledRegistry.cache).elim ⟨1000⟩ (IdSequence.advancePast ⟨1000⟩)
    cache := filledRegistry.cache }

/-- The state that is found in the store is the one that the sample manifest left. -/
theorem registry_load_narrowedSession : narrowedSession.load.2.registry = narrowedRegistry := by
  have hids : (filledRegistry.lists.map (·.id)).Nodup := by decide +kernel
  have hstore : filledWorld.store = (SavedState.write filledRegistry.savedState .empty).2 := by
    rw [filledWorld, store_after, (after_eq _ _).1]
    rfl
  rw [registry_load, narrowedSession, Backend.read_eq, ofRegistry, hstore, SavedState.read_write]
  simp only [Registry.restored, Registry.savedState, Registry.get?_metadata_eq hids]
  rfl

theorem fits_narrowedSession :
    narrowedSession.registry.budget ≤ narrowedSession.world.engine.limit := by
  have hengine : filledWorld.engine =
      (MemoryEngine.withLimit 30000).replaced filledRegistry.assembled.1 := by
    rw [filledWorld, engine_after, (after_eq _ _).1, Operation.installs, if_pos rfl]
    exact MemoryEngine.replaceRules_eq _ (nodup_assemble _ _)
  have hlimit : filledWorld.engine.limit = 30000 := by
    rw [hengine, MemoryEngine.limit_replaced]
    rfl
  exact hlimit.ge

/-- The first list of the narrowed manifest, as it is found in the store. -/
def narrowedList : FilterList :=
  narrowedRegistry.lists.headD default

theorem refreshed_sources_sample :
    let servers := Servers.serving (editionOffer "second")
    RuleCache.urls (narrowedSession.after (.start servers)).registry.cache "ads" =
      ["https://a.example/ads"] := by
  intro servers
  have hdownloads : (Operation.start servers).Downloads narrowedList servers false :=
    .start (by decide +kernel)
  have hiff := refreshed_sources_iff narrowed (by decide)
    (narrowed.catalogue_ofManifest default) fits_narrowedSession
    registry_load_narrowedSession.symm rfl (by decide +kernel) hdownloads
    (Servers.respond_serving (editionOffer "second") narrowedRegistry false 0 narrowedList)
  apply hiff.1.mpr
  exact .inl (by decide +kernel)

/-- When no source has news, the segment of a source that the manifest gave up stays cached and its
rule stays installed, although every request for the list succeeds and only those with a validator
are told that nothing has changed. -/
theorem given_up_source_stays :
    let servers := Servers.serving (editionOffer "first")
    let r := narrowedSession.load.2.registry
    let refreshed := narrowedSession.after (.start servers)
    ∃ d ∈ narrowed.lists, ∃ l, r.lists[0]? = some l ∧ l.id = d.id ∧ l.sources = d.sources ∧
      (Operation.start servers).Downloads l servers false ∧ servers.Respond r false 0 l ∧
      RuleCache.urls refreshed.registry.cache d.id ≠ d.sources.map (·.url) ∧
      ∃ a, refreshed.registry.cache.get? d.id = some a ∧ ∃ segment ∈ a.sources,
        segment.url ∉ d.sources.map (·.url) ∧
          ∃ rule ∈ segment.rules, rule ∈ refreshed.world.engine.rules := by
  intro servers r refreshed
  have hr : r = narrowedRegistry := registry_load_narrowedSession
  have hregistry : refreshed.registry =
      (narrowedRegistry.refreshEnabled false servers).registry :=
    ((after_eq narrowedSession (.start servers)).1).trans (by rw [← hr]; rfl)
  have hrules : refreshed.world.engine.rules.Perm
      (narrowedRegistry.refreshEnabled false servers).registry.ruleSlices.flatten := by
    rw [rules_after rfl fits_narrowedSession]
    change refreshed.registry.assembled.1.Perm _
    rw [hregistry]
    exact assemble_perm (by decide +kernel) (by decide +kernel)
  rw [hr, hregistry]
  refine ⟨narrowed.lists.headD default, by decide, narrowedList, by decide +kernel,
    by decide +kernel, by decide +kernel, .start (by decide +kernel),
    Servers.respond_serving _ _ _ _ _, by decide +kernel, ?_⟩
  have hentry : (narrowedRegistry.refreshEnabled false servers).registry.cache.get?
      (narrowed.lists.headD default).id =
        some ((filledRegistry.cache.get? "ads").getD default) := by decide +kernel
  refine ⟨_, hentry, ?_⟩
  simp only [hrules.mem_iff]
  decide +kernel

end Session

end Blocklist
