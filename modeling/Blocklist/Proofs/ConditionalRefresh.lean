import Blocklist.Proofs.Absorption
import Blocklist.Proofs.SavedState
import Blocklist.Proofs.Unnumbered

/-!
# Validators save downloads, not news

When servers say that nothing has changed only to the validator of what they serve, a refresh that
sends validators leaves the same segments as one that downloads everything, but for the numbers of
the records.

## Implementation notes

An archive tells which text a validator stands for. `Segment.Genuine` is the invariant: a segment
with a validator was compiled from the text its validator stands for. A server that has no news for
it then serves that very text.
-/

namespace Blocklist

/-- What servers offer: by address, a text and its validator, if it has one. -/
abbrev Offer := String → String × Option String

/-- The text that a validator of an address stands for. -/
abbrev Archive := String → String → String

/-- Every text with a validator is the one its validator stands for. -/
def Offer.From (offer : Offer) (archive : Archive) : Prop :=
  ∀ url validator, (offer url).2 = some validator → (offer url).1 = archive url validator

namespace Servers

/-- Servers serve an offer: what they deliver is theirs, and they report no news only to the
validator of what they would deliver. -/
structure Serve (servers : Servers) (offer : Offer) : Prop where
  fetched : ∀ {list source request body etag},
    servers.reply list source request = .ok (.fetched body etag) →
      offer request.url = (body, etag)
  notModified : ∀ {list source request}, servers.reply list source request = .ok .notModified →
    ∃ validator, request.etag = some validator ∧ (offer request.url).2 = some validator

/-- Servers are honest if they serve some offer in which validators mean what they always mean. -/
def Honest (archive : Archive) (servers : Servers) : Prop :=
  ∃ offer : Offer, offer.From archive ∧ servers.Serve offer

/-- Servers that deliver an offer to every request that does not carry its validator. -/
def serving (offer : Offer) : Servers :=
  .uniform (fun request =>
    if request.etag.isSome && request.etag == (offer request.url).2 then .ok .notModified
    else .ok (.fetched (offer request.url).1 (offer request.url).2)) default

theorem serve_serving (offer : Offer) : (serving offer).Serve offer where
  fetched {list source request body etag} h := by
    simp only [serving, uniform] at h
    split at h
    · cases h
    · cases h
      rfl
  notModified {list source request} h := by
    simp only [serving, uniform] at h
    split at h
    · rename_i hcurrent
      obtain ⟨hsome, hetag⟩ := Bool.and_eq_true_iff.mp hcurrent
      obtain ⟨validator, hvalidator⟩ := Option.isSome_iff_exists.mp hsome
      exact ⟨validator, hvalidator, (beq_iff_eq.mp hetag).symm.trans hvalidator⟩
    · cases h

end Servers

/-! ### Genuine segments -/

/-- A segment with a validator is the one of the text its validator stands for. -/
def Segment.Genuine (archive : Archive) (listId : String) (s : Segment) : Prop :=
  ∀ validator, s.etag = some validator →
    s.unnumbered = ofText listId s.url (some validator) (archive s.url validator)

/-- What is cached for a list is genuine, stands in the order of its sources, and has as many rules
as the list says. -/
structure ListArtifacts.Genuine (archive : Archive) (l : FilterList) (a : ListArtifacts) :
    Prop where
  ruleCount : l.ruleCount = a.ruleCount
  urls : (a.sources.map (·.url)).Sublist (l.sources.map (·.url))
  segments : ∀ s ∈ a.sources, s.Genuine archive l.id

/-- Only the id, the sources and the number of rules of the list count. -/
theorem ListArtifacts.Genuine.congr {archive : Archive} {l l' : FilterList} {a : ListArtifacts}
    (h : a.Genuine archive l) (hpristine : l'.pristine = l.pristine)
    (hcount : l'.ruleCount = l.ruleCount) : a.Genuine archive l' where
  ruleCount := hcount.trans h.ruleCount
  urls := by
    rw [← FilterList.sources_pristine l', hpristine]
    exact h.urls
  segments := by
    rw [← FilterList.id_pristine l', hpristine]
    exact h.segments

theorem Segment.genuine_ofCompiled {archive : Archive} {listId url body : String}
    {etag : Option String} (h : ∀ validator, etag = some validator → body = archive url validator)
    (ids : IdSequence) :
    (ofCompiled url etag (compileList ids listId body).list).Genuine archive listId := by
  intro validator (hetag : etag = some validator)
  rw [unnumbered_ofCompiled, h validator hetag, hetag]
  rfl

namespace FilterList

/-- The replies for a list are those to its requests, which carry no validator or the one of the
segment of their source. -/
theorem mem_zip_delivery {r : Registry} {force : Bool} {servers : Servers} {l : FilterList}
    {place : Nat} {pair : ListSource × Reply}
    (h : pair ∈ l.sources.zip (Refresh.delivery r force servers l place).replies) :
    ∃ i request, (r.requestsFor force l)[i]? = some request ∧ request.url = pair.1.url ∧
      (request.etag = none ∨ request.etag =
        ((r.cache.get? l.id).bind (·.source? pair.1.url)).bind (·.etag)) ∧
      pair.2 = servers.reply place i request := by
  obtain ⟨i, hi, rfl⟩ := List.mem_iff_getElem.mp h
  rw [List.length_zip] at hi
  have hsource : i < l.sources.length := by omega
  have hrequest : i < (r.requestsFor force l).length := by
    simpa [Registry.requestsFor] using hsource
  refine ⟨i, (r.requestsFor force l)[i], List.getElem?_eq_getElem hrequest, ?_, ?_, ?_⟩
  · simp [Registry.requestsFor]
  · cases force <;> simp [Registry.requestsFor]
  · simp [Refresh.delivery]

variable {archive : Archive} {l : FilterList} {cache : RuleCache} {ids : IdSequence}
variable {delivery : Delivery}

/-- Genuine segments and texts of their validators make genuine segments. -/
theorem genuine_absorb (hprevious : ∀ a, cache.get? l.id = some a → a.Genuine archive l)
    (htexts : ∀ pair ∈ l.sources.zip delivery.replies, ∀ body etag,
      pair.2 = .ok (.fetched body etag) → ∀ validator, etag = some validator →
        body = archive pair.1.url validator) :
    ∀ a, (l.absorb cache ids delivery).cache.get? l.id = some a →
      a.Genuine archive (l.absorb cache ids delivery).list := by
  have hsegments := Intake.mem_segments_ofReplies l.id (cache.get? l.id) ids
    (l.sources.zip delivery.replies)
  have hurls := Intake.urls_ofReplies_sublist l.id (cache.get? l.id) ids
    (l.sources.zip delivery.replies)
  simp only [absorb]
  generalize Intake.ofReplies l.id (cache.get? l.id) ids (l.sources.zip delivery.replies) = intake
    at *
  split
  · exact hprevious
  · split
    · exact fun a ha => (hprevious a ha).congr rfl rfl
    · intro a ha
      rw [Dict.get?_insert_self] at ha
      cases ha
      refine ⟨rfl, hurls.trans (urls_zip_sublist l.sources delivery.replies), fun s hs => ?_⟩
      obtain ⟨pair, hpair, hs | ⟨body, etag, ids', hreply, rfl⟩⟩ := hsegments s hs
      · obtain ⟨_, a, ha, hmem⟩ := Intake.mem_kept hs
        exact (hprevious a ha).segments s hmem
      · exact Segment.genuine_ofCompiled (htexts pair hpair body etag hreply) ids'

end FilterList

/-! ### What runs preserve -/

/-- The lists are those of a catalogue, and what is cached for them is genuine. -/
structure Registry.Genuine (archive : Archive) (lists : List FilterList) (r : Registry) : Prop where
  catalogue : r.catalogue = lists
  cached : ∀ l ∈ r.lists, ∀ a, r.cache.get? l.id = some a → a.Genuine archive l

/-- What is saved for the lists of a catalogue is genuine, with the state saved beside it. -/
def SavedState.Genuine (archive : Archive) (lists : List FilterList) (state : SavedState) : Prop :=
  ∀ l ∈ lists, ∀ a, state.cache.get? l.id = some a →
    ∃ m, state.metadata.get? l.id = some m ∧ a.Genuine archive (l.withMetadata m)

namespace Registry

/-- Setting a flag changes nothing else. -/
theorem exists_of_mem_setListFlag {id : String} {enabled : Bool} {lists : List FilterList}
    {l' : FilterList} (h : l' ∈ setListFlag id enabled lists) :
    ∃ l ∈ lists, l'.pristine = l.pristine ∧ l'.ruleCount = l.ruleCount := by
  induction lists with
  | nil => exact absurd h List.not_mem_nil
  | cons l rest ih =>
      rw [setListFlag] at h
      split at h
      · rcases List.mem_cons.mp h with rfl | h
        · exact ⟨l, List.mem_cons_self, rfl, rfl⟩
        · exact ⟨l', List.mem_cons_of_mem _ h, rfl, rfl⟩
      · rcases List.mem_cons.mp h with rfl | h
        · exact ⟨l', List.mem_cons_self, rfl, rfl⟩
        · obtain ⟨l, hl, heq⟩ := ih h
          exact ⟨l, List.mem_cons_of_mem _ hl, heq⟩

variable {archive : Archive} {lists : List FilterList} {r : Registry}

/-- Flags do not count. -/
theorem Genuine.of_flags {r' : Registry} (h : r.Genuine archive lists)
    (hcatalogue : r'.catalogue = r.catalogue) (hcache : r'.cache = r.cache)
    (hlists : ∀ l' ∈ r'.lists, ∃ l ∈ r.lists, l'.pristine = l.pristine ∧
      l'.ruleCount = l.ruleCount) : r'.Genuine archive lists where
  catalogue := hcatalogue.trans h.catalogue
  cached l' hl' a ha := by
    obtain ⟨l, hl, hpristine, hcount⟩ := hlists l' hl'
    rw [hcache, ← FilterList.id_pristine l', hpristine] at ha
    exact (h.cached l hl a ha).congr hpristine hcount

/-- A refresh by honest servers leaves genuine segments. -/
theorem Genuine.refresh (h : r.Genuine archive lists) (hids : (lists.map (·.id)).Nodup)
    (chosen : FilterList → Nat → Bool) (force : Bool) {servers : Servers}
    (hservers : servers.Honest archive) :
    (r.refresh chosen force servers).registry.Genuine archive lists where
  catalogue := (catalogue_refresh r chosen force servers).trans h.catalogue
  cached l' hl' a ha := by
    obtain ⟨offer, hoffer, hserve⟩ := hservers
    obtain ⟨place, l, hplace, hid, htaken⟩ :=
      exists_taken_of_mem_refresh (nodup_ids_of_catalogue hids h.catalogue) hl'
    have hprevious := h.cached l (List.mem_of_getElem? hplace)
    cases hchosen : chosen l place with
    | false =>
        obtain ⟨rfl, hentry⟩ := htaken.unchanged (by simp [hchosen])
        exact hprevious a (hentry ▸ ha)
    | true =>
        obtain ⟨ids, rfl, hentry⟩ := htaken.absorbed _ (by simp [hchosen]; rfl)
        refine FilterList.genuine_absorb hprevious (fun pair hpair body etag hreply validator
          hetag => ?_) a (hentry ▸ ha)
        obtain ⟨i, request, _, hurl, _, hanswer⟩ := FilterList.mem_zip_delivery hpair
        have hserved := hserve.fetched (hanswer.symm.trans hreply)
        rw [hurl] at hserved
        have htext := hoffer pair.1.url validator (by rw [hserved, hetag])
        rwa [hserved] at htext

theorem genuine_invariant (hids : (lists.map (·.id)).Nodup) :
    Registry.Invariant (Servers.Honest archive) (Registry.Genuine archive lists)
      (SavedState.Genuine archive lists) where
  restored {r state} h hstate := by
    refine ⟨(catalogue_restored r state).trans h.catalogue, fun l' hl' a ha => ?_⟩
    obtain ⟨l, hl, rfl⟩ := List.mem_map.mp hl'
    have hmem : l.pristine ∈ lists := h.catalogue ▸ List.mem_map_of_mem hl
    have hcached : state.cache.get? l.id = some a := by
      rw [← ha]
      split <;> rfl
    obtain ⟨m, hm, hgenuine⟩ := hstate l.pristine hmem a hcached
    rw [FilterList.id_pristine] at hm
    rw [hm]
    exact hgenuine.congr rfl rfl
  withFlags {r} metadata h := by
    apply h.of_flags (catalogue_withFlags r metadata) rfl
    intro l' hl'
    obtain ⟨l, hl, rfl⟩ := List.mem_map.mp hl'
    exact ⟨l, hl, rfl, rfl⟩
  refresh chosen force _ hservers h := h.refresh hids chosen force hservers
  withList {r} id enabled h :=
    h.of_flags (catalogue_withList r id enabled) rfl fun _ => exists_of_mem_setListFlag
  withCategory {r} category enabled h := by
    apply h.of_flags (catalogue_withCategory r category enabled) rfl
    intro l' hl'
    obtain ⟨l, hl, rfl⟩ := List.mem_map.mp hl'
    refine ⟨l, hl, ?_⟩
    split <;> exact ⟨rfl, rfl⟩
  savedState {r} h := by
    intro l' hl' a ha
    rw [← h.catalogue] at hl'
    obtain ⟨l, hl, rfl⟩ := List.mem_map.mp hl'
    have hkeys := nodup_ids_of_catalogue hids h.catalogue
    refine ⟨l.metadata, get?_metadata hkeys hl, (h.cached l hl a ha).congr rfl rfl⟩

end Registry

/-! ### Refreshes in which every request succeeds -/

/-- The segment of what is offered at an address, without numbers. -/
def Offer.segment (offer : Offer) (listId url : String) : Segment :=
  .ofText listId url (offer url).2 (offer url).1

/-- A reply brings what is offered, or has no news for a segment with the validator of what is
offered. -/
inductive Reply.Current (offer : Offer) (previous : Option ListArtifacts) (source : ListSource) :
    Reply → Prop
  | fetched {body : String} {etag : Option String} (h : offer source.url = (body, etag)) :
      Current offer previous source (.ok (.fetched body etag))
  | notModified {s : Segment} {validator : String}
      (hs : previous.bind (·.source? source.url) = some s) (hetag : s.etag = some validator)
      (h : (offer source.url).2 = some validator) :
      Current offer previous source (.ok .notModified)

section Current

variable {archive : Archive} {offer : Offer} {previous : Option ListArtifacts} {listId : String}

theorem Segment.Genuine.unnumbered_eq {s : Segment} (h : s.Genuine archive listId)
    (hoffer : offer.From archive) {validator : String} (hetag : s.etag = some validator)
    (hcurrent : (offer s.url).2 = some validator) : s.unnumbered = offer.segment listId s.url := by
  rw [h validator hetag, Offer.segment, hcurrent, hoffer s.url validator hcurrent]

/-- Current replies come to the segments of what is offered. -/
theorem Intake.unnumbered_ofReplies
    (hprevious : ∀ a, previous = some a → ∀ s ∈ a.sources, s.Genuine archive listId)
    (hoffer : offer.From archive) {pairs : List (ListSource × Reply)}
    (hcurrent : ∀ pair ∈ pairs, Reply.Current offer previous pair.1 pair.2) (ids : IdSequence) :
    (ofReplies listId previous ids pairs).segments.map Segment.unnumbered =
      pairs.map fun pair => offer.segment listId pair.1.url := by
  induction pairs generalizing ids with
  | nil => rfl
  | cons pair rest ih =>
      obtain ⟨source, reply⟩ := pair
      have hone : (ofReply listId previous ids source reply).segments.map Segment.unnumbered =
          [offer.segment listId source.url] := by
        cases hcurrent _ List.mem_cons_self with
        | @fetched body etag h =>
            dsimp only at h
            simp only [ofReply]
            rw [List.map_singleton, Segment.unnumbered_ofCompiled, Offer.segment, h]
        | @notModified s validator hs hetag h =>
            obtain ⟨a, ha, hsource⟩ := Option.bind_eq_some_iff.mp hs
            obtain ⟨hmem, hurl⟩ := ListArtifacts.mem_of_source? hsource
            dsimp only at hs hurl h
            simp only [ofReply, hs, Option.toList_some]
            have hgenuine := (hprevious a ha s hmem).unnumbered_eq hoffer hetag (hurl ▸ h)
            rw [List.map_singleton, hgenuine, hurl]
      have hrest := ih (fun pair hpair => hcurrent pair (List.mem_cons_of_mem _ hpair))
        (ofReply listId previous ids source reply).ids
      rw [ofReplies, List.map_append, hone, hrest, List.map_cons]
      rfl

theorem Reply.Current.isFailure_eq_false {source : ListSource} {reply : Reply}
    (h : Reply.Current offer previous source reply) : reply.isFailure = false := by
  cases h <;> rfl

/-- A current reply that brings no text leaves a segment with the validator of what is offered. -/
theorem Reply.Current.exists_of_not_isText {source : ListSource} {reply : Reply}
    (h : Reply.Current offer previous source reply) (htext : reply.isText = false) :
    ∃ s validator, previous.bind (·.source? source.url) = some s ∧ s.etag = some validator ∧
      (offer source.url).2 = some validator := by
  cases h with
  | fetched h => cases htext
  | notModified hs hetag h => exact ⟨_, _, hs, hetag, h⟩

/-- When no source of a list has news, all its segments are those of what is offered. -/
theorem ListArtifacts.Genuine.unnumbered_eq {l : FilterList} {a : ListArtifacts}
    (h : a.Genuine archive l) (hoffer : offer.From archive) (hurls : (l.sources.map (·.url)).Nodup)
    (hquiet : ∀ source ∈ l.sources, ∃ s validator, a.source? source.url = some s ∧
      s.etag = some validator ∧ (offer source.url).2 = some validator) :
    a.unnumbered.sources = l.sources.map fun source => offer.segment l.id source.url := by
  have hsubset : l.sources.map (·.url) ⊆ a.sources.map (·.url) := by
    intro url hurl
    obtain ⟨source, hsource, rfl⟩ := List.mem_map.mp hurl
    obtain ⟨s, _, hs, _⟩ := hquiet source hsource
    obtain ⟨hmem, hurl⟩ := mem_of_source? hs
    exact List.mem_map.mpr ⟨s, hmem, hurl⟩
  have hall : a.sources.map (·.url) = l.sources.map (·.url) :=
    h.urls.eq_of_length_le (List.subperm_of_subset hurls hsubset).length_le
  have hsegment : ∀ s ∈ a.sources, s.unnumbered = offer.segment l.id s.url := by
    intro s hs
    have hurl : s.url ∈ l.sources.map (·.url) := hall ▸ List.mem_map_of_mem hs
    obtain ⟨source, hsource, hurl⟩ := List.mem_map.mp hurl
    obtain ⟨s', validator, hs', hetag, hcurrent⟩ := hquiet source hsource
    obtain ⟨hmem, hurl'⟩ := mem_of_source? hs'
    have heq : s' = s := List.inj_on_of_nodup_map (hall ▸ hurls) hmem hs (hurl'.trans hurl)
    subst heq
    exact (h.segments s' hs).unnumbered_eq hoffer hetag (hurl ▸ hcurrent)
  have hsources := congrArg (List.map (offer.segment l.id)) hall
  rw [List.map_map, List.map_map] at hsources
  exact (List.map_congr_left hsegment).trans hsources

end Current

namespace FilterList

variable {archive : Archive} {offer : Offer} {l : FilterList} {cache : RuleCache}
variable {ids : IdSequence} {delivery : Delivery}

/-- A list without sources stays as it is. -/
theorem absorb_of_no_sources (cache : RuleCache) (ids : IdSequence) (hsources : l.sources = [])
    (hreplies : delivery.replies = []) :
    (l.absorb cache ids delivery).cache = cache ∧
      (l.absorb cache ids delivery).list.ruleCount = l.ruleCount := by
  simp [absorb, hsources, hreplies, Intake.ofReplies]

/-- Every source has a current reply when all pairs of sources and replies are current. -/
theorem exists_current_reply {previous : Option ListArtifacts} {sources : List ListSource}
    {replies : List Reply} (hlength : replies.length = sources.length)
    (hcurrent : ∀ pair ∈ sources.zip replies, Reply.Current offer previous pair.1 pair.2) :
    ∀ source ∈ sources, ∃ reply ∈ replies, Reply.Current offer previous source reply := by
  intro source hsource
  have hfst : (sources.zip replies).map Prod.fst = sources := List.map_fst_zip hlength.ge
  rw [← hfst] at hsource
  obtain ⟨pair, hpair, rfl⟩ := List.mem_map.mp hsource
  exact ⟨pair.2, (List.of_mem_zip hpair).2, hcurrent pair hpair⟩

/-- When every reply is current, the segments of a list come to those of what is offered. -/
theorem absorb_of_current (ids : IdSequence) (hne : l.sources ≠ [])
    (hlength : delivery.replies.length = l.sources.length)
    (hurls : (l.sources.map (·.url)).Nodup)
    (hprevious : ∀ a, cache.get? l.id = some a → a.Genuine archive l)
    (hoffer : offer.From archive)
    (hcurrent : ∀ pair ∈ l.sources.zip delivery.replies,
      Reply.Current offer (cache.get? l.id) pair.1 pair.2) :
    ∃ a, (l.absorb cache ids delivery).cache.get? l.id = some a ∧
      a.unnumbered.sources = (l.sources.map fun source => offer.segment l.id source.url) ∧
      (l.absorb cache ids delivery).list.ruleCount = a.ruleCount := by
  have hreplies := exists_current_reply hlength hcurrent
  have hsegments := Intake.unnumbered_ofReplies (fun a ha => (hprevious a ha).segments) hoffer
    hcurrent ids
  obtain ⟨source, hsource⟩ := List.exists_mem_of_ne_nil _ hne
  have hanswered : (!l.sources.isEmpty && delivery.replies.all Reply.isFailure) = false := by
    obtain ⟨reply, hmem, hreply⟩ := hreplies source hsource
    have hall : delivery.replies.all Reply.isFailure = false := by
      refine List.all_eq_false.mpr ⟨reply, hmem, ?_⟩
      simp [hreply.isFailure_eq_false]
    rw [hall, Bool.and_false]
  simp only [absorb, hanswered, Bool.false_eq_true, if_false]
  split
  · rename_i hquiet
    have htext : ∀ reply ∈ delivery.replies, reply.isText = false := by
      simpa using (Bool.and_eq_true_iff.mp hquiet).1
    have hkept : ∀ source ∈ l.sources, ∃ s validator,
        (cache.get? l.id).bind (·.source? source.url) = some s ∧ s.etag = some validator ∧
          (offer source.url).2 = some validator := by
      intro source hsource
      obtain ⟨reply, hmem, hreply⟩ := hreplies source hsource
      exact hreply.exists_of_not_isText (htext reply hmem)
    obtain ⟨s, _, hs, _⟩ := hkept source hsource
    obtain ⟨a, ha, _⟩ := Option.bind_eq_some_iff.mp hs
    rw [ha] at hkept
    have hgenuine := hprevious a ha
    exact ⟨a, ha, hgenuine.unnumbered_eq hoffer hurls hkept, hgenuine.ruleCount⟩
  · have hsources := congrArg (List.map fun source => offer.segment l.id source.url)
      (List.map_fst_zip hlength.ge)
    rw [List.map_map] at hsources
    exact ⟨_, Dict.get?_insert_self _ _ _, hsegments.trans hsources, rfl⟩

end FilterList

/-- Servers answer every request that a registry makes for a list. -/
def Servers.AnswerAll (servers : Servers) (r : Registry) (force : Bool) (place : Nat)
    (l : FilterList) : Prop :=
  ∀ i request, (r.requestsFor force l)[i]? = some request →
    (servers.reply place i request).isFailure = false

theorem Servers.answerAll_serving (offer : Offer) (r : Registry) (force : Bool) (place : Nat)
    (l : FilterList) : (serving offer).AnswerAll r force place l := by
  intro i request _
  simp only [serving, uniform]
  split <;> rfl

/-- Servers that serve an offer and answer every request give current replies. -/
theorem Servers.Serve.current {servers : Servers} {offer : Offer} (hserve : servers.Serve offer)
    {r : Registry} {force : Bool} {place : Nat} {l : FilterList}
    (hanswer : servers.AnswerAll r force place l) {pair : ListSource × Reply}
    (hpair : pair ∈ l.sources.zip (Refresh.delivery r force servers l place).replies) :
    Reply.Current offer (r.cache.get? l.id) pair.1 pair.2 := by
  obtain ⟨i, request, hrequest, hurl, hetag, hreply⟩ := FilterList.mem_zip_delivery hpair
  have hsuccess := hanswer i request hrequest
  rw [hreply]
  cases hanswered : servers.reply place i request with
  | error error =>
      rw [hanswered] at hsuccess
      cases hsuccess
  | ok download =>
      cases download with
      | fetched body etag => exact .fetched (hurl ▸ hserve.fetched hanswered)
      | notModified =>
          obtain ⟨validator, hsent, hcurrent⟩ := hserve.notModified hanswered
          rcases hetag with hnone | hsegment
          · rw [hnone] at hsent
            cases hsent
          · obtain ⟨s, hs, hetag⟩ := Option.bind_eq_some_iff.mp (hsegment.symm.trans hsent)
            exact .notModified hs hetag (hurl ▸ hcurrent)

/-- What a list and its segments are after a refresh in which all its requests succeed: with
sources, the segments of what is offered, and otherwise what they were. -/
theorem Registry.Genuine.current {archive : Archive} {lists : List FilterList} {r : Registry}
    (h : r.Genuine archive lists) (hids : (lists.map (·.id)).Nodup)
    (hurls : ∀ l ∈ lists, (l.sources.map (·.url)).Nodup) {offer : Offer}
    (hoffer : offer.From archive) {servers : Servers} (hserve : servers.Serve offer)
    {place : Nat} {l : FilterList} (hl : r.lists[place]? = some l) {force : Bool}
    (hanswer : servers.AnswerAll r force place l) {chosen : FilterList → Nat → Bool}
    (hchosen : chosen l place = true) {r' : Registry}
    (hr' : r' = (r.refresh chosen force servers).registry) :
    ∃ l', r'.list? l.id = some l' ∧
      (l.sources = [] → r'.cache.get? l.id = r.cache.get? l.id ∧ l'.ruleCount = l.ruleCount) ∧
      (l.sources ≠ [] → ∃ a, r'.cache.get? l.id = some a ∧
        a.unnumbered.sources = (l.sources.map fun source => offer.segment l.id source.url) ∧
        l'.ruleCount = a.ruleCount) := by
  subst hr'
  have hnodup := nodup_ids_of_catalogue hids h.catalogue
  have hnodup' := nodup_ids_of_catalogue hids
    ((catalogue_refresh r chosen force servers).trans h.catalogue)
  obtain ⟨l', hl', htaken⟩ := taken_refresh hnodup chosen force servers hl
  obtain ⟨ids, rfl, hentry⟩ := htaken.absorbed _ (by rw [if_pos hchosen]; rfl)
  have hfound := list?_eq_some hnodup' hl'
  rw [FilterList.id_absorb] at hfound
  have hlength := Refresh.length_delivery r force servers l place
  refine ⟨_, hfound, fun hnone => ?_, fun hne => ?_⟩
  · have hreplies : (Refresh.delivery r force servers l place).replies = [] :=
      List.eq_nil_of_length_eq_zero (by rw [hlength, hnone, List.length_nil])
    obtain ⟨hcache, hcount⟩ := FilterList.absorb_of_no_sources r.cache ids hnone hreplies
    exact ⟨hentry.trans (by rw [hcache]), hcount⟩
  · have hmem : l.pristine ∈ lists :=
      h.catalogue ▸ List.mem_map_of_mem (List.mem_of_getElem? hl)
    obtain ⟨a, ha, hsegments, hcount⟩ := FilterList.absorb_of_current ids hne hlength
      (hurls l.pristine hmem) (h.cached l (List.mem_of_getElem? hl)) hoffer
      fun pair hpair => hserve.current hanswer hpair
    exact ⟨a, hentry.trans ha, hsegments, hcount⟩

/-! ### Operations -/

namespace Session

/-- An operation refreshes a list, alone or with every enabled list. -/
inductive Operation.Refreshes (l : FilterList) (force : Bool) (servers : Servers) : Operation → Prop
  | all (h : l.enabled = true) : Refreshes l force servers (.refreshAll force servers)
  | one : Refreshes l force servers (.refreshList l.id force servers)

/-- With distinct ids, an operation that refreshes a list chooses its place. -/
theorem Operation.Refreshes.exists_chosen {l : FilterList} {force : Bool} {servers : Servers}
    {op : Operation} (h : op.Refreshes l force servers) {r : Registry}
    (hids : (r.lists.map (·.id)).Nodup) {place : Nat} (hl : r.lists[place]? = some l) :
    ∃ chosen : FilterList → Nat → Bool, chosen l place = true ∧
      op.change r = (r.refresh chosen force servers).registry := by
  cases h with
  | all h => exact ⟨fun l _ => l.enabled, h, rfl⟩
  | one =>
      obtain ⟨hplace, hget⟩ := List.getElem?_eq_some_iff.mp hl
      rw [List.Nodup, List.pairwise_map] at hids
      have hfirst : r.lists.findIdx? (·.id == l.id) = some place := by
        refine List.findIdx?_eq_some_iff_getElem.mpr ⟨hplace, by simp [hget], fun i hi => ?_⟩
        have hne := List.pairwise_iff_getElem.mp hids i place (by omega) hplace hi
        rw [hget] at hne
        simpa using hne
      refine ⟨fun _ at' => at' == place, by simp, ?_⟩
      rw [change, Registry.refreshList?, hfirst]
      rfl

/-- An operation that refreshes reads nothing first. -/
theorem Operation.Refreshes.registry_after {w : Type} [KeyValueStore w] [FilteringEngine w]
    {l : FilterList} {force : Bool} {servers : Servers} {op : Operation}
    (h : op.Refreshes l force servers) (s : Session w) :
    (s.after op).registry = op.change s.registry := by
  apply (s.after_eq op).1.trans
  cases h <;> rfl

end Session

namespace Fleet

open Session

variable {ε : Type} [FilteringEngine ε]

/-- Of whatever registries of one manifest do from an empty store on, with honest servers that may
fail: a refresh of a list that sends validators leaves the same segments and the same number of
rules as one that downloads everything from servers with the same offer, if both get an answer to
every request for the list. The numbers of the records may differ. -/
theorem conditional_refresh_eq_forced (manifest : Manifest)
    (hids : (manifest.lists.map (·.id)).Nodup)
    (hurls : ∀ d ∈ manifest.lists, (d.sources.map (·.url)).Nodup) (archive : Archive)
    (fault : Nat → Option StoreError) (engine : ε) {steps : List Step}
    (hsteps : ∀ step ∈ steps, ∀ servers ∈ step.servers?, servers.Honest archive) {r : Registry}
    (hr : r ∈ (run manifest
      (⟨⟨.empty, fault, 0⟩, engine⟩ : Backend (Faulty MemoryStore StoreError) ε) steps).registries)
    {offer : Offer} (hoffer : offer.From archive) {servers servers' : Servers}
    (hserve : servers.Serve offer) (hserve' : servers'.Serve offer) {place : Nat} {l : FilterList}
    (hl : r.lists[place]? = some l) (hanswer : servers.AnswerAll r false place l)
    (hanswer' : servers'.AnswerAll r true place l) {op op' : Operation}
    (hop : op.Refreshes l false servers) (hop' : op'.Refreshes l true servers')
    (world : Backend (Faulty MemoryStore StoreError) ε) :
    let conditional := ((ofRegistry r world).after op).registry
    let forced := ((ofRegistry r world).after op').registry
    (conditional.cache.get? l.id).map ListArtifacts.unnumbered =
        (forced.cache.get? l.id).map ListArtifacts.unnumbered ∧
      (conditional.list? l.id).map (·.ruleCount) = (forced.list? l.id).map (·.ruleCount) := by
  have hids' := Manifest.nodup_catalogue hids
  have hurls' := Manifest.nodup_urls_catalogue hurls
  have hempty : SavedState.Genuine archive manifest.catalogue .empty := fun _ _ _ h => by cases h
  have hopen : ∀ settings,
      (Registry.ofManifest manifest settings).Genuine archive manifest.catalogue :=
    fun settings => ⟨manifest.catalogue_ofManifest settings, fun _ _ _ h => by cases h⟩
  have hgenuine : r.Genuine archive manifest.catalogue :=
    (run_invariant (Registry.genuine_invariant hids')
      (MemoryStore.storeInvariant_holds (SavedState.Genuine archive manifest.catalogue)) hopen
      (MemoryStore.holds_empty hempty) hsteps).1 r hr
  have hnodup := Registry.nodup_ids_of_catalogue hids' hgenuine.catalogue
  obtain ⟨chosen, hchosen, hchange⟩ := hop.exists_chosen hnodup hl
  obtain ⟨chosen', hchosen', hchange'⟩ := hop'.exists_chosen hnodup hl
  intro conditional forced
  obtain ⟨l₁, hl₁, hnone₁, hsome₁⟩ := hgenuine.current hids' hurls' hoffer hserve hl hanswer hchosen
    ((hop.registry_after (ofRegistry r world)).trans hchange)
  obtain ⟨l₂, hl₂, hnone₂, hsome₂⟩ := hgenuine.current hids' hurls' hoffer hserve' hl hanswer'
    hchosen' ((hop'.registry_after (ofRegistry r world)).trans hchange')
  rw [hl₁, hl₂, Option.map_some, Option.map_some]
  by_cases hsources : l.sources = []
  · obtain ⟨hcache₁, hcount₁⟩ := hnone₁ hsources
    obtain ⟨hcache₂, hcount₂⟩ := hnone₂ hsources
    exact ⟨by rw [hcache₁, hcache₂], by rw [hcount₁, hcount₂]⟩
  · obtain ⟨a₁, ha₁, hsegments₁, hcount₁⟩ := hsome₁ hsources
    obtain ⟨a₂, ha₂, hsegments₂, hcount₂⟩ := hsome₂ hsources
    have hequal : a₁.unnumbered = a₂.unnumbered :=
      congrArg ListArtifacts.mk (hsegments₁.trans hsegments₂.symm)
    refine ⟨by rw [ha₁, ha₂, Option.map_some, Option.map_some, hequal], ?_⟩
    rw [hcount₁, hcount₂, ← a₁.ruleCount_unnumbered, hequal, a₂.ruleCount_unnumbered]

/-- Every address offers the same line with the same validator. -/
def sampleOffer : Offer :=
  fun _ => ("||ads.example^", some "first")

/-- A store and an engine, both empty, that take every call. -/
def soundWorld : Backend (Faulty MemoryStore StoreError) MemoryEngine :=
  ⟨.sound .empty, .withLimit 30000⟩

/-- A registry that has downloaded its lists once. -/
def refreshedSample : Registry :=
  ((Registry.ofManifest .sample default).refreshEnabled false (.serving sampleOffer)).registry

theorem conditional_refresh_eq_forced_sample :
    refreshedSample ∈ (run .sample soundWorld
      [.opening default, .operation 0 (.refreshAll false (.serving sampleOffer))]).registries ∧
    ∃ l ∈ refreshedSample.lists, refreshedSample.cache.get? l.id ≠ none ∧
      let s := ofRegistry refreshedSample soundWorld
      let conditional := (s.after (.refreshAll false (.serving sampleOffer))).registry
      let forced := (s.after (.refreshList l.id true (.serving sampleOffer))).registry
      (conditional.cache.get? l.id).map ListArtifacts.unnumbered =
        (forced.cache.get? l.id).map ListArtifacts.unnumbered := by
  have hoffer : sampleOffer.From fun _ _ => "||ads.example^" := fun _ _ _ => rfl
  have hserve := Servers.serve_serving sampleOffer
  have hr : refreshedSample ∈ (run .sample soundWorld
      [.opening default, .operation 0 (.refreshAll false (.serving sampleOffer))]).registries := by
    apply List.mem_singleton.mpr
    have hafter := ((ofRegistry (.ofManifest .sample default) soundWorld).after_eq
      (.refreshAll false (.serving sampleOffer))).1
    exact hafter.symm
  have hhonest : ∀ step ∈ [Step.opening default,
      .operation 0 (.refreshAll false (.serving sampleOffer))], ∀ servers ∈ step.servers?,
      servers.Honest fun _ _ => "||ads.example^" := by
    intro step hstep servers hservers
    rcases List.mem_pair.mp hstep with rfl | rfl
    · cases hservers
    · cases hservers
      exact ⟨sampleOffer, hoffer, hserve⟩
  have hl : refreshedSample.lists[0]? = some (refreshedSample.lists.headD default) := by
    decide +kernel
  refine ⟨hr, _, List.mem_of_getElem? hl, by decide +kernel, ?_⟩
  exact (conditional_refresh_eq_forced .sample (by decide) (by decide) _ _ _ hhonest hr hoffer
    hserve hserve hl (Servers.answerAll_serving _ _ _ _ _) (Servers.answerAll_serving _ _ _ _ _)
    (.all (by decide +kernel)) .one soundWorld).1

end Fleet

end Blocklist
