import Blocklist.Registry.Absorption
import Blocklist.SavedState
import Blocklist.Settings
import Blocklist.Status

/-!
# The registry of lists

The lists of the program with their state, what was compiled for them, the ids that are left, and the
budget of rules. Here are the answers that a registry gives and the changes it makes by itself; what
it does with a store and an engine stands in `Blocklist.Session`.

## Implementation notes

A refresh asks for every source of the chosen lists first, by what the cache holds at its start, and
then takes in the replies list by list.
-/

namespace Blocklist

/-- The lists with their state. -/
structure Registry where
  /-- In the order of the manifest. -/
  lists : List FilterList
  categories : Dict Category
  /-- The ids that compiled records take. -/
  ids : IdSequence
  cache : RuleCache
  /-- The most rules that the engine is given. -/
  budget : Nat

namespace Registry

/-- The registry of a manifest, with nothing compiled. -/
def ofManifest (manifest : Manifest) (settings : Settings) : Registry where
  lists := manifest.lists.map .ofDescriptor
  categories := manifest.categories
  ids := ⟨settings.ruleIdStart⟩
  cache := .empty
  budget := settings.maxDynamicRules

/-- The list with an id. -/
def list? (r : Registry) (id : String) : Option FilterList :=
  r.lists.find? (·.id == id)

/-- The lists of a category. -/
def listsIn (r : Registry) (category : String) : List FilterList :=
  r.lists.filter (·.category == category)

/-- The lists that are enabled. -/
def enabledLists (r : Registry) : List FilterList :=
  r.lists.filter (·.enabled)

/-- What was compiled for the enabled lists, in their order. -/
def enabledArtifacts (r : Registry) : List ListArtifacts :=
  r.enabledLists.filterMap fun l => r.cache.get? l.id

/-- The rules of the enabled lists, source by source. -/
def ruleSlices (r : Registry) : List (List Rule) :=
  r.enabledArtifacts.flatMap (·.ruleSlices)

/-- The slices are the rules of every cached source of every list that is enabled, in the order of the
lists and then of the sources. -/
theorem ruleSlices_eq (r : Registry) :
    r.ruleSlices = ((r.lists.filter (·.enabled)).filterMap fun l => r.cache.get? l.id).flatMap
      fun a => a.sources.map (·.rules) :=
  rfl

/-- The rules that the engine is to hold, and how they were chosen. -/
def assembled (r : Registry) : List Rule × AssemblyStats :=
  assemble r.ruleSlices r.budget

/-- The element-hiding rules for the pages of a host. -/
def cosmeticRulesFor (r : Registry) (host : String) : List CosmeticRule :=
  (r.enabledArtifacts.flatMap (·.cosmeticRules)).filter fun rule =>
    !rule.exception && Host.isCovered (Host.lower host) ⟨rule.domains, rule.excludeDomains⟩

/-- The calls of scriptlets for the pages of a host. -/
def scriptletsFor (r : Registry) (host : String) : List Scriptlet :=
  (r.enabledArtifacts.flatMap (·.scriptlets)).filter fun call =>
    Host.isCovered (Host.lower host) ⟨call.domains, call.excludeDomains⟩

/-- What is shown of the registry. -/
def status (r : Registry) : RegistryStatus :=
  ⟨r.lists.map .ofList, r.categories, .ofLists r.lists r.budget⟩

/-- The states of the lists, as they are saved. -/
def metadata (r : Registry) : Dict ListMetadata :=
  Dict.ofList (r.lists.map fun l => (l.id, l.metadata))

/-- The state that is saved. -/
def savedState (r : Registry) : SavedState :=
  ⟨r.metadata, r.cache⟩

/-- The registry with a saved state. Ids continue above all that are in use. -/
def restored (r : Registry) (state : SavedState) : Registry where
  lists := r.lists.map fun l =>
    match state.metadata.get? l.id with
    | some m => l.withMetadata m
    | none => l
  categories := r.categories
  ids :=
    match RuleCache.maxId? state.cache with
    | some id => r.ids.advancePast id
    | none => r.ids
  cache := state.cache
  budget := r.budget

/-- The saved flag of a list, if it differs from the one in use. -/
def adopted? (metadata : Dict ListMetadata) (l : FilterList) : Option Bool :=
  ((metadata.get? l.id).bind (·.enabled)).filter (· != l.enabled)

/-- The registry with the saved flags. -/
def withFlags (r : Registry) (metadata : Dict ListMetadata) : Registry :=
  { r with lists := r.lists.map fun l => { l with enabled := (adopted? metadata l).getD l.enabled } }

/-- The lists whose saved flags differ from those in use, with the saved flags. -/
def adoptions (r : Registry) (metadata : Dict ListMetadata) : List (String × Bool) :=
  r.lists.filterMap fun l => (adopted? metadata l).map fun enabled => (l.id, enabled)

/-- Change the flag of the first list with an id. -/
def setListFlag (id : String) (enabled : Bool) : List FilterList → List FilterList
  | [] => []
  | l :: rest => if l.id == id then { l with enabled } :: rest else l :: setListFlag id enabled rest

/-- Enable or disable the list with an id. -/
def withList (r : Registry) (id : String) (enabled : Bool) : Registry :=
  { r with lists := setListFlag id enabled r.lists }

/-- Enable or disable the lists of a category. -/
def withCategory (r : Registry) (category : String) (enabled : Bool) : Registry :=
  { r with lists := r.lists.map fun l => if l.category == category then { l with enabled } else l }

/-- The requests for the sources of a list. They carry the validators of the cached segments, unless
everything is to be downloaded. -/
def requestsFor (r : Registry) (force : Bool) (l : FilterList) : List Request :=
  l.sources.map fun source =>
    ⟨source.url,
      if force then none
      else ((r.cache.get? l.id).bind (·.source? source.url)).bind (·.etag)⟩

end Registry

/-- How the servers answer a refresh, by the places of a list and of one of its sources, and when the
replies for a list are taken. -/
structure Servers where
  reply : (list source : Nat) → Request → Reply
  time : (list : Nat) → Timestamp

/-- Servers that do not tell the places of requests apart. -/
def Servers.uniform (reply : Request → Reply) (time : Timestamp) : Servers :=
  ⟨fun _ _ => reply, fun _ => time⟩

/-- What a refresh made of the registry. -/
structure Refresh where
  registry : Registry
  /-- The requests made, in their order. -/
  requests : List Request
  /-- What became of the chosen lists, in their order. -/
  outcomes : List RefreshOutcome
  events : List Event

namespace Refresh

/-- What is taken in for a run of lists. -/
structure Progress where
  lists : List FilterList
  cache : RuleCache
  ids : IdSequence
  outcomes : List RefreshOutcome
  events : List Event

/-- Take in the deliveries of lists one after the other. A list without one stays as it is. -/
def absorbEach (cache : RuleCache) (ids : IdSequence) :
    List (FilterList × Option Delivery) → Progress
  | [] => ⟨[], cache, ids, [], []⟩
  | (l, none) :: rest =>
    let p := absorbEach cache ids rest
    { p with lists := l :: p.lists }
  | (l, some delivery) :: rest =>
    let a := l.absorb cache ids delivery
    let p := absorbEach a.cache a.ids rest
    { p with
      lists := a.list :: p.lists
      outcomes := a.outcome :: p.outcomes
      events := a.events ++ p.events }

/-- The delivery for a list at its place. -/
def delivery (r : Registry) (force : Bool) (servers : Servers) (l : FilterList) (place : Nat) :
    Delivery :=
  ⟨(r.requestsFor force l).mapIdx (servers.reply place), servers.time place⟩

/-- The number of lists with an outcome. -/
def count (outcome : RefreshOutcome) (refresh : Refresh) : Nat :=
  refresh.outcomes.count outcome

end Refresh

namespace Registry

/-- Refresh the lists that are chosen by their state and their place. -/
def refresh (r : Registry) (chosen : FilterList → Nat → Bool) (force : Bool) (servers : Servers) :
    Refresh :=
  let deliveries := r.lists.mapIdx fun place l =>
    (l, if chosen l place then some (Refresh.delivery r force servers l place) else none)
  let p := Refresh.absorbEach r.cache r.ids deliveries
  { registry := { r with lists := p.lists, cache := p.cache, ids := p.ids }
    requests := (deliveries.filter (·.2.isSome)).flatMap fun d => r.requestsFor force d.1
    outcomes := p.outcomes
    events := p.events }

/-- Refresh every enabled list. -/
def refreshEnabled (r : Registry) (force : Bool) (servers : Servers) : Refresh :=
  r.refresh (fun l _ => l.enabled) force servers

/-- Refresh the first list with an id, if there is one. -/
def refreshList? (r : Registry) (id : String) (force : Bool) (servers : Servers) : Option Refresh :=
  (r.lists.findIdx? (·.id == id)).map fun place =>
    r.refresh (fun _ at' => at' == place) force servers

end Registry

end Blocklist
