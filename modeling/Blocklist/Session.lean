import Blocklist.Installation
import Blocklist.Registry.Basic

/-!
# Sessions

A registry at work with a store and an engine. Every operation gives its result, the session after it,
and in the session what was reported and requested on the way. A failing store or engine is reported;
it never undoes what the registry itself did.

## Implementation notes

`w` is whatever holds the store and the engine: its `KeyValueStore` and `FilteringEngine` instances
decide what they do. Events and requests stand in their order.
-/

namespace Blocklist

/-- What a toggle covers. -/
inductive ToggleTarget where
  | list (id : String)
  | category (category : String)
  deriving DecidableEq, Repr, Inhabited

/-- What a refresh of all enabled lists came to. -/
structure RefreshSummary where
  updated : Nat
  notModified : Nat
  failed : Nat
  /-- The number of rules in the engine, if it took them. -/
  appliedRules : Option Nat
  deriving DecidableEq, Repr, Inhabited

/-- A registry with its store and engine, and what was reported and requested. -/
structure Session (w : Type) where
  registry : Registry
  world : w
  events : List Event
  requests : List Request

namespace Session

variable {w : Type}

/-- A session of a registry in which nothing has happened. -/
def ofRegistry (registry : Registry) (world : w) : Session w :=
  ⟨registry, world, [], []⟩

/-- Report events. -/
def tell (s : Session w) (events : List Event) : Session w :=
  { s with events := s.events ++ events }

/-- Take over what a refresh made of the registry. -/
def withRefresh (s : Session w) (refresh : Refresh) : Session w :=
  { s with registry := refresh.registry, requests := s.requests ++ refresh.requests }

section Store

variable [KeyValueStore w]

/-- Take over the saved state. -/
def load (s : Session w) : Except StoreError Unit × Session w :=
  match SavedState.read s.world with
  | (.error error, world) => (.error error, { s with world })
  | (.ok state, world) =>
    let s := { s with registry := s.registry.restored state, world }
    (.ok (), s.tell [.stateRead state.metadata.size state.cache.size,
      .stateRestored s.registry.cache.size s.registry.ids.next])

/-- Save the state. -/
def save (s : Session w) : Except StoreError Unit × Session w :=
  let (result, world) := SavedState.write s.registry.savedState s.world
  (result, { s with world })

/-- Save the state, and report it if that fails. -/
def persist (s : Session w) : Session w :=
  match s.save with
  | (.ok (), s) => s
  | (.error error, s) => s.tell [.stateNotSaved error]

/-- Take over the saved flags, and count those that differed. -/
def adoptFlags (s : Session w) : Except StoreError Nat × Session w :=
  match SavedState.readMetadata s.world with
  | (.error error, world) => (.error error, { s with world })
  | (.ok metadata, world) =>
    let adoptions := s.registry.adoptions metadata
    let s := { s with registry := s.registry.withFlags metadata, world }
    (.ok adoptions.length, s.tell (adoptions.map fun a => .flagAdopted a.1 a.2))

end Store

/-- Put the rules of the enabled lists into the engine. -/
def applyRules [FilteringEngine w] (s : Session w) : Option AssemblyStats × Session w :=
  match installRules s.registry.ruleSlices s.registry.budget s.world with
  | (.ok stats, world, events) =>
    let s := { s with world }
    (some stats, s.tell events)
  | (.error error, world, events) =>
    let s := { s with world }
    (none, s.tell (events ++ [.rulesRefused error]))

variable [KeyValueStore w] [FilteringEngine w]

/-- Put the rules into the engine, then save the state. -/
def applyAndPersist (s : Session w) : Option AssemblyStats × Session w :=
  let (stats, s) := s.applyRules
  (stats, s.persist)

/-- Refresh every enabled list, then apply the result and save it. -/
def refreshAll (s : Session w) (force : Bool) (servers : Servers) : RefreshSummary × Session w :=
  let count := s.registry.enabledLists.length
  let refresh := s.registry.refreshEnabled force servers
  let s := (s.withRefresh refresh).tell (.refreshStarted count force :: refresh.events)
  let (stats, s) := s.applyAndPersist
  let updated := refresh.count .updated
  let notModified := refresh.count .notModified
  let failed := refresh.count .failed
  (⟨updated, notModified, failed, stats.map (·.after)⟩,
    s.tell [.refreshFinished updated notModified failed])

/-- Refresh one list, enabled or not, then apply the result and save it. False if there is no such
list or none of its sources answers. -/
def refreshList (s : Session w) (id : String) (force : Bool) (servers : Servers) :
    Bool × Session w :=
  match s.registry.refreshList? id force servers with
  | none => (false, s.tell [.unknownList id])
  | some refresh =>
    let (_, s) := ((s.withRefresh refresh).tell refresh.events).applyAndPersist
    (refresh.count .failed == 0, s)

/-- Take over the saved state, then refresh every enabled list. -/
def start (s : Session w) (servers : Servers) : RefreshSummary × Session w :=
  match s.load with
  | (.ok (), s) => s.refreshAll false servers
  | (.error error, s) => (s.tell [.stateUnreadable error]).refreshAll false servers

/-- Enable or disable a list, then apply and save. False if there is no such list. -/
def toggleList (s : Session w) (id : String) (enabled : Bool) : Bool × Session w :=
  if (s.registry.list? id).isNone then (false, s)
  else
    let s := { s with registry := s.registry.withList id enabled }
    (true, (s.tell [.listToggled id enabled]).applyAndPersist.2)

/-- Enable or disable the lists of a category, then apply and save; the number of lists in it. -/
def toggleCategory (s : Session w) (category : String) (enabled : Bool) : Nat × Session w :=
  let count := (s.registry.listsIn category).length
  if count = 0 then (0, s)
  else
    let s := { s with registry := s.registry.withCategory category enabled }
    (count, (s.tell [.categoryToggled category count enabled]).applyAndPersist.2)

/-- Enable or disable what a target covers; the number of lists covered. -/
def toggle (s : Session w) (target : ToggleTarget) (enabled : Bool) : Nat × Session w :=
  match target with
  | .list id =>
    let (found, s) := s.toggleList id enabled
    (found.toNat, s)
  | .category category => s.toggleCategory category enabled

/-- Take over the saved flags, which another program may have changed, then refresh every enabled
list. -/
def cycle (s : Session w) (force : Bool) (servers : Servers) : Session w :=
  match s.adoptFlags with
  | (.ok _, s) => (s.refreshAll force servers).2
  | (.error error, s) => ((s.tell [.flagsUnreadable error]).refreshAll force servers).2

end Session

end Blocklist
