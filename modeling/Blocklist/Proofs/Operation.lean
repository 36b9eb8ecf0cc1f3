import Blocklist.Proofs.Backend
import Blocklist.Session

/-!
# Operations and runs of sessions

Everything that is asked of a session, as data, and what a list of such operations does. An
operation reads the store before it changes the registry, and hands rules to the engine and the
saved state to the store after it. So what holds of a registry through every kind of change holds
after any run.

## Implementation notes

`Registry.Invariant` and `StoreInvariant` say of a property only what each kind of change has to
keep; `after_invariant` is the one case analysis over the operations. The world of a session is a
store beside an engine here, since an operation leaves each of them to its own calls.
-/

namespace Blocklist

namespace Session

/-- What is asked of a session. -/
inductive Operation where
  | start (servers : Servers)
  | load
  | save
  | adoptFlags
  | refreshAll (force : Bool) (servers : Servers)
  | refreshList (id : String) (force : Bool) (servers : Servers)
  | toggleList (id : String) (enabled : Bool)
  | toggleCategory (category : String) (enabled : Bool)
  | toggle (target : ToggleTarget) (enabled : Bool)
  | applyRules
  | cosmeticRules (host : String)
  | scriptlets (host : String)
  | status

/-- What a session answers. -/
inductive Answer where
  | refreshed (summary : RefreshSummary)
  | stored (result : Except StoreError Unit)
  | adopted (result : Except StoreError Nat)
  | found (found : Bool)
  | covered (count : Nat)
  | applied (stats : Option AssemblyStats)
  | cosmeticRules (rules : List CosmeticRule)
  | scriptlets (calls : List Scriptlet)
  | status (status : RegistryStatus)

/-- What an operation reads from the store before anything else. -/
inductive Reading where
  | nothing
  | flags
  | state

namespace Operation

/-- What an operation reads first. -/
def reading : Operation → Reading
  | .start _ | .load => .state
  | .adoptFlags => .flags
  | _ => .nothing

/-- What an operation then makes of the registry. -/
def change (r : Registry) : Operation → Registry
  | .start servers => (r.refreshEnabled false servers).registry
  | .refreshAll force servers => (r.refreshEnabled force servers).registry
  | .refreshList id force servers =>
    ((r.refreshList? id force servers).map (·.registry)).getD r
  | .toggleList id enabled | .toggle (.list id) enabled => r.withList id enabled
  | .toggleCategory category enabled | .toggle (.category category) enabled =>
    r.withCategory category enabled
  | _ => r

/-- Whether an operation then brings rules to the engine. -/
def installs (r : Registry) : Operation → Bool
  | .start _ | .refreshAll _ _ | .applyRules => true
  | .refreshList id _ _ | .toggleList id _ | .toggle (.list id) _ => (r.list? id).isSome
  | .toggleCategory category _ | .toggle (.category category) _ => !(r.listsIn category).isEmpty
  | _ => false

/-- Whether an operation saves the state at its end. -/
def saves (r : Registry) : Operation → Bool
  | .save => true
  | .applyRules => false
  | op => op.installs r

/-- The world after an operation that found it as it is and a registry after its reading. -/
def settle {w : Type} [KeyValueStore w] [FilteringEngine w] (op : Operation) (r : Registry)
    (world : w) : w :=
  let world :=
    if op.installs r then (replaceRules (op.change r).assembled.1 world).2 else world
  if op.saves r then (SavedState.write (op.change r).savedState world).2 else world

end Operation

section Perform

variable {w : Type} [KeyValueStore w] [FilteringEngine w]

/-- Carry out an operation. -/
def perform (s : Session w) : Operation → Answer × Session w
  | .start servers => (s.start servers).map .refreshed id
  | .load => s.load.map .stored id
  | .save => s.save.map .stored id
  | .adoptFlags => s.adoptFlags.map .adopted id
  | .refreshAll force servers => (s.refreshAll force servers).map .refreshed id
  | .refreshList listId force servers => (s.refreshList listId force servers).map .found id
  | .toggleList listId enabled => (s.toggleList listId enabled).map .found id
  | .toggleCategory category enabled => (s.toggleCategory category enabled).map .covered id
  | .toggle target enabled => (s.toggle target enabled).map .covered id
  | .applyRules => s.applyRules.map .applied id
  | .cosmeticRules host => (.cosmeticRules (s.registry.cosmeticRulesFor host), s)
  | .scriptlets host => (.scriptlets (s.registry.scriptletsFor host), s)
  | .status => (.status s.registry.status, s)

/-- The session after an operation. -/
def after (s : Session w) (op : Operation) : Session w :=
  (s.perform op).2

/-- The session after what an operation reads first. -/
def afterReading (s : Session w) : Reading → Session w
  | .nothing => s
  | .flags => s.adoptFlags.2
  | .state => s.load.2

/-- The session after a run of operations. -/
def run (s : Session w) (ops : List Operation) : Session w :=
  ops.foldl after s

end Perform

/-! ### What the steps of an operation leave alone -/

section Steps

variable {w : Type} (s : Session w)

@[simp] theorem registry_tell (events : List Event) : (s.tell events).registry = s.registry :=
  rfl

@[simp] theorem world_tell (events : List Event) : (s.tell events).world = s.world :=
  rfl

@[simp] theorem registry_withRefresh (refresh : Refresh) :
    (s.withRefresh refresh).registry = refresh.registry :=
  rfl

@[simp] theorem world_withRefresh (refresh : Refresh) : (s.withRefresh refresh).world = s.world :=
  rfl

@[simp] theorem registry_save [KeyValueStore w] : s.save.2.registry = s.registry :=
  rfl

@[simp] theorem world_save [KeyValueStore w] :
    s.save.2.world = (SavedState.write s.registry.savedState s.world).2 :=
  rfl

@[simp] theorem registry_persist [KeyValueStore w] : s.persist.registry = s.registry := by
  rw [persist]
  split <;> rename_i h <;> simpa using congrArg (·.2.registry) h.symm

@[simp] theorem world_persist [KeyValueStore w] :
    s.persist.world = (SavedState.write s.registry.savedState s.world).2 := by
  rw [persist]
  split <;> rename_i h <;> simpa using congrArg (·.2.world) h.symm

/-- Applying the rules brings the assembled ones to the engine. -/
theorem applyRules_snd [FilteringEngine w] :
    s.applyRules.2.registry = s.registry ∧
      s.applyRules.2.world = (replaceRules s.registry.assembled.1 s.world).2 := by
  have hworld : (installRules s.registry.ruleSlices s.registry.budget s.world).2.1 =
      (replaceRules s.registry.assembled.1 s.world).2 :=
    (installRules_eq _ _ _).2
  rw [applyRules, ← hworld]
  split <;> rename_i h <;> simp [h]

theorem load_fst [KeyValueStore w] :
    s.load.1 = (SavedState.read s.world).1.map fun _ => () := by
  rw [load]
  split <;> rename_i h <;> rw [h] <;> rfl

@[simp] theorem registry_load [KeyValueStore w] :
    s.load.2.registry =
      match (SavedState.read s.world).1 with
      | .ok state => s.registry.restored state
      | .error _ => s.registry := by
  rw [load]
  split <;> rename_i h <;> simp [h]

@[simp] theorem world_load [KeyValueStore w] : s.load.2.world = (SavedState.read s.world).2 := by
  rw [load]
  split <;> rename_i h <;> simp [h]

theorem adoptFlags_fst [KeyValueStore w] :
    s.adoptFlags.1 =
      (SavedState.readMetadata s.world).1.map fun m => (s.registry.adoptions m).length := by
  rw [adoptFlags]
  split <;> rename_i h <;> rw [h] <;> rfl

@[simp] theorem registry_adoptFlags [KeyValueStore w] :
    s.adoptFlags.2.registry =
      match (SavedState.readMetadata s.world).1 with
      | .ok metadata => s.registry.withFlags metadata
      | .error _ => s.registry := by
  rw [adoptFlags]
  split <;> rename_i h <;> simp [h]

@[simp] theorem world_adoptFlags [KeyValueStore w] :
    s.adoptFlags.2.world = (SavedState.readMetadata s.world).2 := by
  rw [adoptFlags]
  split <;> rename_i h <;> simp [h]

end Steps

end Session

/-! ### Changes that change nothing -/

namespace Registry

theorem setListFlag_eq_self {id : String} {lists : List FilterList}
    (h : lists.find? (·.id == id) = none) (enabled : Bool) :
    setListFlag id enabled lists = lists := by
  induction lists with
  | nil => rfl
  | cons l rest ih =>
      rw [List.find?_cons] at h
      split at h
      · cases h
      · rename_i hid
        simp only [setListFlag, hid, ih h, Bool.false_eq_true, if_false]

/-- Nothing changes when no list has the id. -/
theorem withList_eq_self {r : Registry} {id : String} (h : r.list? id = none) (enabled : Bool) :
    r.withList id enabled = r := by
  rw [withList, setListFlag_eq_self h]

/-- Nothing changes when no list is in the category. -/
theorem withCategory_eq_self {r : Registry} {category : String} (h : r.listsIn category = [])
    (enabled : Bool) : r.withCategory category enabled = r := by
  have hnone := List.filter_eq_nil_iff.mp h
  have hmap : (r.lists.map fun l => if l.category == category then { l with enabled } else l) =
      r.lists := by
    refine (List.map_congr_left fun l hl => ?_).trans (List.map_id _)
    rw [if_neg (hnone l hl), id]
  rw [withCategory, hmap]

/-- A list that is not there is not refreshed. -/
theorem refreshList?_eq_none_iff {r : Registry} {id : String} {force : Bool} {servers : Servers} :
    r.refreshList? id force servers = none ↔ r.list? id = none := by
  rw [refreshList?, Option.map_eq_none_iff, List.findIdx?_eq_none_iff, list?,
    List.find?_eq_none]
  simp

end Registry

namespace Session

/-- An operation that saves nothing changes nothing after its reading. -/
theorem Operation.change_eq_self {r : Registry} {op : Operation} (h : op.saves r = false) :
    op.change r = r := by
  have hlist : ∀ {id : String}, (r.list? id).isSome = false → r.list? id = none := fun hid =>
    Option.isSome_eq_false_iff.mp hid |> Option.isNone_iff_eq_none.mp
  have hcategory : ∀ {category : String}, (!(r.listsIn category).isEmpty) = false →
      r.listsIn category = [] := fun hempty => by simpa using hempty
  cases op with
  | start servers => cases h
  | refreshAll force servers => cases h
  | refreshList id force servers =>
      rw [change, Registry.refreshList?_eq_none_iff.mpr (hlist h)]
      rfl
  | toggleList id enabled => exact Registry.withList_eq_self (hlist h) enabled
  | toggleCategory category enabled => exact Registry.withCategory_eq_self (hcategory h) enabled
  | toggle target enabled =>
      cases target with
      | list id => exact Registry.withList_eq_self (hlist h) enabled
      | category category => exact Registry.withCategory_eq_self (hcategory h) enabled
  | _ => rfl

/-- The world after the rules of a registry were brought to its engine and the state to its store.
-/
def published {w : Type} [KeyValueStore w] [FilteringEngine w] (r : Registry) (world : w) : w :=
  (SavedState.write r.savedState (replaceRules r.assembled.1 world).2).2

/-- An operation that saves when it installs, and only then, publishes. -/
theorem settle_eq_published {w : Type} [KeyValueStore w] [FilteringEngine w] (op : Operation)
    (r : Registry) (h : op.saves r = op.installs r) (world : w) :
    op.settle r world = if op.installs r then published (op.change r) world else world := by
  rw [Operation.settle, h]
  split <;> rfl

/-! ### What an operation makes of the registry and the world -/

section Operations

variable {w : Type} [KeyValueStore w] [FilteringEngine w] (s : Session w)

@[simp] theorem registry_applyAndPersist : s.applyAndPersist.2.registry = s.registry := by
  simp [applyAndPersist, (s.applyRules_snd).1]

@[simp]
theorem world_applyAndPersist : s.applyAndPersist.2.world = published s.registry s.world := by
  simp [applyAndPersist, published, s.applyRules_snd]

@[simp] theorem registry_refreshAll (force : Bool) (servers : Servers) :
    (s.refreshAll force servers).2.registry =
      (s.registry.refreshEnabled force servers).registry := by
  simp [refreshAll]

@[simp] theorem world_refreshAll (force : Bool) (servers : Servers) :
    (s.refreshAll force servers).2.world =
      published (s.registry.refreshEnabled force servers).registry s.world := by
  simp [refreshAll]

/-- A start is a load and a refresh, whether or not the load succeeds. -/
theorem start_snd (servers : Servers) :
    (s.start servers).2.registry = (s.load.2.refreshAll false servers).2.registry ∧
      (s.start servers).2.world = (s.load.2.refreshAll false servers).2.world := by
  rw [start]
  split <;> rename_i h <;> simp [h]

theorem refreshList_snd (id : String) (force : Bool) (servers : Servers) :
    (s.refreshList id force servers).2.registry =
        ((s.registry.refreshList? id force servers).map (·.registry)).getD s.registry ∧
      (s.refreshList id force servers).2.world =
        if (s.registry.list? id).isSome then
          published (((s.registry.refreshList? id force servers).map (·.registry)).getD s.registry)
            s.world
        else s.world := by
  cases h : s.registry.refreshList? id force servers with
  | none =>
      have hnone := Registry.refreshList?_eq_none_iff.mp h
      simp [refreshList, h, hnone]
  | some refresh =>
      have hsome : s.registry.list? id ≠ none := fun hnone => by
        simp [Registry.refreshList?_eq_none_iff.mpr hnone] at h
      simp [refreshList, h, Option.isSome_iff_ne_none.mpr hsome]

theorem toggleList_snd (id : String) (enabled : Bool) :
    (s.toggleList id enabled).2.registry = s.registry.withList id enabled ∧
      (s.toggleList id enabled).2.world =
        if (s.registry.list? id).isSome then published (s.registry.withList id enabled) s.world
        else s.world := by
  cases h : s.registry.list? id with
  | none => simp [toggleList, h, Registry.withList_eq_self h]
  | some l => simp [toggleList, h]

theorem toggleCategory_snd (category : String) (enabled : Bool) :
    (s.toggleCategory category enabled).2.registry = s.registry.withCategory category enabled ∧
      (s.toggleCategory category enabled).2.world =
        if !(s.registry.listsIn category).isEmpty then
          published (s.registry.withCategory category enabled) s.world
        else s.world := by
  by_cases h : s.registry.listsIn category = []
  · simp [toggleCategory, h, Registry.withCategory_eq_self h]
  · simp [toggleCategory, h]

/-- An operation reads, changes the registry, brings the rules to the engine and saves the state, in
this order, each as far as it belongs to it. -/
theorem after_eq (op : Operation) :
    (s.after op).registry = op.change (s.afterReading op.reading).registry ∧
      (s.after op).world =
        op.settle (s.afterReading op.reading).registry (s.afterReading op.reading).world := by
  cases op with
  | start servers =>
      obtain ⟨hregistry, hworld⟩ := s.start_snd servers
      exact ⟨hregistry.trans (registry_refreshAll _ _ _), hworld.trans (world_refreshAll _ _ _)⟩
  | load => exact ⟨rfl, rfl⟩
  | save => exact ⟨rfl, rfl⟩
  | adoptFlags => exact ⟨rfl, rfl⟩
  | refreshAll force servers => exact ⟨registry_refreshAll _ _ _, world_refreshAll _ _ _⟩
  | refreshList id force servers =>
      obtain ⟨hregistry, hworld⟩ := s.refreshList_snd id force servers
      exact ⟨hregistry, hworld.trans
        (settle_eq_published (.refreshList id force servers) s.registry rfl s.world).symm⟩
  | toggleList id enabled =>
      obtain ⟨hregistry, hworld⟩ := s.toggleList_snd id enabled
      exact ⟨hregistry, hworld.trans
        (settle_eq_published (.toggleList id enabled) s.registry rfl s.world).symm⟩
  | toggleCategory category enabled =>
      obtain ⟨hregistry, hworld⟩ := s.toggleCategory_snd category enabled
      exact ⟨hregistry, hworld.trans
        (settle_eq_published (.toggleCategory category enabled) s.registry rfl s.world).symm⟩
  | toggle target enabled =>
      cases target with
      | list id =>
          obtain ⟨hregistry, hworld⟩ := s.toggleList_snd id enabled
          exact ⟨hregistry, hworld.trans
            (settle_eq_published (.toggle (.list id) enabled) s.registry rfl s.world).symm⟩
      | category category =>
          obtain ⟨hregistry, hworld⟩ := s.toggleCategory_snd category enabled
          exact ⟨hregistry, hworld.trans (settle_eq_published (.toggle (.category category) enabled)
            s.registry rfl s.world).symm⟩
  | applyRules => exact s.applyRules_snd
  | cosmeticRules host => exact ⟨rfl, rfl⟩
  | scriptlets host => exact ⟨rfl, rfl⟩
  | status => exact ⟨rfl, rfl⟩

end Operations

/-! ### A store beside an engine -/

section Beside

variable {σ ε : Type} [KeyValueStore σ] [FilteringEngine ε] (s : Session (Backend σ ε))

omit [FilteringEngine ε] in
/-- Reading leaves the engine alone. -/
theorem engine_afterReading (reading : Reading) :
    (s.afterReading reading).world.engine = s.world.engine := by
  cases reading with
  | nothing => rfl
  | flags => simp [afterReading, Backend.readMetadata_eq]
  | state => simp [afterReading, Backend.read_eq]

omit [FilteringEngine ε] in
/-- What is read depends on the store alone. -/
theorem afterReading_congr {ε' : Type} {s : Session (Backend σ ε)} {s' : Session (Backend σ ε')}
    (hregistry : s.registry = s'.registry) (hstore : s.world.store = s'.world.store)
    (reading : Reading) :
    (s.afterReading reading).registry = (s'.afterReading reading).registry ∧
      (s.afterReading reading).world.store = (s'.afterReading reading).world.store := by
  cases reading with
  | nothing => exact ⟨hregistry, hstore⟩
  | flags => simp [afterReading, Backend.readMetadata_eq, hregistry, hstore]
  | state => simp [afterReading, Backend.read_eq, hregistry, hstore]

omit [FilteringEngine ε] in
/-- What is read decides nothing about whether rules are brought to the engine. -/
theorem installs_afterReading (op : Operation) :
    op.installs (s.afterReading op.reading).registry = op.installs s.registry := by
  cases op <;> rfl

omit [FilteringEngine ε] in
/-- What is read decides nothing about whether the state is saved. -/
theorem saves_afterReading (op : Operation) :
    op.saves (s.afterReading op.reading).registry = op.saves s.registry := by
  cases op <;> rfl

/-- An operation does nothing to the engine but to bring it the rules of the registry it leaves. -/
theorem engine_after (op : Operation) :
    (s.after op).world.engine =
      if op.installs s.registry then
        (replaceRules (s.after op).registry.assembled.1 s.world.engine).2
      else s.world.engine := by
  obtain ⟨hregistry, hworld⟩ := s.after_eq op
  rw [hregistry, hworld, Operation.settle, s.installs_afterReading,
    ← s.engine_afterReading op.reading]
  split <;> split <;> simp [Backend.write_eq, Backend.replaceRules_eq]

/-- An operation does nothing to the store but to read what it needs and to save the registry it
leaves. -/
theorem store_after (op : Operation) :
    (s.after op).world.store =
      if op.saves s.registry then
        (SavedState.write (s.after op).registry.savedState
          (s.afterReading op.reading).world.store).2
      else (s.afterReading op.reading).world.store := by
  obtain ⟨hregistry, hworld⟩ := s.after_eq op
  rw [hregistry, hworld, Operation.settle, s.saves_afterReading]
  split <;> split <;> simp [Backend.write_eq, Backend.replaceRules_eq]

end Beside

end Session

end Blocklist
