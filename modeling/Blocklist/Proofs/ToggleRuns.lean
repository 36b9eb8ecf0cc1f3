import Blocklist.Proofs.Answers
import Blocklist.Proofs.SharedStore

/-!
# Runs of toggles

Toggles of lists and of categories in any order come to one end if they agree on the last flag of
every list. Each of them brings the rules of the whole registry to the engine and saves its whole
state, so nothing is left of what stood there in between.

## Implementation notes

A list is named by its place here, since a toggle by id stops at the first list with the id. The
induction over a run is from its end: the last call decides what it covers.
-/

namespace Blocklist

/-- A call by which flags are set. -/
inductive ToggleCall where
  | list (id : String) (enabled : Bool)
  | category (name : String) (enabled : Bool)
  | either (target : ToggleTarget) (enabled : Bool)

namespace ToggleCall

/-- What a call asks of a session. -/
def operation : ToggleCall → Session.Operation
  | .list id enabled => .toggleList id enabled
  | .category name enabled => .toggleCategory name enabled
  | .either target enabled => .toggle target enabled

/-- What a call covers. -/
def covered : ToggleCall → ToggleTarget
  | .list id _ => .list id
  | .category name _ => .category name
  | .either target _ => target

/-- The flag that a call sets. -/
def enabled : ToggleCall → Bool
  | .list _ enabled | .category _ enabled | .either _ enabled => enabled

/-- What a call answers if nothing is covered. -/
def refusal : ToggleCall → Session.Answer
  | .list _ _ => .found false
  | .category _ _ | .either _ _ => .covered 0

variable (call : ToggleCall) (r : Registry)

theorem change_operation :
    call.operation.change r = (Session.Operation.toggle call.covered call.enabled).change r := by
  cases call with
  | list id enabled => rfl
  | category name enabled => rfl
  | either target enabled => rfl

theorem installs_operation :
    call.operation.installs r =
      (Session.Operation.toggle call.covered call.enabled).installs r := by
  cases call with
  | list id enabled => rfl
  | category name enabled => rfl
  | either target enabled => rfl

theorem saves_operation : call.operation.saves r = call.operation.installs r := by
  cases call <;> rfl

theorem reading_operation : call.operation.reading = .nothing := by
  cases call <;> rfl

end ToggleCall

namespace Registry

variable {r : Registry}

/-- Whether a target covers the list at a place. -/
def coversAt (r : Registry) (target : ToggleTarget) (place : Nat) : Bool :=
  match target with
  | .list id => r.lists.findIdx? (·.id == id) == some place
  | .category name => r.lists[place]?.any (·.category == name)

/-- A target is known if it covers a list. -/
def Knows (r : Registry) (target : ToggleTarget) : Prop :=
  ∃ place, r.coversAt target place = true

/-- The registry with new flags, each by the place of its list and its old one. -/
def flagged (r : Registry) (flag : Nat → Bool → Bool) : Registry :=
  { r with lists := r.lists.mapIdx fun place l => { l with enabled := flag place l.enabled } }

/-- The flag that the last of the calls that cover a place sets, or the flag from before. -/
def lastFlag (r : Registry) (calls : List ToggleCall) (place : Nat) (own : Bool) : Bool :=
  ((calls.filter fun call => r.coversAt call.covered place).getLast?.map (·.enabled)).getD own

/-! ### Toggles by place -/

theorem mapIdx_self {α : Type} (xs : List α) : (xs.mapIdx fun _ x => x) = xs := by
  apply List.ext_getElem <;> simp

theorem flagged_own (r : Registry) : r.flagged (fun _ own => own) = r := by
  have hlists : (r.lists.mapIdx fun _ l => { l with enabled := l.enabled }) = r.lists :=
    mapIdx_self r.lists
  rw [flagged, hlists]

theorem flagged_flagged (r : Registry) (flag flag' : Nat → Bool → Bool) :
    (r.flagged flag).flagged flag' = r.flagged fun place own => flag' place (flag place own) := by
  rw [flagged, flagged, flagged, List.mapIdx_mapIdx]
  rfl

theorem flagged_congr {flag flag' : Nat → Bool → Bool}
    (h : ∀ place l, r.lists[place]? = some l → flag place l.enabled = flag' place l.enabled) :
    r.flagged flag = r.flagged flag' := by
  have hlists : (r.lists.mapIdx fun place l => { l with enabled := flag place l.enabled }) =
      r.lists.mapIdx fun place l => { l with enabled := flag' place l.enabled } := by
    apply List.mapIdx_eq_mapIdx_iff.mpr
    intro place hplace
    rw [h place r.lists[place] (List.getElem?_eq_getElem hplace)]
  rw [flagged, flagged, hlists]

/-- What a target covers does not depend on flags. -/
theorem coversAt_flagged (r : Registry) (flag : Nat → Bool → Bool) (target : ToggleTarget)
    (place : Nat) : (r.flagged flag).coversAt target place = r.coversAt target place := by
  cases target with
  | list id =>
      have hids : (r.flagged flag).lists.map (·.id) = r.lists.map (·.id) := by
        apply List.ext_getElem <;> simp [flagged]
      have hfind (lists : List FilterList) :
          lists.findIdx? (·.id == id) = (lists.map (·.id)).findIdx? (· == id) := by
        rw [List.findIdx?_map]
        rfl
      rw [coversAt, coversAt, hfind, hids, ← hfind]
  | category name =>
      rw [coversAt, coversAt, flagged, List.getElem?_mapIdx, Option.any_map]

theorem setListFlag_eq_mapIdx (id : String) (enabled : Bool) (lists : List FilterList) :
    setListFlag id enabled lists = lists.mapIdx fun place l =>
      if lists.findIdx? (·.id == id) == some place then { l with enabled } else l := by
  induction lists with
  | nil => rfl
  | cons l rest ih =>
      rw [setListFlag, List.mapIdx_cons, List.findIdx?_cons]
      split
      · simp [mapIdx_self]
      · rw [ih]
        cases rest.findIdx? (·.id == id) <;> simp

/-- A toggle sets the flags of the lists that it covers. -/
theorem change_toggle_eq_flagged (r : Registry) (target : ToggleTarget) (enabled : Bool) :
    (Session.Operation.toggle target enabled).change r =
      r.flagged fun place own => if r.coversAt target place then enabled else own := by
  cases target with
  | list id =>
      rw [Session.Operation.change, withList, setListFlag_eq_mapIdx, flagged]
      congr 2
      funext place l
      rw [coversAt]
      split <;> rfl
  | category name =>
      have hlists : (r.lists.map fun l => if l.category == name then { l with enabled } else l) =
          r.lists.mapIdx fun place l =>
            { l with
              enabled := if r.coversAt (.category name) place then enabled else l.enabled } := by
        apply List.ext_getElem?
        intro place
        rw [List.getElem?_map, List.getElem?_mapIdx, coversAt]
        cases r.lists[place]? with
        | none => rfl
        | some l =>
            simp only [Option.map_some, Option.any_some]
            split <;> rfl
      rw [Session.Operation.change, withCategory, hlists]
      rfl

/-- A toggle of a target that is known, and of no other one, takes effect outside the registry. -/
theorem installs_toggle_iff (r : Registry) (target : ToggleTarget) (enabled : Bool) :
    (Session.Operation.toggle target enabled).installs r = true ↔ r.Knows target := by
  rw [installs_toggle, List.any_eq_true]
  constructor
  · rintro ⟨l, hl, hcovers⟩
    cases target with
    | list id =>
        have hfound : (r.lists.findIdx? (·.id == id)).isSome := by
          rw [List.findIdx?_isSome, List.any_eq_true]
          exact ⟨l, hl, hcovers⟩
        obtain ⟨place, hplace⟩ := Option.isSome_iff_exists.mp hfound
        exact ⟨place, by rw [coversAt, hplace, beq_self_eq_true]⟩
    | category name =>
        obtain ⟨place, hplace⟩ := List.mem_iff_getElem?.mp hl
        exact ⟨place, by rw [coversAt, hplace]; exact hcovers⟩
  · rintro ⟨place, hcovers⟩
    cases target with
    | list id =>
        obtain ⟨hlt, hid, -⟩ := List.findIdx?_eq_some_iff_getElem.mp (beq_iff_eq.mp hcovers)
        exact ⟨r.lists[place], List.getElem_mem hlt, hid⟩
    | category name =>
        obtain ⟨l, hl, hcategory⟩ := (Option.any_eq_true _ _).mp hcovers
        exact ⟨l, List.mem_of_getElem? hl, hcategory⟩

/-! ### The last flag -/

theorem lastFlag_concat (r : Registry) (calls : List ToggleCall) (last : ToggleCall) (place : Nat)
    (own : Bool) :
    r.lastFlag (calls ++ [last]) place own =
      if r.coversAt last.covered place then last.enabled else r.lastFlag calls place own := by
  rw [lastFlag, lastFlag, List.filter_append]
  split
  · rename_i hcovers
    rw [List.filter_singleton, hcovers, cond_true, List.getLast?_concat]
    rfl
  · rename_i hcovers
    rw [List.filter_singleton, eq_false_of_ne_true hcovers, cond_false, List.append_nil]

theorem lastFlag_singleton (r : Registry) (call : ToggleCall) (place : Nat) (own : Bool) :
    r.lastFlag [call] place own = if r.coversAt call.covered place then call.enabled else own :=
  r.lastFlag_concat [] call place own

theorem lastFlag_swap {a b : ToggleCall} {place : Nat}
    (h : r.coversAt a.covered place = true → r.coversAt b.covered place = false) (own : Bool) :
    r.lastFlag [a, b] place own = r.lastFlag [b, a] place own := by
  calc
    r.lastFlag [a, b] place own
      = if r.coversAt b.covered place then b.enabled else r.lastFlag [a] place own :=
        r.lastFlag_concat [a] b place own
    _ = if r.coversAt a.covered place then a.enabled else r.lastFlag [b] place own := by
        rw [lastFlag_singleton, lastFlag_singleton]
        cases hcovers : r.coversAt a.covered place with
        | true => simp [h hcovers]
        | false => simp
    _ = r.lastFlag [b, a] place own := (r.lastFlag_concat [b] a place own).symm

/-- Of calls for one target the last one counts. -/
theorem lastFlag_repeated {calls : List ToggleCall} {last : ToggleCall}
    (h : ∀ call ∈ calls, call.covered = last.covered) (place : Nat) (own : Bool) :
    r.lastFlag (calls ++ [last]) place own = r.lastFlag [last] place own := by
  rw [lastFlag_concat, lastFlag_singleton]
  split
  · rfl
  · rename_i hcovers
    have hnone : ∀ call ∈ calls, ¬ r.coversAt call.covered place = true := by
      intro call hcall
      rw [h call hcall]
      exact hcovers
    rw [lastFlag, List.filter_eq_nil_iff.mpr hnone]
    rfl

/-- Calls that all set the same flag set it for whatever one of them covers. -/
theorem lastFlag_of_forall_enabled {calls : List ToggleCall} {enabled : Bool}
    (h : ∀ call ∈ calls, call.enabled = enabled) (place : Nat) (own : Bool) :
    r.lastFlag calls place own =
      if calls.any (r.coversAt ·.covered place) then enabled else own := by
  induction calls using List.reverseRecOn with
  | nil => rfl
  | append_singleton calls last ih =>
      have hlast : last.enabled = enabled := h last (by simp)
      rw [lastFlag_concat, ih fun call hcall => h call (by simp [hcall]), hlast, List.any_append,
        List.any_cons, List.any_nil, Bool.or_false]
      cases r.coversAt last.covered place <;> simp

/-- With distinct ids a list is covered by its id. -/
theorem coversAt_list_iff (hids : (r.lists.map (·.id)).Nodup) {place : Nat} {l : FilterList}
    (hl : r.lists[place]? = some l) (id : String) :
    r.coversAt (.list id) place = true ↔ id = l.id := by
  obtain ⟨hlt, rfl⟩ := List.getElem?_eq_some_iff.mp hl
  rw [coversAt, beq_iff_eq, List.findIdx?_eq_some_iff_getElem]
  constructor
  · rintro ⟨_, hid, -⟩
    exact (beq_iff_eq.mp hid).symm
  · rintro rfl
    refine ⟨hlt, beq_self_eq_true _, fun earlier hearlier => ?_⟩
    have hne := List.pairwise_iff_getElem.mp (List.pairwise_map.mp hids) earlier place
      (hearlier.trans hlt) hlt hearlier
    simpa using hne

end Registry

namespace Session

section Calls

variable {w : Type} [KeyValueStore w] [FilteringEngine w] (s : Session w)

/-- The session after a run of calls. -/
def afterCalls (calls : List ToggleCall) : Session w :=
  s.run (calls.map (·.operation))

theorem afterCalls_concat (calls : List ToggleCall) (last : ToggleCall) :
    s.afterCalls (calls ++ [last]) = (s.afterCalls calls).after last.operation := by
  rw [afterCalls, List.map_append, run, List.foldl_append]
  rfl

theorem registry_after_call (call : ToggleCall) :
    (s.after call.operation).registry = s.registry.flagged fun place own =>
      if s.registry.coversAt call.covered place then call.enabled else own := by
  rw [(s.after_eq call.operation).1, call.reading_operation, call.change_operation]
  exact s.registry.change_toggle_eq_flagged call.covered call.enabled

/-- Calls leave the last flag of every list and nothing else. -/
theorem registry_afterCalls (calls : List ToggleCall) :
    (s.afterCalls calls).registry = s.registry.flagged (s.registry.lastFlag calls) := by
  induction calls using List.reverseRecOn with
  | nil => exact s.registry.flagged_own.symm
  | append_singleton calls last ih =>
      simp only [afterCalls_concat, registry_after_call, ih, Registry.flagged_flagged,
        Registry.coversAt_flagged]
      congr 1
      funext place own
      rw [Registry.lastFlag_concat]

theorem knows_afterCalls (calls : List ToggleCall) (target : ToggleTarget) :
    (s.afterCalls calls).registry.Knows target ↔ s.registry.Knows target := by
  rw [registry_afterCalls]
  simp only [Registry.Knows, Registry.coversAt_flagged]

/-- A call for something unknown is answered, and that is all. -/
theorem perform_of_unknown {call : ToggleCall} (h : ¬ s.registry.Knows call.covered) :
    s.perform call.operation = (call.refusal, s) := by
  rw [← s.registry.installs_toggle_iff call.covered call.enabled, Bool.not_eq_true,
    ← call.installs_operation] at h
  have hlist {id : String} (hnone : (s.registry.list? id).isSome = false) (enabled : Bool) :
      s.toggleList id enabled = (false, s) := by
    rw [toggleList, if_pos (Option.isSome_eq_false_iff.mp hnone)]
  have hcategory {name : String} (hnone : (!(s.registry.listsIn name).isEmpty) = false)
      (enabled : Bool) : s.toggleCategory name enabled = (0, s) := by
    rw [Bool.not_eq_false', List.isEmpty_iff] at hnone
    simp [toggleCategory, hnone]
  cases call with
  | list id enabled =>
      rw [ToggleCall.operation, perform, hlist h]
      rfl
  | category name enabled =>
      rw [ToggleCall.operation, perform, hcategory h]
      rfl
  | either target enabled =>
      cases target with
      | list id =>
          rw [ToggleCall.operation, perform, toggle, hlist h]
          rfl
      | category name =>
          rw [ToggleCall.operation, perform, toggle, hcategory h]
          rfl

end Calls

/-- Two sessions are alike: one registry, one content of the store, and one list of rules in the
engine, provided that it has room for them. -/
structure Alike (s t : Session MemoryBackend) : Prop where
  registry : s.registry = t.registry
  store : s.world.store = t.world.store
  rules : s.registry.assembled.1.length ≤ s.world.engine.limit →
    s.world.engine.rules = t.world.engine.rules

section Memory

variable {s : Session MemoryBackend}

/-- A state that is saved after some calls leaves nothing of what they saved. -/
theorem write_afterCalls (s : Session MemoryBackend) (calls : List ToggleCall)
    (state : SavedState) :
    (SavedState.write state (s.afterCalls calls).world.store).2 =
      (SavedState.write state s.world.store).2 := by
  induction calls using List.reverseRecOn generalizing state with
  | nil => rfl
  | append_singleton calls last ih =>
      rw [afterCalls_concat, store_after, store_afterReading]
      split
      · rw [SavedState.write_write, ih]
      · exact ih state

theorem limit_afterCalls (s : Session MemoryBackend) (calls : List ToggleCall) :
    (s.afterCalls calls).world.engine.limit = s.world.engine.limit := by
  induction calls using List.reverseRecOn with
  | nil => rfl
  | append_singleton calls last ih => rw [afterCalls_concat, limit_after, ih]

/-- After calls the last of which is for something known, the store has the state of the registry,
and the engine has its rules if they fit. -/
theorem world_afterCalls (calls : List ToggleCall) {last : ToggleCall}
    (h : s.registry.Knows last.covered) :
    let t := s.afterCalls (calls ++ [last])
    t.world.store = (SavedState.write t.registry.savedState s.world.store).2 ∧
      (t.registry.assembled.1.length ≤ t.world.engine.limit →
        t.world.engine.rules = t.registry.assembled.1) := by
  intro t
  have ht : t = (s.afterCalls calls).after last.operation := s.afterCalls_concat calls last
  have hinstalls : last.operation.installs (s.afterCalls calls).registry = true := by
    rw [last.installs_operation, Registry.installs_toggle_iff, knows_afterCalls]
    exact h
  constructor
  · rw [ht, store_after, store_afterReading, last.saves_operation, if_pos hinstalls,
      write_afterCalls]
  · intro hfits
    have hengine : t.world.engine =
        (s.afterCalls calls).world.engine.replaced t.registry.assembled.1 := by
      rw [ht, memoryEngine_after, if_pos hinstalls]
    rw [hengine, MemoryEngine.limit_replaced] at hfits
    rw [hengine, MemoryEngine.replaced, if_pos hfits]

/-- Calls that agree on the last flag of every list come to one end. -/
theorem alike_afterCalls {calls calls' : List ToggleCall} (hcalls : calls ≠ [])
    (hcalls' : calls' ≠ []) (hknown : ∀ call ∈ calls ++ calls', s.registry.Knows call.covered)
    (hflags : ∀ place l, s.registry.lists[place]? = some l →
      s.registry.lastFlag calls place l.enabled = s.registry.lastFlag calls' place l.enabled) :
    (s.afterCalls calls).Alike (s.afterCalls calls') := by
  have hregistry : (s.afterCalls calls).registry = (s.afterCalls calls').registry := by
    rw [registry_afterCalls, registry_afterCalls, Registry.flagged_congr hflags]
  obtain ⟨init, last, rfl⟩ := (List.eq_nil_or_concat' calls).resolve_left hcalls
  obtain ⟨init', last', rfl⟩ := (List.eq_nil_or_concat' calls').resolve_left hcalls'
  obtain ⟨hstore, hrules⟩ := world_afterCalls init (hknown last (by simp))
  obtain ⟨hstore', hrules'⟩ := world_afterCalls init' (hknown last' (by simp))
  refine ⟨hregistry, ?_, ?_⟩
  · rw [hstore, hstore', hregistry]
  · intro hfits
    have hfits' : (s.afterCalls (init' ++ [last'])).registry.assembled.1.length ≤
        (s.afterCalls (init' ++ [last'])).world.engine.limit := by
      rw [limit_afterCalls, ← hregistry, ← limit_afterCalls s (init ++ [last])]
      exact hfits
    rw [hrules hfits, hrules' hfits', hregistry]

/-- A category is toggled by toggling its members, in any order. -/
theorem alike_members (hids : (s.registry.lists.map (·.id)).Nodup) {category : String}
    {enabled : Bool} {members : List ToggleCall} (hknown : s.registry.Knows (.category category))
    (hmembers : (members.map (·.covered)).Perm
      ((s.registry.listsIn category).map fun l => .list l.id))
    (henabled : ∀ call ∈ members, call.enabled = enabled) :
    (s.afterCalls [.category category enabled]).Alike (s.afterCalls members) := by
  have hmem (target : ToggleTarget) : target ∈ members.map (·.covered) ↔
      ∃ l ∈ s.registry.lists, l.category = category ∧ .list l.id = target := by
    simp [hmembers.mem_iff, Registry.listsIn, and_assoc]
  have hcovered {place : Nat} {l : FilterList} (hl : s.registry.lists[place]? = some l) :
      members.any (s.registry.coversAt ·.covered place) = (l.category == category) := by
    rw [Bool.eq_iff_iff, List.any_eq_true, beq_iff_eq]
    constructor
    · rintro ⟨call, hcall, hcovers⟩
      obtain ⟨l', hl', hcategory, htarget⟩ := (hmem _).mp (List.mem_map_of_mem hcall)
      rw [← htarget, Registry.coversAt_list_iff hids hl] at hcovers
      rw [← List.inj_on_of_nodup_map hids hl' (List.mem_of_getElem? hl) hcovers]
      exact hcategory
    · intro hcategory
      obtain ⟨call, hcall, htarget⟩ := List.mem_map.mp
        ((hmem (.list l.id)).mpr ⟨l, List.mem_of_getElem? hl, hcategory, rfl⟩)
      refine ⟨call, hcall, ?_⟩
      rw [htarget, Registry.coversAt_list_iff hids hl]
  have hnonempty : members ≠ [] := by
    rintro rfl
    obtain ⟨place, hcovers⟩ := hknown
    obtain ⟨l, hl, hcategory⟩ := (Option.any_eq_true _ _).mp hcovers
    have hnone := hcovered hl
    rw [List.any_nil, hcategory] at hnone
    cases hnone
  refine alike_afterCalls (List.cons_ne_nil _ _) hnonempty ?_ ?_
  · intro call hcall
    obtain rfl | hcall := List.mem_cons.mp hcall
    · exact hknown
    · obtain ⟨l, hl, -, htarget⟩ := (hmem _).mp (List.mem_map_of_mem hcall)
      obtain ⟨place, hplace⟩ := List.mem_iff_getElem?.mp hl
      exact ⟨place, htarget ▸ (Registry.coversAt_list_iff hids hplace l.id).mpr rfl⟩
  · intro place l hl
    rw [Registry.lastFlag_singleton, Registry.lastFlag_of_forall_enabled henabled, hcovered hl,
      ToggleCall.covered, Registry.coversAt, hl]
    rfl

/-- **Toggles are confluent.** Two runs of calls each of which covers a list come to one registry,
one content of the store and one list of rules in the engine if they agree on the last flag of every
list. So calls for disjoint targets commute, of repeated calls only the last one counts, as when a
list is disabled and then enabled, and a category is toggled by toggling its members one by one in
any order, ids being distinct. A call for something unknown is answered by false or zero and changes
nothing at all, neither the store nor the engine, whatever these are. -/
theorem toggles_are_confluent (s : Session MemoryBackend) :
    let r := s.registry
    (∀ calls calls' : List ToggleCall, calls ≠ [] → calls' ≠ [] →
      (∀ call ∈ calls ++ calls', r.Knows call.covered) →
      (∀ place l, r.lists[place]? = some l →
        r.lastFlag calls place l.enabled = r.lastFlag calls' place l.enabled) →
      (s.afterCalls calls).Alike (s.afterCalls calls')) ∧
    (∀ a b : ToggleCall, r.Knows a.covered → r.Knows b.covered →
      (∀ place, r.coversAt a.covered place = true → r.coversAt b.covered place = false) →
      (s.afterCalls [a, b]).Alike (s.afterCalls [b, a])) ∧
    (∀ (calls : List ToggleCall) (last : ToggleCall), r.Knows last.covered →
      (∀ call ∈ calls, call.covered = last.covered) →
      (s.afterCalls (calls ++ [last])).Alike (s.afterCalls [last])) ∧
    (∀ id, r.Knows (.list id) →
      (s.afterCalls [.list id false, .list id true]).Alike (s.afterCalls [.list id true])) ∧
    ((r.lists.map (·.id)).Nodup → ∀ (category : String) (enabled : Bool)
      (members : List ToggleCall), r.Knows (.category category) →
      (members.map (·.covered)).Perm ((r.listsIn category).map fun l => .list l.id) →
      (∀ call ∈ members, call.enabled = enabled) →
      (s.afterCalls [.category category enabled]).Alike (s.afterCalls members)) ∧
    ∀ {w : Type} [KeyValueStore w] [FilteringEngine w] (t : Session w) (call : ToggleCall),
      ¬ t.registry.Knows call.covered → t.perform call.operation = (call.refusal, t) := by
  intro r
  have hrepeated (calls : List ToggleCall) (last : ToggleCall) (hlast : r.Knows last.covered)
      (hcalls : ∀ call ∈ calls, call.covered = last.covered) :
      (s.afterCalls (calls ++ [last])).Alike (s.afterCalls [last]) := by
    apply alike_afterCalls (by simp) (by simp)
    · have hcovered : ∀ call ∈ calls ++ [last] ++ [last], call.covered = last.covered := by
        simpa [or_imp, forall_and] using hcalls
      intro call hcall
      exact hcovered call hcall ▸ hlast
    · intro place l _
      exact Registry.lastFlag_repeated hcalls place l.enabled
  refine ⟨fun _ _ => alike_afterCalls, ?_, hrepeated, ?_, ?_, perform_of_unknown⟩
  · intro a b ha hb hdisjoint
    apply alike_afterCalls (List.cons_ne_nil _ _) (List.cons_ne_nil _ _)
    · simp only [List.cons_append, List.nil_append, List.mem_cons, List.not_mem_nil, or_false]
      rintro call (rfl | rfl | rfl | rfl) <;> assumption
    · intro place l _
      exact Registry.lastFlag_swap (hdisjoint place) l.enabled
  · intro id hknown
    exact hrepeated [.list id false] (.list id true) hknown (by simp [ToggleCall.covered])
  · intro hids category enabled members hknown hmembers henabled
    exact alike_members hids hknown hmembers henabled

/-- Disabling a category and enabling one of its two lists comes to the same as disabling the other
one. -/
theorem toggles_are_confluent_sample :
    let s : Session MemoryBackend :=
      .ofRegistry (.ofManifest .sample default) ⟨.empty, .withLimit 30000⟩
    (s.afterCalls [.category "core" false, .list "ads" true]).Alike
        (s.afterCalls [.either (.list "privacy") false]) ∧
      (s.afterCalls [.either (.list "privacy") false]).registry.lists.map (·.enabled) =
        [true, false] ∧
      s.perform (.toggleList "none" true) = (.found false, s) := by
  intro s
  obtain ⟨hconfluent, -, -, -, -, hunknown⟩ := toggles_are_confluent s
  refine ⟨hconfluent _ _ (by simp) (by simp) ?_ ?_, by decide +kernel,
    hunknown s (.list "none" true) ?_⟩
  · have hfirst : ∀ call ∈ [ToggleCall.category "core" false, .list "ads" true],
        s.registry.coversAt call.covered 0 = true := by decide +kernel
    have hsecond : s.registry.coversAt (.list "privacy") 1 = true := by decide +kernel
    intro call hcall
    obtain hcall | hcall := List.mem_append.mp hcall
    · exact ⟨0, hfirst call hcall⟩
    · obtain rfl := List.mem_singleton.mp hcall
      exact ⟨1, hsecond⟩
  · have hflags : ∀ place < 2, s.registry.lastFlag
        [.category "core" false, .list "ads" true] place true =
          s.registry.lastFlag [.either (.list "privacy") false] place true := by decide +kernel
    have henabled : ∀ l ∈ s.registry.lists, l.enabled = true := by decide
    intro place l hl
    rw [henabled l (List.mem_of_getElem? hl)]
    exact hflags place (List.getElem?_eq_some_iff.mp hl).1
  · rintro ⟨place, hcovers⟩
    cases hcovers

end Memory

end Session

end Blocklist
