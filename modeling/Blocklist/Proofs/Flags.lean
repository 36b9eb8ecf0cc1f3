import Blocklist.Proofs.Absorption
import Blocklist.Proofs.SavedState

/-!
# Flags of lists, in registries and in stores

Which flag a list has after each kind of change, and which flag is stored for it after a registry
was saved. A refresh changes no flag; a state or flags that are read decide those that are stored.

## Implementation notes

A toggle is one pass over the lists here, whether it covers a list or a category. For a list this
takes distinct ids, since the registry stops at the first list with the id.
-/

namespace Blocklist

/-- Whether a target covers a list. -/
def ToggleTarget.covers (target : ToggleTarget) (l : FilterList) : Bool :=
  match target with
  | .list id => l.id == id
  | .category name => l.category == name

theorem ToggleTarget.covers_pristine (target : ToggleTarget) (l : FilterList) :
    target.covers l.pristine = target.covers l := by
  cases target <;> rfl

namespace Registry

/-- The flag of a list. -/
def flag? (r : Registry) (id : String) : Option Bool :=
  (r.list? id).map (·.enabled)

/-- The registry after a toggle. -/
def toggled (r : Registry) (target : ToggleTarget) (enabled : Bool) : Registry :=
  { r with lists := r.lists.map fun l => if target.covers l then { l with enabled } else l }

variable {r : Registry}

theorem setListFlag_eq_map {id : String} {lists : List FilterList}
    (hids : (lists.map (·.id)).Nodup) (enabled : Bool) :
    setListFlag id enabled lists =
      lists.map fun l => if l.id == id then { l with enabled } else l := by
  induction lists with
  | nil => rfl
  | cons l rest ih =>
      obtain ⟨hnew, hrest⟩ := List.nodup_cons.mp hids
      rw [setListFlag, List.map_cons]
      split
      · rename_i hid
        have hkeep : ∀ l' ∈ rest, (if l'.id == id then { l' with enabled } else l') = l' := by
          intro l' hl'
          have hne : l'.id ≠ id := fun heq =>
            hnew (List.mem_map.mpr ⟨l', hl', heq.trans (beq_iff_eq.mp hid).symm⟩)
          rw [if_neg (by simpa using hne)]
        rw [List.map_congr_left hkeep, List.map_id']
      · rw [ih hrest]

/-- With distinct ids a toggle changes exactly the lists that it covers. -/
theorem change_toggle (hids : (r.lists.map (·.id)).Nodup) (target : ToggleTarget) (enabled : Bool) :
    (Session.Operation.toggle target enabled).change r = r.toggled target enabled := by
  cases target with
  | list id =>
      rw [Session.Operation.change, withList, setListFlag_eq_map hids]
      rfl
  | category category => rfl

/-- A toggle takes effect outside the registry if it covers a list. -/
theorem installs_toggle (r : Registry) (target : ToggleTarget) (enabled : Bool) :
    (Session.Operation.toggle target enabled).installs r = r.lists.any target.covers := by
  cases target with
  | list id => exact List.isSome_find?
  | category name =>
      rw [Session.Operation.installs, listsIn, Bool.eq_iff_iff]
      simp [ToggleTarget.covers]

theorem find?_id_map {f : FilterList → FilterList} (hf : ∀ l, (f l).id = l.id)
    (lists : List FilterList) (id : String) :
    (lists.map f).find? (·.id == id) = (lists.find? (·.id == id)).map f := by
  rw [List.find?_map]
  simp only [Function.comp_def, hf]

theorem flag?_toggled (r : Registry) (target : ToggleTarget) (enabled : Bool) (id : String) :
    (r.toggled target enabled).flag? id =
      (r.list? id).map fun l => if target.covers l then enabled else l.enabled := by
  rw [flag?, list?, toggled, find?_id_map (fun l => by split <;> rfl), Option.map_map]
  apply congrArg (Option.map · (r.list? id))
  funext l
  rw [Function.comp_apply]
  split <;> rfl

/-- A flag that is stored is taken over with its state; another one stays. -/
theorem flag?_restored (r : Registry) (state : SavedState) (id : String) :
    (r.restored state).flag? id =
      (r.flag? id).map fun own => ((state.metadata.get? id).bind (·.enabled)).getD own := by
  rw [flag?, flag?, list?, list?, restored, find?_id_map (fun l => by split <;> rfl)]
  cases hfound : r.lists.find? (·.id == id) with
  | none => rfl
  | some l =>
      have hid : l.id = id := by simpa using List.find?_some hfound
      simp only [Option.map_some, hid]
      cases state.metadata.get? id <;> rfl

theorem flag?_withFlags (r : Registry) (metadata : Dict ListMetadata) (id : String) :
    (r.withFlags metadata).flag? id =
      (r.flag? id).map fun own => ((metadata.get? id).bind (·.enabled)).getD own := by
  have hfind := find?_id_map
    (f := fun l => { l with enabled := (adopted? metadata l).getD l.enabled })
    (fun _ => rfl) r.lists id
  rw [flag?, flag?, list?, list?, withFlags, hfind]
  cases hfound : r.lists.find? (·.id == id) with
  | none => rfl
  | some l =>
      have hid : l.id = id := by simpa using List.find?_some hfound
      simp only [Option.map_some, adopted?, hid]
      cases (metadata.get? id).bind (·.enabled) with
      | none => rfl
      | some enabled => cases enabled <;> cases l.enabled <;> rfl

/-- A flag is found among the flags of all lists. -/
theorem flag?_eq_lookup (r : Registry) (id : String) :
    r.flag? id = (r.lists.map fun l => (l.id, l.enabled)).lookup id := by
  rw [flag?, list?]
  induction r.lists with
  | nil => rfl
  | cons l rest ih =>
      rw [List.find?_cons, List.map_cons, List.lookup_cons, ← ih, Bool.beq_comm]
      cases id == l.id <;> rfl

/-- A refresh changes no flag. -/
theorem flags_refresh (r : Registry) (chosen : FilterList → Nat → Bool) (force : Bool)
    (servers : Servers) :
    ((r.refresh chosen force servers).registry.lists.map fun l => (l.id, l.enabled)) =
      r.lists.map fun l => (l.id, l.enabled) := by
  apply map_lists_refresh
  intro l cache ids delivery
  rw [FilterList.id_absorb, FilterList.enabled_absorb]

theorem flag?_refresh (r : Registry) (chosen : FilterList → Nat → Bool) (force : Bool)
    (servers : Servers) (id : String) :
    (r.refresh chosen force servers).registry.flag? id = r.flag? id := by
  rw [flag?_eq_lookup, flags_refresh, flag?_eq_lookup]

/-- No state is saved under an id that no list has. -/
theorem get?_metadata_of_not_mem {id : String} (hid : id ∉ r.lists.map (·.id)) :
    r.metadata.get? id = none := by
  apply Option.eq_none_iff_forall_ne_some.mpr
  intro m hm
  obtain ⟨l, hl, heq⟩ := List.mem_map.mp (Dict.mem_of_mem_ofList (Dict.get?_eq_some_iff.mp hm))
  exact hid (List.mem_map.mpr ⟨l, hl, congrArg Prod.fst heq⟩)

/-- The states that are saved are those of the lists. -/
theorem get?_metadata_eq (hids : (r.lists.map (·.id)).Nodup) (id : String) :
    r.metadata.get? id = (r.list? id).map (·.metadata) := by
  cases hfound : r.list? id with
  | none =>
      apply get?_metadata_of_not_mem
      intro hmem
      obtain ⟨l, hl, rfl⟩ := List.mem_map.mp hmem
      exact List.find?_eq_none.mp hfound l hl (by simp)
  | some l =>
      have hid : l.id = id := by simpa using List.find?_some hfound
      rw [← hid]
      exact get?_metadata hids (List.mem_of_find?_eq_some hfound)

/-- A list of the catalogue is in the registry. -/
theorem exists_list?_eq_some {lists : List FilterList} (hids : (lists.map (·.id)).Nodup)
    (h : r.catalogue = lists) {x : FilterList} (hx : x ∈ lists) :
    ∃ l, r.list? x.id = some l ∧ l.pristine = x := by
  rw [← h] at hx
  obtain ⟨l, hl, rfl⟩ := List.mem_map.mp hx
  exact ⟨l, list?_eq_some (nodup_ids_of_catalogue hids h) hl, rfl⟩

/-- A toggle sets the flags of the lists it covers. -/
theorem flag?_change_toggle {lists : List FilterList} (hids : (lists.map (·.id)).Nodup)
    (h : r.catalogue = lists) {x : FilterList} (hx : x ∈ lists) (target : ToggleTarget)
    (enabled : Bool) :
    ((Session.Operation.toggle target enabled).change r).flag? x.id =
      if target.covers x then some enabled else r.flag? x.id := by
  obtain ⟨l, hl, rfl⟩ := exists_list?_eq_some hids h hx
  rw [change_toggle (nodup_ids_of_catalogue hids h), flag?_toggled, flag?, hl,
    target.covers_pristine]
  simp only [Option.map_some]
  split <;> rfl

/-- Whether a toggle takes effect is a matter of the catalogue. -/
theorem installs_toggle_catalogue (r : Registry) (target : ToggleTarget) (enabled : Bool) :
    (Session.Operation.toggle target enabled).installs r = r.catalogue.any target.covers := by
  rw [installs_toggle, catalogue, List.any_map]
  exact List.any_congr rfl fun l => (target.covers_pristine l).symm

/-- Whether an operation saves the state is a matter of the catalogue too. -/
theorem saves_eq_of_catalogue {r' : Registry} (h : r.catalogue = r'.catalogue)
    (op : Session.Operation) : op.saves r = op.saves r' := by
  have htoggle : ∀ target : ToggleTarget, (Session.Operation.toggle target true).installs r =
      (Session.Operation.toggle target true).installs r' := by
    intro target
    rw [installs_toggle_catalogue, installs_toggle_catalogue, h]
  cases op with
  | refreshList id force servers => exact htoggle (.list id)
  | toggleList id enabled => exact htoggle (.list id)
  | toggleCategory category enabled => exact htoggle (.category category)
  | toggle target enabled =>
      cases target with
      | list id => exact htoggle (.list id)
      | category category => exact htoggle (.category category)
  | _ => rfl

/-- A list is among the enabled ones exactly if its flag says so. -/
theorem exists_enabled_iff (hids : (r.lists.map (·.id)).Nodup) {id : String} {own : Bool}
    (h : r.flag? id = some own) :
    (∃ l ∈ r.lists, l.enabled = true ∧ l.id = id) ↔ own = true := by
  obtain ⟨l, hl, rfl⟩ := Option.map_eq_some_iff.mp h
  have hid : l.id = id := by simpa using List.find?_some hl
  have hmem : l ∈ r.lists := List.mem_of_find?_eq_some hl
  constructor
  · rintro ⟨l', hmem', henabled, hid'⟩
    rw [List.inj_on_of_nodup_map hids hmem hmem' (hid.trans hid'.symm)]
    exact henabled
  · exact fun henabled => ⟨l, hmem, henabled, hid⟩

end Registry

namespace MemoryStore

/-- The flag that is stored for a list. -/
def flag? (store : MemoryStore) (id : String) : Option Bool :=
  match (SavedState.readMetadata store).1 with
  | .ok metadata => (metadata.get? id).bind (·.enabled)
  | .error _ => none

/-- Whether a state can be read from a store. -/
def Readable (store : MemoryStore) : Prop :=
  ∃ state, (SavedState.read store).1 = .ok state

theorem readable_empty : Readable .empty :=
  ⟨.empty, rfl⟩

theorem readable_write (state : SavedState) (store : MemoryStore) :
    (SavedState.write state store).2.Readable :=
  ⟨state, congrArg Prod.fst (SavedState.read_write state store)⟩

theorem flag?_of_read {store : MemoryStore} {state : SavedState}
    (h : (SavedState.read store).1 = .ok state) (id : String) :
    store.flag? id = (state.metadata.get? id).bind (·.enabled) := by
  rw [flag?, SavedState.readMetadata_of_read h]

/-- The flags that are saved are those of the lists. -/
theorem flag?_write {r : Registry} (hids : (r.lists.map (·.id)).Nodup) (store : MemoryStore)
    (id : String) : (SavedState.write r.savedState store).2.flag? id = r.flag? id := by
  rw [flag?, SavedState.readMetadata_write]
  dsimp only
  rw [Registry.savedState, Registry.get?_metadata_eq hids, Registry.flag?]
  cases r.list? id <;> rfl

end MemoryStore

end Blocklist
