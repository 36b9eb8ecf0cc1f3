import Blocklist.Proofs.EngineMirror
import Blocklist.Proofs.Flags

/-!
# Sessions on a shared store

What the operations of a session do to the flags of its registry and to those in the store, which
other sessions may have changed. An operation that saves stores the flags of its own registry,
whatever was stored before; stored flags are taken over by a load and by a cycle only.

## Implementation notes

The store is one in memory, so no call of it fails, and `MemoryStore.Readable` says that what it
holds can be read. `Session.Sound` gathers what every operation keeps on such a store:
`Session.Flagged` and `Session.Prevails` say what the store and the engine have to do with one flag
of the registry.
-/

namespace Blocklist

/-- A store and an engine in memory. -/
abbrev MemoryBackend :=
  Backend MemoryStore MemoryEngine

namespace Session

section Store

variable {ε : Type} [FilteringEngine ε] {s : Session (Backend MemoryStore ε)}
variable {lists : List FilterList}

omit [FilteringEngine ε] in
/-- Reading leaves the store alone. -/
theorem store_afterReading (reading : Reading) :
    (s.afterReading reading).world.store = s.world.store := by
  cases reading with
  | nothing => rfl
  | flags => simp [afterReading, Backend.readMetadata_eq, SavedState.readMetadata_memory_snd]
  | state => simp [afterReading, Backend.read_eq, SavedState.read_memory_snd]

/-- What can be read stays so. -/
theorem readable_after (op : Operation) (h : s.world.store.Readable) :
    (s.after op).world.store.Readable := by
  rw [store_after, store_afterReading]
  split
  · exact MemoryStore.readable_write _ _
  · exact h

theorem catalogue_after (op : Operation) : (s.after op).registry.catalogue = s.registry.catalogue :=
  (after_invariant (Registry.catalogue_invariant s.registry.catalogue) StoreInvariant.trivial
    (fun _ _ => .intro) rfl .intro).1

/-- An operation that saves stores the flags of the registry, and no other one changes what is
stored. -/
theorem storedFlag_after (hids : (lists.map (·.id)).Nodup) (h : s.registry.catalogue = lists)
    (op : Operation) (id : String) :
    (s.after op).world.store.flag? id =
      if op.saves s.registry then (s.after op).registry.flag? id else s.world.store.flag? id := by
  have hids' : ((s.after op).registry.lists.map (·.id)).Nodup :=
    Registry.nodup_ids_of_catalogue hids ((catalogue_after op).trans h)
  rw [store_after, store_afterReading]
  split
  · exact MemoryStore.flag?_write hids' _ id
  · rfl

omit [FilteringEngine ε] in
/-- A load takes over the flags that are stored. -/
theorem flag?_load (h : s.world.store.Readable) (id : String) :
    s.load.2.registry.flag? id =
      (s.registry.flag? id).map fun own => (s.world.store.flag? id).getD own := by
  obtain ⟨state, hstate⟩ := h
  rw [registry_load, Backend.read_eq, hstate, MemoryStore.flag?_of_read hstate]
  exact Registry.flag?_restored s.registry state id

omit [FilteringEngine ε] in
/-- So does a reading of the flags alone. -/
theorem flag?_adoptFlags (h : s.world.store.Readable) (id : String) :
    s.adoptFlags.2.registry.flag? id =
      (s.registry.flag? id).map fun own => (s.world.store.flag? id).getD own := by
  obtain ⟨state, hstate⟩ := h
  rw [registry_adoptFlags, Backend.readMetadata_eq, SavedState.readMetadata_of_read hstate,
    MemoryStore.flag?_of_read hstate]
  exact Registry.flag?_withFlags s.registry state.metadata id

/-- A toggle sets the flags of the lists it covers, in the registry. -/
theorem flag?_toggle (hids : (lists.map (·.id)).Nodup) (h : s.registry.catalogue = lists)
    {x : FilterList} (hx : x ∈ lists) (target : ToggleTarget) (enabled : Bool) :
    (s.after (.toggle target enabled)).registry.flag? x.id =
      if target.covers x then some enabled else s.registry.flag? x.id := by
  rw [(s.after_eq (.toggle target enabled)).1]
  exact Registry.flag?_change_toggle hids h hx target enabled

/-- A toggle that covers any list stores the flags of all lists as the registry has them. -/
theorem storedFlag_toggle (hids : (lists.map (·.id)).Nodup) (h : s.registry.catalogue = lists)
    {x : FilterList} (hx : x ∈ lists) (target : ToggleTarget) (enabled : Bool) :
    (s.after (.toggle target enabled)).world.store.flag? x.id =
      if lists.any target.covers then
        if target.covers x then some enabled else s.registry.flag? x.id
      else s.world.store.flag? x.id := by
  have hsaves : (Operation.toggle target enabled).saves s.registry = lists.any target.covers :=
    h ▸ s.registry.installs_toggle_catalogue target enabled
  rw [storedFlag_after hids h, hsaves, flag?_toggle hids h hx]

/-- The stored flag of a list after another session loaded what is stored and then toggled. -/
theorem storedFlag_load_toggle (hids : (lists.map (·.id)).Nodup) (h : s.registry.catalogue = lists)
    (hread : s.world.store.Readable) {x : FilterList} (hx : x ∈ lists) (target : ToggleTarget)
    (enabled : Bool) {stored : Bool}
    (hflag : target.covers x ∨ s.world.store.flag? x.id = some stored) :
    (s.run [.load, .toggle target enabled]).world.store.flag? x.id =
      some (if target.covers x then enabled else stored) := by
  have hcatalogue : (s.after .load).registry.catalogue = lists := (catalogue_after .load).trans h
  have hstore : (s.after .load).world.store = s.world.store := store_afterReading .state
  obtain ⟨l, hl, _⟩ := Registry.exists_list?_eq_some hids h hx
  have hown : s.registry.flag? x.id = some l.enabled := congrArg (Option.map FilterList.enabled) hl
  have hloaded : (s.after .load).registry.flag? x.id =
      some ((s.world.store.flag? x.id).getD l.enabled) :=
    (flag?_load hread x.id).trans (congrArg (Option.map _) hown)
  show ((s.after .load).after (.toggle target enabled)).world.store.flag? x.id = _
  rw [storedFlag_toggle hids hcatalogue hx, hloaded, hstore]
  cases hcovers : target.covers x with
  | true =>
      have hany : lists.any target.covers = true := List.any_eq_true.mpr ⟨x, hx, hcovers⟩
      simp [hany]
  | false =>
      have hstored := hflag.resolve_left (by simp [hcovers])
      simp [hstored]

end Store

/-- A cycle reads the flags and then refreshes, whether or not the reading succeeds. -/
theorem cycle_eq {w : Type} [KeyValueStore w] [FilteringEngine w] (s : Session w) (force : Bool)
    (servers : Servers) :
    (s.cycle force servers).registry =
        (s.run [.adoptFlags, .refreshAll force servers]).registry ∧
      (s.cycle force servers).world = (s.run [.adoptFlags, .refreshAll force servers]).world := by
  rw [cycle]
  split <;> rename_i h <;> simp [run, after, perform, h]

/-- A session on the lists of a manifest whose store can be read and whose engine takes as many
rules as it is given. -/
structure Sound (lists : List FilterList) (s : Session MemoryBackend) : Prop where
  catalogue : s.registry.catalogue = lists
  readable : s.world.store.Readable
  fits : s.registry.budget ≤ s.world.engine.limit

section Sound

variable {lists : List FilterList} {s s' : Session MemoryBackend}

/-- The engine after an operation, by whether the operation brings rules. -/
theorem memoryEngine_after (s : Session MemoryBackend) (op : Operation) :
    (s.after op).world.engine =
      if op.installs s.registry then s.world.engine.replaced (s.after op).registry.assembled.1
      else s.world.engine := by
  rw [engine_after]
  split
  · exact s.world.engine.replaceRules_eq (nodup_assemble _ _)
  · rfl

theorem limit_after (op : Operation) : (s.after op).world.engine.limit = s.world.engine.limit := by
  rw [memoryEngine_after]
  split
  · exact MemoryEngine.limit_replaced _ _
  · rfl

/-- Every operation keeps a session sound. -/
theorem Sound.after (h : s.Sound lists) (op : Operation) : (s.after op).Sound lists where
  catalogue := (catalogue_after op).trans h.catalogue
  readable := readable_after op h.readable
  fits := by
    rw [budget_after, limit_after]
    exact h.fits

theorem Sound.run (h : s.Sound lists) (ops : List Operation) : (s.run ops).Sound lists := by
  induction ops generalizing s with
  | nil => exact h
  | cons op ops ih => exact ih (h.after op)

/-- Reports and requests do not matter. -/
theorem Sound.congr (h : s.Sound lists) (hregistry : s'.registry = s.registry)
    (hworld : s'.world = s.world) : s'.Sound lists where
  catalogue := hregistry ▸ h.catalogue
  readable := hworld ▸ h.readable
  fits := hregistry ▸ hworld ▸ h.fits

theorem Sound.cycle (h : s.Sound lists) (force : Bool) (servers : Servers) :
    (s.cycle force servers).Sound lists :=
  have heq := s.cycle_eq force servers
  (h.run [.adoptFlags, .refreshAll force servers]).congr heq.1 heq.2

/-- The flags of a list in the registry and in the store. -/
structure Flagged (s : Session MemoryBackend) (id : String) (own stored : Bool) : Prop where
  own : s.registry.flag? id = some own
  stored : s.world.store.flag? id = some stored

/-- A flag of a list is the one of the registry and the one that is stored. The engine holds the
assembled rules of the sources that are cached for the enabled lists, and the list is one of these if
the flag says so. -/
structure Prevails (s : Session MemoryBackend) (id : String) (flag : Bool) : Prop
    extends s.Flagged id flag flag where
  installed :
    let enabled := s.registry.lists.filter (·.enabled)
    let cached := enabled.filterMap fun l => s.registry.cache.get? l.id
    s.world.engine.rules =
      (assemble (cached.flatMap fun a => a.sources.map (·.rules)) s.registry.budget).1
  listed : (∃ l ∈ s.registry.lists, l.enabled = true ∧ l.id = id) ↔ flag = true

theorem Prevails.congr {id : String} {flag : Bool} (h : s.Prevails id flag)
    (hregistry : s'.registry = s.registry) (hworld : s'.world = s.world) : s'.Prevails id flag where
  own := hregistry ▸ h.own
  stored := hworld ▸ h.stored
  installed := hregistry ▸ hworld ▸ h.installed
  listed := hregistry ▸ h.listed

/-- A refresh brings the flags of the registry to the store and to the engine. -/
theorem Sound.prevails_refreshAll (h : s.Sound lists) (hids : (lists.map (·.id)).Nodup)
    {id : String} {own : Bool} (hown : s.registry.flag? id = some own) (force : Bool)
    (servers : Servers) : (s.after (.refreshAll force servers)).Prevails id own := by
  have hafter := h.after (.refreshAll force servers)
  have hflag : (s.after (.refreshAll force servers)).registry.flag? id = some own := by
    rw [(s.after_eq (.refreshAll force servers)).1]
    exact (Registry.flag?_refresh _ _ _ _ id).trans hown
  have hfits : (s.after (.refreshAll force servers)).registry.assembled.1.length ≤
      s.world.engine.limit := by
    rw [← limit_after (.refreshAll force servers)]
    exact (length_assemble_le _ _).trans hafter.fits
  refine ⟨⟨hflag, ?_⟩, ?_, ?_⟩
  · rw [storedFlag_after hids h.catalogue]
    exact hflag
  · have hengine := s.memoryEngine_after (.refreshAll force servers)
    rw [hengine, Operation.installs, if_pos rfl, MemoryEngine.replaced, if_pos hfits,
      Registry.assembled, Registry.ruleSlices_eq]
  · have hids' := Registry.nodup_ids_of_catalogue hids hafter.catalogue
    exact Registry.exists_enabled_iff hids' hflag

/-- After a cycle the flag that was stored prevails. -/
theorem Flagged.prevails_cycle {id : String} {own stored : Bool} (hflags : s.Flagged id own stored)
    (h : s.Sound lists) (hids : (lists.map (·.id)).Nodup) (force : Bool) (servers : Servers) :
    (s.cycle force servers).Prevails id stored := by
  have hadopted : (s.after .adoptFlags).registry.flag? id = some stored := by
    refine (flag?_adoptFlags h.readable id).trans ?_
    rw [hflags.own, hflags.stored]
    rfl
  have hrefreshed := (h.after .adoptFlags).prevails_refreshAll hids hadopted force servers
  have heq := s.cycle_eq force servers
  exact hrefreshed.congr heq.1 heq.2

end Sound

end Session

end Blocklist
