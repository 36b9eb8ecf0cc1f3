import Blocklist.Proofs.Answers
import Blocklist.Proofs.Faults
import Blocklist.Proofs.FreshIds

/-!
# Failures stay where they happen

Two runs of the same operations, of which one meets failures. What an engine does shows in no list,
cache, id, request or stored value, and of all answers only in the account of the applied rules.
What becomes of a write shows only in the answer of an explicit save, as long as nothing is read
back.

## Implementation notes

An operation is decided by the registry it finds and by what it reads first, so two sessions that
agree on both agree after it. What their engines or stores did in between does not come up again: a
session asks an engine for nothing but to replace all its rules, and reads its store only where the
operation says so.
-/

namespace Blocklist

namespace Session

/-- An answer without the account of what the engine took. -/
def Answer.apartFromEngine : Answer → Answer
  | .refreshed summary => .refreshed { summary with appliedRules := none }
  | .applied _ => .applied none
  | answer => answer

theorem apartFromEngine_answer (op : Operation) (r : Registry) (read : Except StoreError Nat)
    (applied : Option AssemblyStats) (saved : Except StoreError Unit) :
    (op.answer r read applied saved).apartFromEngine =
      (op.answer r read none saved).apartFromEngine := by
  cases op with
  | toggle target enabled => cases target <;> rfl
  | _ => rfl

/-- Only the answer of an explicit save tells what became of a write. -/
theorem answer_congr_saved {op : Operation} (h : op ≠ .save) (r : Registry)
    (read : Except StoreError Nat) (applied : Option AssemblyStats)
    (saved saved' : Except StoreError Unit) :
    op.answer r read applied saved = op.answer r read applied saved' := by
  cases op with
  | save => exact absurd rfl h
  | toggle target enabled => cases target <;> rfl
  | _ => rfl

/-! ### Sessions that read the same -/

section Alike

variable {w w' : Type} [KeyValueStore w] [KeyValueStore w']

/-- Two sessions for which a reading comes to the same. -/
structure ReadAlike (reading : Reading) (s : Session w) (t : Session w') : Prop where
  result : s.readingResult reading = t.readingResult reading
  registry : (s.afterReading reading).registry = (t.afterReading reading).registry

theorem readAlike_nothing {s : Session w} {t : Session w'} (h : s.registry = t.registry) :
    ReadAlike .nothing s t :=
  ⟨rfl, h⟩

/-- What a reading comes to is decided by what there is to read. -/
theorem readAlike_of_read {s : Session w} {t : Session w'} (h : s.registry = t.registry)
    (hmetadata : (SavedState.readMetadata s.world).1 = (SavedState.readMetadata t.world).1)
    (hstate : (SavedState.read s.world).1 = (SavedState.read t.world).1) (reading : Reading) :
    ReadAlike reading s t := by
  cases reading with
  | nothing => exact readAlike_nothing h
  | flags =>
      constructor
      · simp only [readingResult, adoptFlags_fst, hmetadata, h]
      · simp only [afterReading, registry_adoptFlags, hmetadata, h]
  | state =>
      constructor
      · simp only [readingResult, load_fst, hstate]
      · simp only [afterReading, registry_load, hstate, h]

variable [FilteringEngine w] [FilteringEngine w']

/-- An operation that reads the same does the same to the registry and requests the same. -/
theorem ReadAlike.after {s : Session w} {t : Session w'} {op : Operation}
    (h : ReadAlike op.reading s t) (hrequests : s.requests = t.requests) :
    (s.after op).registry = (t.after op).registry ∧
      (s.after op).requests = (t.after op).requests := by
  constructor
  · rw [(s.after_eq op).1, (t.after_eq op).1, h.registry]
  · rw [(s.perform_eq op).2, (t.perform_eq op).2, h.registry, hrequests]

end Alike

/-! ### Two engines -/

section Engines

variable {σ ε ε' : Type} [KeyValueStore σ] [FilteringEngine ε] [FilteringEngine ε']

/-- Two sessions that differ in nothing but their engines, and what was reported. -/
structure AlikeButEngine (s : Session (Backend σ ε)) (t : Session (Backend σ ε')) : Prop where
  registry : s.registry = t.registry
  requests : s.requests = t.requests
  store : s.world.store = t.world.store

variable {s : Session (Backend σ ε)} {t : Session (Backend σ ε')}

omit [FilteringEngine ε] [FilteringEngine ε'] in
theorem AlikeButEngine.readAlike (h : AlikeButEngine s t) (reading : Reading) :
    ReadAlike reading s t := by
  apply readAlike_of_read h.registry
  · rw [Backend.readMetadata_eq, Backend.readMetadata_eq, h.store]
  · rw [Backend.read_eq, Backend.read_eq, h.store]

/-- An operation keeps two sessions alike whatever their engines do with its rules. -/
theorem AlikeButEngine.after (h : AlikeButEngine s t) (op : Operation) :
    AlikeButEngine (s.after op) (t.after op) := by
  obtain ⟨hregistry, hrequests⟩ := (h.readAlike op.reading).after h.requests
  obtain ⟨-, hstore⟩ := afterReading_congr h.registry h.store op.reading
  refine ⟨hregistry, hrequests, ?_⟩
  rw [s.store_after, t.store_after, hregistry, hstore, h.registry]

theorem AlikeButEngine.run (h : AlikeButEngine s t) (ops : List Operation) :
    AlikeButEngine (s.run ops) (t.run ops) := by
  induction ops generalizing s t with
  | nil => exact h
  | cons op ops ih => exact ih (h.after op)

/-- What they answer differs in the account of the applied rules only. -/
theorem AlikeButEngine.perform (h : AlikeButEngine s t) (op : Operation) :
    (s.perform op).1.apartFromEngine = (t.perform op).1.apartFromEngine := by
  have hread := h.readAlike op.reading
  obtain ⟨-, hstore⟩ := afterReading_congr h.registry h.store op.reading
  rw [(s.perform_eq op).1, (t.perform_eq op).1, apartFromEngine_answer,
    apartFromEngine_answer op _ _ (applied _ (t.afterReading op.reading).world), hread.registry,
    hread.result, Backend.write_eq, Backend.write_eq, hstore]

end Engines

/-! ### Two stores -/

section Stores

variable {σ σ' ε : Type} [KeyValueStore σ] [KeyValueStore σ'] [FilteringEngine ε]

/-- Two sessions that differ in nothing but their stores, and what was reported. -/
structure AlikeButStore (s : Session (Backend σ ε)) (t : Session (Backend σ' ε)) : Prop where
  registry : s.registry = t.registry
  requests : s.requests = t.requests
  engine : s.world.engine = t.world.engine

variable {s : Session (Backend σ ε)} {t : Session (Backend σ' ε)}

/-- An operation that reads the same keeps two sessions alike whatever becomes of its writes. -/
theorem AlikeButStore.after (h : AlikeButStore s t) {op : Operation}
    (hread : ReadAlike op.reading s t) : AlikeButStore (s.after op) (t.after op) := by
  obtain ⟨hregistry, hrequests⟩ := hread.after h.requests
  refine ⟨hregistry, hrequests, ?_⟩
  rw [s.engine_after, t.engine_after, hregistry, h.registry, h.engine]

theorem AlikeButStore.run (h : AlikeButStore s t) {ops : List Operation}
    (hops : ∀ op ∈ ops, op.reading = .nothing) : AlikeButStore (s.run ops) (t.run ops) := by
  induction ops generalizing s t with
  | nil => exact h
  | cons op ops ih =>
      have hread : ReadAlike op.reading s t := by
        rw [hops op List.mem_cons_self]
        exact readAlike_nothing h.registry
      exact ih (h.after hread) fun op hop => hops op (List.mem_cons_of_mem _ hop)

/-- They answer the same, but for an explicit save. -/
theorem AlikeButStore.perform (h : AlikeButStore s t) {op : Operation}
    (hread : ReadAlike op.reading s t) (hop : op ≠ .save) :
    (s.perform op).1 = (t.perform op).1 := by
  have hengine : (s.afterReading op.reading).world.engine =
      (t.afterReading op.reading).world.engine := by
    rw [engine_afterReading, engine_afterReading, h.engine]
  rw [(s.perform_eq op).1, (t.perform_eq op).1, hread.registry, hread.result, applied, applied,
    Backend.installRules_fst, Backend.installRules_fst, hengine]
  exact answer_congr_saved hop _ _ _ _ _

/-- A run in which at most the first operation reads keeps two sessions alike that read the same. -/
theorem AlikeButStore.run_of_tail (h : AlikeButStore s t)
    (hreads : ∀ reading, ReadAlike reading s t) {before : List Operation} {op : Operation}
    (hops : ∀ o ∈ (before ++ [op]).tail, o.reading = .nothing) :
    AlikeButStore (s.run before) (t.run before) ∧
      ReadAlike op.reading (s.run before) (t.run before) := by
  cases before with
  | nil => exact ⟨h, hreads op.reading⟩
  | cons first rest =>
      have hrest : ∀ o ∈ rest, o.reading = .nothing := fun o ho =>
        hops o (List.mem_append_left _ ho)
      have hop : op.reading = .nothing :=
        hops op (List.mem_append_right _ (List.mem_singleton_self _))
      have hrun := (h.after (hreads first.reading)).run hrest
      refine ⟨hrun, ?_⟩
      rw [hop]
      exact readAlike_nothing hrun.registry

end Stores

/-- A store whose writes fail reads as the store behind it does. -/
theorem readAlike_writeFaulty {δ ε : Type} [KeyValueStore δ] (r : Registry) (device : δ)
    (fault : Nat → Option StoreError) (engine : ε) (reading : Reading) :
    ReadAlike reading (ofRegistry r (⟨⟨⟨device, fault, 0⟩⟩, engine⟩ : Backend (WriteFaulty δ) ε))
      (ofRegistry r (⟨device, engine⟩ : Backend δ ε)) := by
  let lift (device : δ) : WriteFaulty δ := ⟨⟨device, fault, 0⟩⟩
  have hget (key : String) (device : δ) : KeyValueStore.get key (lift device) =
      ((KeyValueStore.get key device).1, lift (KeyValueStore.get key device).2) := rfl
  refine readAlike_of_read ?_ ?_ ?_ reading
  · rfl
  · rw [Backend.readMetadata_eq, Backend.readMetadata_eq]
    exact congrArg Prod.fst (SavedState.readDict_lift lift hget _ _ device)
  · rw [Backend.read_eq, Backend.read_eq]
    exact congrArg Prod.fst (SavedState.read_lift lift hget device)

/-- After every run, and for every operation that follows it: whatever two engines do with the calls
that come to them, the registries, the requests and the stores are the same, and so are the answers
but for the account of the applied rules. And if nothing after the first operation reads the store,
whichever writes fail, the registries, the requests and the engines are the same as when every write
reaches the store, and so are the answers but for that of an explicit save. -/
theorem failures_stay_contained (manifest : Manifest) (settings : Settings)
    (before : List Operation) (op : Operation) :
    (∀ {σ ε ε' : Type} [KeyValueStore σ] [FilteringEngine ε] [FilteringEngine ε'] (store : σ)
      (engine : ε) (engine' : ε'),
      let r := Registry.ofManifest manifest settings
      let s := (ofRegistry r (⟨store, engine⟩ : Backend σ ε)).run before
      let t := (ofRegistry r (⟨store, engine'⟩ : Backend σ ε')).run before
      (s.perform op).1.apartFromEngine = (t.perform op).1.apartFromEngine ∧
        (s.after op).registry = (t.after op).registry ∧
        (s.after op).requests = (t.after op).requests ∧
        (s.after op).world.store = (t.after op).world.store) ∧
    ((∀ o ∈ (before ++ [op]).tail, o.reading = .nothing) →
      ∀ {δ ε : Type} [KeyValueStore δ] [FilteringEngine ε] (device : δ)
        (fault : Nat → Option StoreError) (engine : ε),
        let r := Registry.ofManifest manifest settings
        let s := (ofRegistry r
          (⟨⟨⟨device, fault, 0⟩⟩, engine⟩ : Backend (WriteFaulty δ) ε)).run before
        let t := (ofRegistry r (⟨device, engine⟩ : Backend δ ε)).run before
        (op ≠ .save → (s.perform op).1 = (t.perform op).1) ∧
          (s.after op).registry = (t.after op).registry ∧
          (s.after op).requests = (t.after op).requests ∧
          (s.after op).world.engine = (t.after op).world.engine) := by
  constructor
  · intro σ ε ε' _ _ _ store engine engine' r s t
    have hrun : AlikeButEngine s t :=
      AlikeButEngine.run (⟨rfl, rfl, rfl⟩ :
        AlikeButEngine (ofRegistry r ⟨store, engine⟩) (ofRegistry r ⟨store, engine'⟩)) before
    have hafter := hrun.after op
    exact ⟨hrun.perform op, hafter.registry, hafter.requests, hafter.store⟩
  · intro hops δ ε _ _ device fault engine r s t
    have hstart : AlikeButStore
        (ofRegistry r (⟨⟨⟨device, fault, 0⟩⟩, engine⟩ : Backend (WriteFaulty δ) ε))
        (ofRegistry r (⟨device, engine⟩ : Backend δ ε)) := ⟨rfl, rfl, rfl⟩
    obtain ⟨hrun, hread⟩ := hstart.run_of_tail (readAlike_writeFaulty r device fault engine) hops
    have hafter := hrun.after hread
    exact ⟨hrun.perform hread, hafter.registry, hafter.requests, hafter.engine⟩

/-- A registry starts from an empty store, and toggles a list. The first save fails, and the engine
holds what it holds when the save succeeds. -/
theorem failures_stay_contained_sample :
    let before : List Operation := [.start Fleet.sampleServers]
    let op : Operation := .toggleList "ads" false
    let fault : Nat → Option StoreError := fun write => if write = 0 then some .json else none
    let engine := MemoryEngine.withLimit 30000
    let r := Registry.ofManifest .sample default
    let s := ofRegistry r
      (⟨⟨⟨.empty, fault, 0⟩⟩, engine⟩ : Backend (WriteFaulty MemoryStore) MemoryEngine)
    let t := ofRegistry r (⟨.empty, engine⟩ : Backend MemoryStore MemoryEngine)
    (∀ o ∈ (before ++ [op]).tail, o.reading = .nothing) ∧ op ≠ .save ∧
      (s.run before).world.store.device = .empty ∧
      ((s.run before).perform op).1 = ((t.run before).perform op).1 ∧
      ((s.run before).after op).world.engine = ((t.run before).after op).world.engine := by
  intro before op fault engine r s t
  have hops : ∀ o ∈ (before ++ [op]).tail, o.reading = .nothing := by
    intro o ho
    rw [List.mem_singleton.mp ho]
    rfl
  have hop : op ≠ .save := by simp [op]
  obtain ⟨-, hwrites⟩ := failures_stay_contained .sample default before op
  obtain ⟨hanswer, -, -, hengine⟩ := hwrites hops MemoryStore.empty fault engine
  have hempty : (s.run before).world.store.device = .empty := by
    rw [run, List.foldl_cons, List.foldl_nil, store_after]
    rfl
  exact ⟨hops, hop, hempty, hanswer hop, hengine⟩

end Session

end Blocklist
