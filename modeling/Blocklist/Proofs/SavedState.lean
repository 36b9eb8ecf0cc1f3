import Blocklist.Proofs.Faults
import Blocklist.Proofs.Invariant
import Blocklist.Proofs.Json.Records

/-!
# A saved state is read back

A store in memory that took a state gives back exactly that state, and reading changes nothing in
it. When some of its calls fail, what is still read is the state that was last written.

## Implementation notes

`MemoryStore.Holds` speaks of what a reader would get, so it also covers a store in which nothing
was saved yet: it is read as the empty state.
-/

namespace Blocklist

namespace SavedState

theorem metadataKey_ne_cacheKey : metadataKey ≠ cacheKey := by
  decide

/-- A dictionary that stands in the store is read as it was written. -/
theorem readDict_of_get? {α : Type} [JsonCodec α] [LawfulCodec α] {key : String} {d : Dict α}
    {store : MemoryStore} (h : store.items.get? key = some (Json.of d).merged) :
    readDict α key store = (.ok d, store) := by
  have hread : (Json.of d).merged.as? (Dict α) = some d :=
    LawfulCodec.as_of Json.transparent_merged d
  simp only [readDict, KeyValueStore.get, h, hread]

theorem write_memory (state : SavedState) (store : MemoryStore) :
    write state store =
      (.ok (), ⟨(store.items.insert metadataKey (Json.of state.metadata).merged).insert cacheKey
        (Json.of state.cache).merged⟩) :=
  rfl

/-- Nothing is left of a state once another one is written. -/
theorem write_write (earlier state : SavedState) (store : MemoryStore) :
    (write state (write earlier store).2).2 = (write state store).2 := by
  rw [write_memory, write_memory, write_memory, MemoryStore.mk.injEq]
  apply Dict.eq_of_get?_eq
  intro key
  simp only [Dict.get?_insert]
  split
  · rfl
  · split <;> rfl

theorem readMetadata_write (state : SavedState) (store : MemoryStore) :
    readMetadata (write state store).2 = (.ok state.metadata, (write state store).2) := by
  apply readDict_of_get?
  rw [write_memory, Dict.get?_insert, if_neg metadataKey_ne_cacheKey, Dict.get?_insert_self]

/-- What was written is read. -/
theorem read_write (state : SavedState) (store : MemoryStore) :
    read (write state store).2 = (.ok state, (write state store).2) := by
  have hcache : readDict ListArtifacts cacheKey (write state store).2 =
      (.ok state.cache, (write state store).2) := by
    apply readDict_of_get?
    rw [write_memory, Dict.get?_insert_self]
  simp only [read, readMetadata_write, hcache]

/-- Reading leaves a store in memory as it is. -/
theorem readDict_memory_snd (α : Type) [JsonCodec α] (key : String) (store : MemoryStore) :
    (readDict α key store).2 = store := by
  simp only [readDict, KeyValueStore.get]
  cases store.items.get? key with
  | none => rfl
  | some v =>
      dsimp only
      split <;> rfl

theorem readMetadata_memory_snd (store : MemoryStore) : (readMetadata store).2 = store :=
  readDict_memory_snd ListMetadata metadataKey store

theorem read_memory_snd (store : MemoryStore) : (read store).2 = store := by
  have hmetadata := readMetadata_memory_snd store
  have hcache := readDict_memory_snd ListArtifacts cacheKey store
  rw [read]
  split
  · rename_i h
    rwa [h] at hmetadata
  · rename_i h
    rw [h] at hmetadata
    dsimp only at hmetadata
    subst hmetadata
    split <;> rename_i h' <;> rwa [h'] at hcache

/-- A state that is read has the states of the lists that are read. -/
theorem readMetadata_of_read {store : MemoryStore} {state : SavedState}
    (h : (read store).1 = .ok state) : (readMetadata store).1 = .ok state.metadata := by
  rw [read] at h
  split at h
  · cases h
  · rename_i hmetadata
    rw [hmetadata]
    split at h
    · cases h
    · exact congrArg (fun s => Except.ok (SavedState.metadata s)) (Except.ok.inj h)

end SavedState

/-! ### Calls that fail -/

/-- A store in front of one in memory: what it reads is there, and reading changes nothing there. It
may fail at any time. -/
structure ReadsThrough {σ : Type} [KeyValueStore σ] (device : σ → MemoryStore) : Prop where
  device_get : ∀ key s, device (KeyValueStore.get key s).2 = device s
  get_eq : ∀ key s v, (KeyValueStore.get key s).1 = .ok v → v = (device s).items.get? key

namespace ReadsThrough

open SavedState

variable {σ : Type} [KeyValueStore σ] {device : σ → MemoryStore} (h : ReadsThrough device)
include h

/-- A dictionary read in spite of failing calls is the one that is there. -/
theorem readDict (α : Type) [JsonCodec α] (key : String) (s : σ) :
    device (readDict α key s).2 = device s ∧
      ∀ d, (SavedState.readDict α key s).1 = .ok d →
        (SavedState.readDict α key (device s)).1 = .ok d := by
  have hdevice := h.device_get key s
  have hget := h.get_eq key s
  rw [SavedState.readDict]
  split
  · rename_i hcall
    rw [hcall] at hdevice
    exact ⟨hdevice, fun d hd => by cases hd⟩
  · rename_i hcall
    rw [hcall] at hdevice hget
    refine ⟨hdevice, fun d hd => ?_⟩
    simp only [SavedState.readDict, KeyValueStore.get, ← hget none rfl]
    exact hd
  · rename_i v s' hcall
    rw [hcall] at hdevice hget
    simp only [SavedState.readDict, KeyValueStore.get, ← hget (some v) rfl]
    split
    · exact ⟨hdevice, fun d hd => hd⟩
    · exact ⟨hdevice, fun d hd => by cases hd⟩

/-- A state read in spite of failing calls is the one that is there. -/
theorem read (s : σ) :
    device (SavedState.read s).2 = device s ∧
      ∀ state, (SavedState.read s).1 = .ok state →
        (SavedState.read (device s)).1 = .ok state := by
  obtain ⟨hdevice, hmetadata⟩ := h.readDict ListMetadata metadataKey s
  rw [SavedState.read]
  split
  · rename_i hread
    rw [readMetadata] at hread
    rw [hread] at hdevice
    exact ⟨hdevice, fun state hstate => by cases hstate⟩
  · rename_i metadata s' hread
    rw [readMetadata] at hread
    rw [hread] at hdevice hmetadata
    dsimp only at hdevice hmetadata
    obtain ⟨hdevice', hcache⟩ := h.readDict ListArtifacts cacheKey s'
    rw [hdevice] at hdevice' hcache
    split
    · rename_i hread'
      rw [hread'] at hdevice'
      exact ⟨hdevice', fun state hstate => by cases hstate⟩
    · rename_i cache s'' hread'
      rw [hread'] at hdevice' hcache
      refine ⟨hdevice', fun state hstate => ?_⟩
      have hm : readMetadata (device s) = (.ok metadata, device s) :=
        Prod.ext (hmetadata metadata rfl) (readMetadata_memory_snd (device s))
      have hc : SavedState.readDict ListArtifacts cacheKey (device s) = (.ok cache, device s) :=
        Prod.ext (hcache cache rfl) (readDict_memory_snd _ _ (device s))
      simp only [SavedState.read, hm, hc]
      exact hstate

end ReadsThrough

namespace Faulty

open SavedState

/-- Calls that fail change nothing, and those that do not reach the store. -/
theorem readsThrough : ReadsThrough (device : Faulty MemoryStore StoreError → MemoryStore) where
  device_get key s := by
    rw [KeyValueStore.get, instKeyValueStoreStoreError]
    dsimp only
    cases hfault : s.fault s.calls with
    | some error => rw [call_of_fault hfault]; rfl
    | none => rw [call_of_sound hfault]; rfl
  get_eq key s v hv := by
    rw [KeyValueStore.get, instKeyValueStoreStoreError] at hv
    dsimp only at hv
    cases hfault : s.fault s.calls with
    | some error =>
        rw [call_of_fault hfault] at hv
        cases hv
    | none =>
        rw [call_of_sound hfault] at hv
        exact (Except.ok.inj hv).symm

/-- A call that does not fail reads what is there. -/
theorem readDict_of_sound (α : Type) [JsonCodec α] (key : String)
    {s : Faulty MemoryStore StoreError} (h : s.fault s.calls = none) :
    readDict α key s = ((readDict α key s.device).1, s.passed 1) := by
  simp only [readDict, KeyValueStore.get, call_of_sound h]
  cases s.device.items.get? key with
  | none => rfl
  | some v =>
      dsimp only
      split <;> rfl

/-- A state is read by two calls. -/
theorem read_of_sound {s : Faulty MemoryStore StoreError} (h : s.fault s.calls = none)
    (h' : s.fault (s.calls + 1) = none) : (SavedState.read s).1 = (SavedState.read s.device).1 := by
  have hmetadata : readMetadata s = ((readMetadata s.device).1, s.passed 1) :=
    readDict_of_sound ListMetadata metadataKey h
  have hcache : readDict ListArtifacts cacheKey (s.passed 1) =
      ((readDict ListArtifacts cacheKey s.device).1, (s.passed 1).passed 1) :=
    readDict_of_sound ListArtifacts cacheKey h'
  have hdevice : readMetadata s.device = ((readMetadata s.device).1, s.device) :=
    Prod.ext rfl (readMetadata_memory_snd s.device)
  rw [SavedState.read, SavedState.read, hmetadata, hdevice]
  cases (readMetadata s.device).1 with
  | error error => rfl
  | ok metadata =>
      dsimp only
      rw [hcache]
      cases hread : readDict ListArtifacts cacheKey s.device with
      | mk result store => cases result <;> rfl

/-- A write that is not refused reaches the store. -/
theorem write_of_sound (state : SavedState) {s : Faulty MemoryStore StoreError}
    (h : s.fault s.calls = none) :
    write state s = (.ok (), { s.passed 1 with device := (write state s.device).2 }) := by
  rw [write, KeyValueStore.set, instKeyValueStoreStoreError]
  dsimp only
  rw [call_of_sound h]
  rfl

/-- A write either reaches the store or leaves it as it is. -/
theorem write_device (state : SavedState) (s : Faulty MemoryStore StoreError) :
    (write state s).2.device = (write state s.device).2 ∨ (write state s).2.device = s.device := by
  cases hfault : s.fault s.calls with
  | some error =>
      right
      rw [write, KeyValueStore.set, instKeyValueStoreStoreError]
      dsimp only
      rw [call_of_fault hfault]
      rfl
  | none =>
      left
      rw [write_of_sound state hfault]

/-- A write that succeeds reached the store. -/
theorem device_of_write_ok {state : SavedState} {s s' : Faulty MemoryStore StoreError}
    (h : write state s = (.ok (), s')) : s'.device = (write state s.device).2 := by
  cases hfault : s.fault s.calls with
  | some error =>
      rw [write, KeyValueStore.set, instKeyValueStoreStoreError] at h
      dsimp only at h
      rw [call_of_fault hfault] at h
      cases h
  | none =>
      rw [write_of_sound state hfault] at h
      exact (congrArg (·.2.device) h).symm

end Faulty

/-! ### Properties of what is stored -/

namespace MemoryStore

/-- Whatever is read from the store has a property. -/
def Holds (J : SavedState → Prop) (store : MemoryStore) : Prop :=
  ∀ state, (SavedState.read store).1 = .ok state → J state

theorem holds_empty {J : SavedState → Prop} (h : J .empty) : Holds J .empty := by
  intro state hstate
  cases hstate
  exact h

theorem holds_write {J : SavedState → Prop} {state : SavedState} (h : J state)
    (store : MemoryStore) : Holds J (SavedState.write state store).2 := by
  intro state' hstate
  rw [SavedState.read_write] at hstate
  cases hstate
  exact h

/-- What every saved state has, every state that is read has, whichever calls fail. -/
theorem storeInvariant_holds (J : SavedState → Prop) :
    StoreInvariant (fun s : Faulty MemoryStore StoreError => s.device.Holds J) J where
  read {s} h := (Faulty.readsThrough.read s).1 ▸ h
  state {s state} h hread := h state ((Faulty.readsThrough.read s).2 state hread)
  readMetadata {s} h := (Faulty.readsThrough.readDict ListMetadata SavedState.metadataKey s).1 ▸ h
  write {s state} h hstate := by
    rcases Faulty.write_device state s with hdevice | hdevice
    · exact hdevice ▸ holds_write hstate s.device
    · exact hdevice ▸ h

/-- A state that has a property can be read from the store. -/
def Keeps (J : SavedState → Prop) (store : MemoryStore) : Prop :=
  ∃ state, (SavedState.read store).1 = .ok state ∧ J state

theorem keeps_write {J : SavedState → Prop} {state : SavedState} (h : J state)
    (store : MemoryStore) : Keeps J (SavedState.write state store).2 :=
  ⟨state, congrArg Prod.fst (SavedState.read_write state store), h⟩

end MemoryStore

/-- A store in front of one in memory whose writes all arrive there. -/
def WritesThrough {σ : Type} [KeyValueStore σ] (device : σ → MemoryStore) : Prop :=
  ∀ state s, device (SavedState.write state s).2 = (SavedState.write state (device s)).2

/-- What every saved state has, the state that is kept has, as long as writes do not fail. -/
theorem ReadsThrough.storeInvariant_keeps {σ : Type} [KeyValueStore σ] {device : σ → MemoryStore}
    (h : ReadsThrough device) (hwrites : WritesThrough device) (J : SavedState → Prop) :
    StoreInvariant (fun s => (device s).Keeps J) J where
  read {s} hs := (h.read s).1 ▸ hs
  state {s state} hs hread := by
    obtain ⟨state', hstate', hJ⟩ := hs
    have hequal := Except.ok.inj (hstate'.symm.trans ((h.read s).2 state hread))
    exact hequal ▸ hJ
  readMetadata {s} hs := (h.readDict ListMetadata SavedState.metadataKey s).1 ▸ hs
  write {s state} _ hstate := hwrites state s ▸ MemoryStore.keeps_write hstate (device s)

namespace ReadFaulty

theorem readsThrough :
    ReadsThrough fun s : ReadFaulty MemoryStore => s.device where
  device_get key s := Faulty.readsThrough.device_get key s.toFaulty
  get_eq key s v hv := Faulty.readsThrough.get_eq key s.toFaulty v hv

theorem writesThrough : WritesThrough fun s : ReadFaulty MemoryStore => s.device :=
  fun _ _ => rfl

end ReadFaulty

end Blocklist
