import Blocklist.Proofs.FileStore
import Blocklist.Proofs.RoundTrip

/-!
# Stores that serve every call

A store that can be read and written whenever it is asked gives back the state that was last written.
A store in memory is one as soon as what it holds can be read, and so is a store in a file that holds
the same where files can be written.

## Implementation notes

`Faultless` is said of states and not of the values that stand for them, so what is proved with it
holds of a store in memory, of one in a file and of any other one that keeps states.
-/

namespace Blocklist

/-- Stores none of whose calls fails, with the states that they hold: a state is read until another one
is written. -/
structure Faultless {σ : Type} [KeyValueStore σ] (Holds : σ → SavedState → Prop) : Prop where
  read : ∀ {store state}, Holds store state →
    (SavedState.read store).1 = .ok state ∧ Holds (SavedState.read store).2 state
  readMetadata : ∀ {store state}, Holds store state →
    (SavedState.readMetadata store).1 = .ok state.metadata ∧
      Holds (SavedState.readMetadata store).2 state
  write : ∀ {store state} (next : SavedState), Holds store state →
    (SavedState.write next store).1 = .ok () ∧ Holds (SavedState.write next store).2 next

/-- What every saved state has, the state that is held has. -/
theorem Faultless.storeInvariant {σ : Type} [KeyValueStore σ] {Holds : σ → SavedState → Prop}
    (h : Faultless Holds) (J : SavedState → Prop) :
    StoreInvariant (fun store => ∃ state, Holds store state ∧ J state) J where
  read := fun ⟨state, hheld, hJ⟩ => ⟨state, (h.read hheld).2, hJ⟩
  state := by
    rintro store state ⟨held, hheld, hJ⟩ hread
    exact Except.ok.inj ((h.read hheld).1.symm.trans hread) ▸ hJ
  readMetadata := fun ⟨state, hheld, hJ⟩ => ⟨state, (h.readMetadata hheld).2, hJ⟩
  write := fun ⟨_, hheld, _⟩ hJ => ⟨_, (h.write _ hheld).2, hJ⟩

namespace MemoryStore

/-- A state can be read from a store. -/
def Shows (store : MemoryStore) (state : SavedState) : Prop :=
  (SavedState.read store).1 = .ok state

theorem shows_write (state : SavedState) (store : MemoryStore) :
    (SavedState.write state store).2.Shows state :=
  congrArg Prod.fst (SavedState.read_write state store)

theorem faultless : Faultless Shows where
  read {store _} h := ⟨h, (SavedState.read_memory_snd store).symm ▸ h⟩
  readMetadata {store _} h :=
    ⟨SavedState.readMetadata_of_read h, (SavedState.readMetadata_memory_snd store).symm ▸ h⟩
  write {store _} next _ := ⟨rfl, shows_write next store⟩

end MemoryStore

/-- The values that stand for a state are read back, under any name. -/
theorem SavedState.readsBack_items (state : SavedState) :
    ∀ e ∈ state.items, Json.ReadsBack e.1 e.2 := by
  have hform : ∀ {α : Type} [JsonCodec α] [PlainCodec α], PlainCodec.depth α < Json.maxDepth →
      ∀ (a : α) (name : String), Json.ReadsBack name (Json.of a).merged := by
    intro α _ _ hdepth a name
    obtain ⟨hplain, hmerged⟩ := (PlainCodec.plain a).merged
    exact hplain.readsBack hdepth hmerged name
  simp only [items, List.forall_mem_cons]
  exact ⟨hform (by decide) _ _, hform (by decide) _ _, List.forall_mem_nil _⟩

namespace FileStore

variable {file : FileStore} {memory : MemoryStore}

/-- A state can be read from a store in memory that the file mirrors. -/
def Shows (file : FileStore) (state : SavedState) : Prop :=
  ∃ memory, file.Mirrors memory ∧ memory.Shows state

namespace Mirrors

theorem readDict_eq (h : file.Mirrors memory) (α : Type) [JsonCodec α] (key : String) :
    SavedState.readDict α key file = ((SavedState.readDict α key memory).1, file) := by
  have hget : KeyValueStore.get key file = (.ok (memory.items.get? key), file) := by
    rw [KeyValueStore.get, instKeyValueStore]
    dsimp only
    rw [h.content]
    rfl
  have hmemory : KeyValueStore.get key memory = (.ok (memory.items.get? key), memory) := rfl
  simp only [SavedState.readDict, hget, hmemory]
  cases memory.items.get? key with
  | none => rfl
  | some v =>
      dsimp only
      split <;> rfl

theorem read_eq (h : file.Mirrors memory) :
    SavedState.read file = ((SavedState.read memory).1, file) := by
  have hmetadata := SavedState.readMetadata_memory_snd memory
  simp only [SavedState.read, SavedState.readMetadata, h.readDict_eq] at hmetadata ⊢
  rcases hread : SavedState.readDict ListMetadata SavedState.metadataKey memory with
    ⟨_ | metadata, memory'⟩
  · rfl
  · rw [hread] at hmetadata
    dsimp only at hmetadata ⊢
    subst hmetadata
    rw [h.readDict_eq]
    rcases SavedState.readDict ListArtifacts SavedState.cacheKey memory' with ⟨_ | cache, memory''⟩
    · rfl
    · rfl

theorem write (h : file.Mirrors memory) (state : SavedState) :
    (SavedState.write state file).1 = .ok () ∧
      (SavedState.write state file).2.Mirrors (SavedState.write state memory).2 :=
  ⟨StoreAnswer.set.inj (h.answer_eq (.set state.items)),
    h.perform (.set state.items) state.readsBack_items⟩

end Mirrors

theorem faultless : Faultless Shows where
  read := by
    rintro file state ⟨memory, hmirrors, hshows⟩
    rw [hmirrors.read_eq]
    exact ⟨hshows, memory, hmirrors, hshows⟩
  readMetadata := by
    rintro file state ⟨memory, hmirrors, hshows⟩
    rw [SavedState.readMetadata, hmirrors.readDict_eq]
    exact ⟨SavedState.readMetadata_of_read hshows, memory, hmirrors, hshows⟩
  write := by
    rintro file state next ⟨memory, hmirrors, -⟩
    obtain ⟨hok, hwritten⟩ := hmirrors.write next
    exact ⟨hok, _, hwritten, MemoryStore.shows_write next memory⟩

end FileStore

end Blocklist
