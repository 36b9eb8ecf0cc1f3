import Blocklist.Backend
import Blocklist.Engine
import Blocklist.Installation
import Blocklist.SavedState

/-!
# A store beside an engine

What is done with a store beside an engine is done with the store, and what is done with the engine
is done with the engine: neither sees the other.
-/

namespace Blocklist

/-! ### Reading through a store

A store that hands its reads on to one inside it reads what the one inside reads. `lift` puts a
store inside. -/

namespace SavedState

variable {σ δ : Type} [KeyValueStore σ] [KeyValueStore δ] (lift : δ → σ)

theorem readDict_lift
    (hget : ∀ key store, KeyValueStore.get key (lift store) =
      ((KeyValueStore.get key store).1, lift (KeyValueStore.get key store).2))
    (α : Type) [JsonCodec α] (key : String) (store : δ) :
    readDict α key (lift store) = ((readDict α key store).1, lift (readDict α key store).2) := by
  simp only [readDict, hget]
  rcases KeyValueStore.get key store with ⟨_ | _ | v, store'⟩
  · rfl
  · rfl
  · cases h : v.as? (Dict α) <;> simp [h]

theorem read_lift
    (hget : ∀ key store, KeyValueStore.get key (lift store) =
      ((KeyValueStore.get key store).1, lift (KeyValueStore.get key store).2))
    (store : δ) : read (lift store) = ((read store).1, lift (read store).2) := by
  simp only [read, readMetadata, readDict_lift lift hget]
  rcases readDict ListMetadata metadataKey store with ⟨_ | metadata, store'⟩
  · rfl
  · dsimp only
    rw [readDict_lift lift hget]
    rcases readDict ListArtifacts cacheKey store' with ⟨_ | cache, store''⟩ <;> rfl

end SavedState

/-- Assembled rules are installed by putting them in place of all that an engine holds. -/
theorem installRules_eq {ε : Type} [FilteringEngine ε] (lists : List (List Rule)) (budget : Nat)
    (engine : ε) :
    (installRules lists budget engine).1 =
        (replaceRules (assemble lists budget).1 engine).1.map (fun _ => (assemble lists budget).2) ∧
      (installRules lists budget engine).2.1 = (replaceRules (assemble lists budget).1 engine).2 := by
  simp only [installRules]
  rcases replaceRules (assemble lists budget).1 engine with ⟨_ | _, engine'⟩ <;> exact ⟨rfl, rfl⟩

namespace Backend

section Engine

variable {σ ε : Type} [FilteringEngine ε]

theorem replaceRules_eq (rules : List Rule) (b : Backend σ ε) :
    replaceRules rules b =
      ((replaceRules rules b.engine).1, { b with engine := (replaceRules rules b.engine).2 }) := by
  simp only [replaceRules, FilteringEngine.ruleIds, FilteringEngine.update]
  cases h : FilteringEngine.ruleIds b.engine with
  | mk result engine => cases result <;> rfl

theorem installRules_fst (lists : List (List Rule)) (budget : Nat) (b : Backend σ ε) :
    (installRules lists budget b).1 = (installRules lists budget b.engine).1 := by
  rw [(installRules_eq lists budget b).1, (installRules_eq lists budget b.engine).1, replaceRules_eq]

end Engine

section Store

variable {σ ε : Type} [KeyValueStore σ]

theorem write_eq (state : SavedState) (b : Backend σ ε) :
    SavedState.write state b =
      ((SavedState.write state b.store).1,
        { b with store := (SavedState.write state b.store).2 }) :=
  rfl

theorem readDict_eq (α : Type) [JsonCodec α] (key : String) (b : Backend σ ε) :
    SavedState.readDict α key b =
      ((SavedState.readDict α key b.store).1,
        { b with store := (SavedState.readDict α key b.store).2 }) :=
  SavedState.readDict_lift (fun store => { b with store }) (fun _ _ => rfl) α key b.store

theorem readMetadata_eq (b : Backend σ ε) :
    SavedState.readMetadata b =
      ((SavedState.readMetadata b.store).1,
        { b with store := (SavedState.readMetadata b.store).2 }) :=
  readDict_eq ListMetadata SavedState.metadataKey b

theorem read_eq (b : Backend σ ε) :
    SavedState.read b =
      ((SavedState.read b.store).1, { b with store := (SavedState.read b.store).2 }) :=
  SavedState.read_lift (fun store => { b with store }) (fun _ _ => rfl) b.store

end Store

end Backend

end Blocklist
