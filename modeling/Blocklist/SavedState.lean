import Blocklist.Cache
import Blocklist.Manifest
import Blocklist.Store

/-!
# The saved state of the lists

What a store keeps of the lists: under one key the state of every list, under another one what was
compiled for every list. Both are dictionaries by the ids of the lists, and both are written at once.
-/

namespace Blocklist

/-- What a store keeps of the lists. -/
structure SavedState where
  metadata : Dict ListMetadata
  cache : RuleCache

namespace SavedState

/-- The state of a store in which nothing was saved. -/
def empty : SavedState :=
  ⟨.empty, .empty⟩

/-- The key of the states of the lists. -/
def metadataKey : String := "filterListsCache"

/-- The key of what was compiled for the lists. -/
def cacheKey : String := "compiledRulesCache"

variable {w : Type} [KeyValueStore w]

/-- Read the dictionary under a key. Nothing stands for an empty one. -/
def readDict (α : Type) [JsonCodec α] (key : String) (world : w) :
    Except StoreError (Dict α) × w :=
  match KeyValueStore.get key world with
  | (.error error, world) => (.error error, world)
  | (.ok none, world) => (.ok .empty, world)
  | (.ok (some v), world) =>
    match v.as? (Dict α) with
    | some d => (.ok d, world)
    | none => (.error .json, world)

/-- Read the states of the lists. -/
def readMetadata (world : w) : Except StoreError (Dict ListMetadata) × w :=
  readDict ListMetadata metadataKey world

/-- Read the whole saved state. -/
def read (world : w) : Except StoreError SavedState × w :=
  match readMetadata world with
  | (.error error, world) => (.error error, world)
  | (.ok metadata, world) =>
    match readDict ListArtifacts cacheKey world with
    | (.error error, world) => (.error error, world)
    | (.ok cache, world) => (.ok ⟨metadata, cache⟩, world)

/-- The values that stand for a state. -/
def items (state : SavedState) : List (String × Json) :=
  [(metadataKey, (Json.of state.metadata).merged), (cacheKey, (Json.of state.cache).merged)]

/-- Write the whole state. -/
def write (state : SavedState) (world : w) : Except StoreError Unit × w :=
  KeyValueStore.set state.items world

end SavedState

end Blocklist
