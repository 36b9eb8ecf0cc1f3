import Blocklist.Disk.Basic
import Blocklist.Json.Codec
import Blocklist.Json.Parser
import Blocklist.Json.Printer

/-!
# Key-value stores

Where the state of the lists is kept between runs: values under keys, read one at a time and written
several at once. A store may live in memory or in one JSON object in a file. Both read back what was
written last.

## Implementation notes

`KeyValueStore` leaves open what a store does: a call returns its result and the store after it, so a
store may also fail, or change by itself. `Interruptible` is a store whose calls can be made to fail.
-/

namespace Blocklist

/-- Why a store cannot be read or written. -/
inductive StoreError where
  | io (path : String) (fault : IoFault)
  /-- What is stored is not JSON of the expected form. -/
  | json
  deriving DecidableEq, Repr

namespace StoreError

/-- The error in words. -/
def message : StoreError → String
  | .io path fault => s!"Store I/O failed for '{path}': {fault.message}"
  | .json => "Stored value is not valid JSON: unexpected form"

end StoreError

/-- Stores of JSON values under keys. -/
class KeyValueStore (σ : Type) where
  /-- The value under a key. -/
  get : String → σ → Except StoreError (Option Json) × σ
  /-- Write values under keys, the last of those under one key. -/
  set : List (String × Json) → σ → Except StoreError Unit × σ

/-- A store in memory. -/
structure MemoryStore where
  items : Dict Json
  deriving Inhabited

namespace MemoryStore

/-- The store without values. -/
def empty : MemoryStore :=
  ⟨.empty⟩

instance : KeyValueStore MemoryStore where
  get key store := (.ok (store.items.get? key), store)
  set items store := (.ok (), ⟨store.items.insertAll items⟩)

end MemoryStore

/-- The values that a file holds as one JSON object. A file that is missing holds none. -/
def Disk.readItems (disk : Disk) (path : String) : Except StoreError (Dict Json) :=
  match disk.read path with
  | .error .notFound => .ok .empty
  | .error fault => .error (.io path fault)
  | .ok content =>
    match content.text?.bind Json.valueOf? with
    | some (.object members) => .ok (Dict.ofList members)
    | _ => .error .json

/-- Write values to the file that holds them as one JSON object. The values it held stay. -/
def Disk.writeItems (disk : Disk) (path : String) (items : List (String × Json)) :
    Except StoreError Unit × Disk :=
  match disk.readItems path with
  | .error error => (.error error, disk)
  | .ok stored =>
    let text := (Json.object (stored.insertAll items).entries).compact
    let (result, disk) := disk.replace path text
    (result.mapError fun (path, fault) => .io path fault, disk)

/-- A store in one file of a disk. -/
structure FileStore where
  disk : Disk
  path : String
  deriving Inhabited

namespace FileStore

instance : KeyValueStore FileStore where
  get key store := ((store.disk.readItems store.path).map (·.get? key), store)
  set items store :=
    let (result, disk) := store.disk.writeItems store.path items
    (result, { store with disk })

end FileStore

/-- A store whose reads and writes fail while an error is set for them. -/
structure InterruptibleStore (σ : Type) where
  store : σ
  readError : Option StoreError
  writeError : Option StoreError
  deriving Inhabited

namespace InterruptibleStore

instance {σ : Type} [KeyValueStore σ] : KeyValueStore (InterruptibleStore σ) where
  get key s :=
    match s.readError with
    | some error => (.error error, s)
    | none =>
      let (result, store) := KeyValueStore.get key s.store
      (result, { s with store })
  set items s :=
    match s.writeError with
    | some error => (.error error, s)
    | none =>
      let (result, store) := KeyValueStore.set items s.store
      (result, { s with store })

end InterruptibleStore

end Blocklist
