import Blocklist.Proofs.Json.Rereading
import Blocklist.Proofs.Replacement
import Blocklist.Store

/-!
# The store in a file behaves as the store in memory

Whatever is asked of a store in a file and of a store in memory that hold the same values, the two
answer the same: the value under a key is the last one that was set for it, or the one from before.
A file that holds no object answers nothing and stays as it is.

## Implementation notes

That files can be written is asked of the disk once, before the first call (`Disk.Accepts`). A value
need not be read back as it was written, for a real number may come back as its neighbour and a
value may nest too deep; so that is asked of each key and value by itself (`Json.ReadsBack`). That
it holds of the object of all of them is proved.
-/

namespace Blocklist

/-- What is asked of a store. -/
inductive StoreCall where
  | get (key : String)
  | set (items : List (String × Json))

/-- What a store answers. -/
inductive StoreAnswer where
  | get (result : Except StoreError (Option Json))
  | set (result : Except StoreError Unit)

namespace StoreCall

variable {σ : Type} [KeyValueStore σ]

/-- Ask a store. -/
def perform (store : σ) : StoreCall → StoreAnswer × σ
  | .get key => (KeyValueStore.get key store).map .get id
  | .set items => (KeyValueStore.set items store).map .set id

/-- The store after a run of calls. -/
def run (store : σ) (calls : List StoreCall) : σ :=
  calls.foldl (fun store call => (call.perform store).2) store

/-- The keys and values that a call sets. -/
def written : StoreCall → List (String × Json)
  | .get _ => []
  | .set items => items

/-- The value that a run of calls set last for a key. -/
def lastSet? (calls : List StoreCall) (key : String) : Option Json :=
  (calls.flatMap written).reverse.lookup key

/-- The answer of a store that cannot be read. -/
def failed (error : StoreError) : StoreCall → StoreAnswer
  | .get _ => .get (.error error)
  | .set _ => .set (.error error)

/-- A store in memory puts what is set over what it held. -/
theorem run_memory (d : Dict Json) (calls : List StoreCall) :
    run (MemoryStore.mk d) calls = ⟨d.insertAll (calls.flatMap written)⟩ := by
  induction calls generalizing d with
  | nil => rfl
  | cons call calls ih =>
      have hcall : (call.perform (MemoryStore.mk d)).2 = ⟨d.insertAll call.written⟩ := by
        cases call <;> rfl
      rw [run, List.foldl_cons, hcall]
      refine (ih _).trans ?_
      rw [List.flatMap_cons, Dict.insertAll, Dict.insertAll, Dict.insertAll, List.foldl_append]

/-- The value under a key is the last one set for it, or the one from before. -/
theorem get?_run_memory (d : Dict Json) (calls : List StoreCall) (key : String) :
    (run (MemoryStore.mk d) calls).items.get? key = (lastSet? calls key).or (d.get? key) := by
  rw [run_memory]
  exact d.get?_insertAll _ key

end StoreCall

namespace FileStore

variable {file : FileStore} {memory : MemoryStore}

/-- A file that cannot be read answers nothing and takes no value. -/
theorem perform_of_error {error : StoreError} (h : file.disk.readItems file.path = .error error)
    (call : StoreCall) : call.perform file = (call.failed error, file) := by
  cases call with
  | get key => simp only [StoreCall.perform, KeyValueStore.get, h]; rfl
  | set items => simp only [StoreCall.perform, KeyValueStore.set, Disk.writeItems, h]; rfl

/-- Values are set by replacing the file. -/
theorem set_of_replace {stored : Dict Json} {items : List (String × Json)} {disk : Disk}
    (h : file.disk.readItems file.path = .ok stored)
    (hreplace : file.disk.replace file.path
      (Json.object (stored.insertAll items).entries).compact = (.ok (), disk)) :
    KeyValueStore.set items file = (.ok (), { file with disk }) := by
  simp only [KeyValueStore.set, Disk.writeItems, h, hreplace]
  rfl

/-- A file with the text of an object that is read back holds its members. -/
theorem readItems_of_read {disk : Disk} {path : String} {d : Dict Json}
    (hread : disk.read path = .ok (.text (Json.object d.entries).compact))
    (hback : ∀ e ∈ d.entries, Json.ReadsBack e.1 e.2) : disk.readItems path = .ok d := by
  rw [Disk.readItems, hread]
  simp only [Content.text?, Option.bind_some, Json.valueOf?_entries hback, Dict.ofList_entries]

/-- The file can be written and holds the values in memory, all of which are read back. -/
structure Mirrors (file : FileStore) (memory : MemoryStore) : Prop where
  accepts : file.disk.Accepts file.path
  content : file.disk.readItems file.path = .ok memory.items
  readsBack : ∀ e ∈ memory.items.entries, Json.ReadsBack e.1 e.2

namespace Mirrors

/-- A call is answered the same by both, also if what it sets is not read back. -/
theorem answer_eq (h : file.Mirrors memory) (call : StoreCall) :
    (call.perform file).1 = (call.perform memory).1 := by
  cases call with
  | get key =>
      simp only [StoreCall.perform, KeyValueStore.get, h.content]
      rfl
  | set items =>
      obtain ⟨disk, hreplace, -, -⟩ :=
        h.accepts.replace (Json.object (memory.items.insertAll items).entries).compact
      simp only [StoreCall.perform, set_of_replace h.content hreplace]
      rfl

theorem perform (h : file.Mirrors memory) (call : StoreCall)
    (hcall : ∀ e ∈ call.written, Json.ReadsBack e.1 e.2) :
    (call.perform file).2.Mirrors (call.perform memory).2 := by
  cases call with
  | get key => exact h
  | set items =>
      obtain ⟨disk, hreplace, hread, haccepts⟩ :=
        h.accepts.replace (Json.object (memory.items.insertAll items).entries).compact
      have hback : ∀ e ∈ (memory.items.insertAll items).entries, Json.ReadsBack e.1 e.2 :=
        fun e he => (Dict.mem_entries_insertAll he).elim (hcall e) (h.readsBack e)
      simp only [StoreCall.perform, set_of_replace h.content hreplace]
      exact ⟨haccepts, readItems_of_read hread hback, hback⟩

theorem run (h : file.Mirrors memory) (calls : List StoreCall)
    (hcalls : ∀ call ∈ calls, ∀ e ∈ call.written, Json.ReadsBack e.1 e.2) :
    (StoreCall.run file calls).Mirrors (StoreCall.run memory calls) := by
  induction calls generalizing file memory with
  | nil => exact h
  | cons call calls ih =>
      exact ih (h.perform call (hcalls call List.mem_cons_self))
        fun later hlater => hcalls later (List.mem_cons_of_mem call hlater)

end Mirrors

/-- **The store in a file behaves as the store in memory.** Let the file hold some values, or be
missing, where files can be written without faults, and the store in memory hold the same values;
let them and all that is set be read back as written. After any calls the next one is answered the
same by both, and the value under a key is the last one that was set for it, or the one from before.

A file that does not decode answers no call, and stays as it was. -/
theorem file_store_behaves_as_memory :
    (∀ (disk : Disk) (path : String) (d : Dict Json), disk.Accepts path →
      disk.readItems path = .ok d → (∀ e ∈ d.entries, Json.ReadsBack e.1 e.2) →
      ∀ calls : List StoreCall,
        (∀ call ∈ calls, ∀ e ∈ call.written, Json.ReadsBack e.1 e.2) →
        let file := StoreCall.run (FileStore.mk disk path) calls
        let memory := StoreCall.run (MemoryStore.mk d) calls
        (∀ call : StoreCall, (call.perform file).1 = (call.perform memory).1) ∧
          ∀ key, (KeyValueStore.get key file).1 =
            .ok ((StoreCall.lastSet? calls key).or (d.get? key))) ∧
    (∀ (file : FileStore) (error : StoreError), file.disk.readItems file.path = .error error →
      ∀ calls : List StoreCall, StoreCall.run file calls = file ∧
        ∀ call : StoreCall, call.perform file = (call.failed error, file)) := by
  constructor
  · intro disk path d haccepts hread hback calls hcalls file memory
    have hstart : Mirrors ⟨disk, path⟩ ⟨d⟩ := ⟨haccepts, hread, hback⟩
    have hmirrors : file.Mirrors memory := hstart.run calls hcalls
    refine ⟨hmirrors.answer_eq, fun key => ?_⟩
    rw [← StoreCall.get?_run_memory d calls key]
    exact StoreAnswer.get.inj (hmirrors.answer_eq (.get key))
  · intro file error h calls
    refine ⟨?_, perform_of_error h⟩
    induction calls with
    | nil => rfl
    | cons call calls ih =>
        rw [StoreCall.run, List.foldl_cons, perform_of_error h call]
        exact ih

/-- Values are set in a file that is missing at first, the second one twice. A file that holds no
object answers nothing. -/
theorem file_store_behaves_as_memory_sample :
    let calls : List StoreCall := [.set [("a", .ofNat 1)], .set [("b", .null), ("b", .bool true)]]
    let file := StoreCall.run (FileStore.mk .empty "state.json") calls
    let broken := FileStore.mk (Disk.empty.put ["state.json"] (.file (.text "[]"))) "state.json"
    (KeyValueStore.get "a" file).1 = .ok (some (.ofNat 1)) ∧
      (KeyValueStore.get "b" file).1 = .ok (some (.bool true)) ∧
      (KeyValueStore.get "c" file).1 = .ok none ∧
      StoreCall.run broken calls = broken ∧
      (KeyValueStore.get "a" broken).1 = .error .json := by
  intro calls file broken
  have hready : Disk.empty.Ready "state.json" ["state.json.tmp"] ["state.json"] :=
    Disk.ready_empty rfl rfl rfl rfl rfl
  -- Values without parts are read back under any key.
  have hsimple {v : Json} (hplain : Json.Plain 0 v) (hmerged : v.merged = v) (name : String) :
      Json.ReadsBack name v := hplain.readsBack (by decide) hmerged name
  have hone := hsimple (.integer (i := 1) (by decide) (by decide))
    (Json.transparent_merged.number _)
  have hnull := hsimple .null Json.transparent_merged.null
  have htrue := hsimple (.bool true) (Json.transparent_merged.bool true)
  have hcalls : ∀ call ∈ calls, ∀ e ∈ call.written, Json.ReadsBack e.1 e.2 := by
    simp only [calls, List.forall_mem_cons, StoreCall.written]
    exact ⟨⟨hone "a", List.forall_mem_nil _⟩, ⟨hnull "b", htrue "b", List.forall_mem_nil _⟩,
      List.forall_mem_nil _⟩
  have hbroken : broken.disk.readItems broken.path = .error .json := by
    have hplain : Json.Plain 1 (.array []) := .array (List.forall_mem_nil _)
    have hvalue := (hplain.valueOf?_eq (by decide)).1
    have htext : (Json.array []).compact = "[]" := by simp [Json.compact, Json.write]
    have hfile : broken.disk.read broken.path = .ok (.text "[]") := by decide +kernel
    rw [Disk.readItems, hfile]
    simp [Content.text?, ← htext, hvalue, Json.merged_array]
  obtain ⟨hruns, hfailed⟩ := file_store_behaves_as_memory
  obtain ⟨-, hget⟩ := hruns .empty "state.json" .empty hready.accepts rfl
    (List.forall_mem_nil _) calls hcalls
  obtain ⟨hstays, hanswer⟩ := hfailed broken .json hbroken calls
  refine ⟨hget "a", hget "b", hget "c", hstays, ?_⟩
  exact StoreAnswer.get.inj (congrArg Prod.fst (hanswer (.get "a")))

end FileStore

end Blocklist
