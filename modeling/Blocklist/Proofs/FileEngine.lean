import Blocklist.Proofs.Engine
import Blocklist.Proofs.Replacement
import Blocklist.Proofs.RoundTrip

/-!
# The engine in a file behaves as the engine in memory

Whatever is asked of an engine in a file that is missing at first, and of an engine in memory
without rules, the two answer the same: they name the same ids, and take and refuse the same updates
with the same errors. The array in the file is that of the rules in memory all the time.

## Implementation notes

That files can be written is asked of the disk once, before the first call (`Disk.Accepts`). That
the array of rules is read back is not asked for: it is proved of all rules.
-/

namespace Blocklist

/-- What is asked of an engine. -/
inductive EngineCall where
  | ruleIds
  | update (change : RuleUpdate)

/-- What an engine answers. -/
inductive EngineAnswer where
  | ruleIds (result : Except EngineError (List RuleId))
  | update (result : Except EngineError Unit)

namespace EngineCall

variable {ε : Type} [FilteringEngine ε]

/-- Ask an engine. -/
def perform (engine : ε) : EngineCall → EngineAnswer × ε
  | .ruleIds => (FilteringEngine.ruleIds engine).map .ruleIds id
  | .update change => (FilteringEngine.update change engine).map .update id

/-- The engine after a run of calls. -/
def run (engine : ε) (calls : List EngineCall) : ε :=
  calls.foldl (fun engine call => (call.perform engine).2) engine

end EngineCall

namespace FileEngine

variable {file : FileEngine} {memory : MemoryEngine}

/-- An update that is refused by the rules in the file, or by what else the file holds, changes
nothing. -/
theorem update_of_error {update : RuleUpdate} {error : EngineError}
    (h : (file.disk.readRules file.path).bind (update.apply Rule.engineLimit) = .error error) :
    FilteringEngine.update update file = (.error error, file) := by
  simp only [FilteringEngine.update, Disk.updateRules, h]

/-- An update that is taken replaces the file. -/
theorem update_of_ok {update : RuleUpdate} {rules : List Rule} {disk : Disk}
    (h : (file.disk.readRules file.path).bind (update.apply Rule.engineLimit) = .ok rules)
    (hreplace : file.disk.replace file.path (Json.of rules).indented = (.ok (), disk)) :
    FilteringEngine.update update file = (.ok (), { file with disk }) := by
  simp only [FilteringEngine.update, Disk.updateRules, h, hreplace]
  rfl

/-- The file can be written, and its array is that of the rules in memory. It is missing as long as
no update was taken. -/
structure Mirrors (file : FileEngine) (memory : MemoryEngine) : Prop where
  accepts : file.disk.Accepts file.path
  limit : memory.limit = Rule.engineLimit
  content : file.disk.read file.path = .error .notFound ∧ memory = .withLimit memory.limit ∨
    file.disk.read file.path = .ok (.text (Json.of memory.rules).indented)

namespace Mirrors

theorem readRules_eq (h : file.Mirrors memory) :
    file.disk.readRules file.path = .ok memory.rules := by
  obtain ⟨hmissing, hfresh⟩ | htext := h.content
  · rw [Disk.readRules, hmissing, hfresh]
    rfl
  · exact Disk.readRules_of_read htext

/-- A call is answered the same by both. -/
theorem perform (h : file.Mirrors memory) (call : EngineCall) :
    (call.perform file).1 = (call.perform memory).1 ∧
      (call.perform file).2.Mirrors (call.perform memory).2 := by
  cases call with
  | ruleIds =>
      refine ⟨?_, h⟩
      simp only [EngineCall.perform, FilteringEngine.ruleIds, h.readRules_eq]
      rfl
  | update change =>
      have hread : (file.disk.readRules file.path).bind (change.apply Rule.engineLimit) =
          change.apply memory.limit memory.rules := by
        rw [h.readRules_eq, h.limit]
        rfl
      cases happly : change.apply memory.limit memory.rules with
      | error error =>
          rw [happly] at hread
          have hmemory : FilteringEngine.update change memory = (.error error, memory) := by
            simp only [FilteringEngine.update, happly]
          simp only [EngineCall.perform, update_of_error hread, hmemory]
          exact ⟨rfl, h⟩
      | ok rules =>
          rw [happly] at hread
          have hmemory : FilteringEngine.update change memory =
              (.ok (), { memory with rules, updates := memory.updates + 1 }) := by
            simp only [FilteringEngine.update, happly]
          obtain ⟨disk, hreplace, htext, haccepts⟩ :=
            h.accepts.replace (Json.of rules).indented
          simp only [EngineCall.perform, update_of_ok hread hreplace, hmemory]
          exact ⟨rfl, haccepts, h.limit, .inr htext⟩

theorem run (h : file.Mirrors memory) (calls : List EngineCall) :
    (EngineCall.run file calls).Mirrors (EngineCall.run memory calls) := by
  induction calls generalizing file memory with
  | nil => exact h
  | cons call calls ih => exact ih (h.perform call).2

end Mirrors

/-- A file that cannot be read answers nothing and takes no update. -/
theorem perform_of_error {error : EngineError} (h : file.disk.readRules file.path = .error error) :
    FilteringEngine.ruleIds file = (.error error, file) ∧
      ∀ change, FilteringEngine.update change file = (.error error, file) := by
  constructor
  · simp only [FilteringEngine.ruleIds, h]
    rfl
  · intro change
    apply update_of_error
    rw [h]
    rfl

/-- An update that is refused otherwise than by a fault of the disk leaves the disk as it was. -/
theorem update_eq_of_refused {change : RuleUpdate} {error : EngineError}
    (h : (FilteringEngine.update change file).1 = .error error)
    (herror : ∀ path fault, error ≠ .io path fault) :
    (FilteringEngine.update change file).2 = file := by
  cases happly : (file.disk.readRules file.path).bind (change.apply Rule.engineLimit) with
  | error error => rw [update_of_error happly]
  | ok rules =>
      simp only [FilteringEngine.update, Disk.updateRules, happly] at h
      cases hresult : (file.disk.replace file.path (Json.of rules).indented).1 with
      | ok _ =>
          rw [hresult] at h
          cases h
      | error fault =>
          rw [hresult] at h
          cases h
          exact absurd rfl (herror fault.1 fault.2)

/-- **The engine in a file behaves as the engine in memory.** Let the file be missing at first,
where files can be written without faults, and the engine in memory be new. After any calls the next
one is answered the same by both, and the file then decodes to the rules in memory: it holds the
array of them, unless it is still missing and there are none.

An update that is refused, other than by a fault of the disk, leaves any file as it was. So does
every update of a file that does not decode, which answers no question either. -/
theorem file_engine_behaves_as_memory :
    (∀ (disk : Disk) (path : String), disk.Accepts path → disk.read path = .error .notFound →
      ∀ (before : List EngineCall) (call : EngineCall),
        let file := call.perform (EngineCall.run (FileEngine.mk disk path) before)
        let memory := call.perform (EngineCall.run (MemoryEngine.withLimit Rule.engineLimit) before)
        file.1 = memory.1 ∧
          file.2.disk.readRules file.2.path = .ok memory.2.rules ∧
          (file.2.disk.read file.2.path = .error .notFound ∧ memory.2.rules = [] ∨
            file.2.disk.read file.2.path = .ok (.text (Json.of memory.2.rules).indented))) ∧
    (∀ (file : FileEngine) (change : RuleUpdate) (error : EngineError),
      (FilteringEngine.update change file).1 = .error error →
      (∀ path fault, error ≠ .io path fault) →
      (FilteringEngine.update change file).2 = file) ∧
    (∀ (file : FileEngine) (error : EngineError),
      file.disk.readRules file.path = .error error →
      FilteringEngine.ruleIds file = (.error error, file) ∧
        ∀ change, FilteringEngine.update change file = (.error error, file)) := by
  refine ⟨fun disk path haccepts hmissing before call => ?_,
    fun file change error h herror => update_eq_of_refused h herror,
    fun file error h => perform_of_error h⟩
  have hstart : Mirrors ⟨disk, path⟩ (.withLimit Rule.engineLimit) :=
    ⟨haccepts, rfl, .inl ⟨hmissing, rfl⟩⟩
  obtain ⟨hanswer, hmirrors⟩ := (hstart.run before).perform call
  refine ⟨hanswer, hmirrors.readRules_eq, ?_⟩
  obtain ⟨hmissing, hfresh⟩ | htext := hmirrors.content
  · exact .inl ⟨hmissing, congrArg MemoryEngine.rules hfresh⟩
  · exact .inr htext

/-- A rule is added to the file once. A file that holds something else takes no update. -/
theorem file_engine_behaves_as_memory_sample :
    let rule : Rule := { (default : Rule) with id := 7 }
    let change : RuleUpdate := ⟨[], [rule]⟩
    let file := EngineCall.run (⟨.empty, "rules.json"⟩ : FileEngine) [.update change]
    let broken : FileEngine :=
      ⟨Disk.empty.put ["rules.json"] (.file (.text "rules")), "rules.json"⟩
    file.disk.readRules file.path = .ok [rule] ∧
      (FilteringEngine.ruleIds file).1 = .ok [7] ∧
      FilteringEngine.update change file = (.error (.duplicateId 7), file) ∧
      FilteringEngine.update change broken = (.error .json, broken) := by
  intro rule change
  have hready : Disk.empty.Ready "rules.json" ["rules.json.tmp"] ["rules.json"] :=
    Disk.ready_empty rfl rfl rfl rfl rfl
  have hfirst : change.apply Rule.engineLimit [] = .ok [rule] :=
    RuleUpdate.apply_eq_ok_iff.mpr ⟨List.nodup_singleton _, fun _ _ => List.not_mem_nil, by decide, rfl⟩
  have hsecond : change.apply Rule.engineLimit [rule] = .error (.duplicateId 7) := by
    simp [change, rule, RuleUpdate.apply, RuleUpdate.kept_eq_filter, firstRepeated?]
  let memory : MemoryEngine := ⟨[rule], Rule.engineLimit, 1⟩
  have hmemory : EngineCall.run (MemoryEngine.withLimit Rule.engineLimit) [.update change] =
      memory := by
    simp only [EngineCall.run, List.foldl_cons, List.foldl_nil, EngineCall.perform,
      FilteringEngine.update, MemoryEngine.withLimit, hfirst]
    rfl
  obtain ⟨hruns, hrefused, hbroken⟩ := file_engine_behaves_as_memory
  have hruns := hruns .empty "rules.json" hready.accepts rfl [.update change]
  rw [hmemory] at hruns
  generalize EngineCall.run (FileEngine.mk .empty "rules.json") [.update change] = file at hruns ⊢
  intro file broken
  obtain ⟨hids, hrules, -⟩ := hruns .ruleIds
  obtain ⟨hagain, -⟩ := hruns (.update change)
  simp only [EngineCall.perform, Prod.map_fst, EngineAnswer.update.injEq] at hagain
  have hanswer : (FilteringEngine.update change memory).1 = .error (.duplicateId 7) := by
    simp only [FilteringEngine.update, memory, hsecond]
  rw [hanswer] at hagain
  refine ⟨hrules, EngineAnswer.ruleIds.inj hids, Prod.ext hagain ?_, ?_⟩
  · exact hrefused file change _ hagain (by simp [EngineError.duplicateId])
  · exact (hbroken broken .json (by decide +kernel)).2 change

end FileEngine

end Blocklist
