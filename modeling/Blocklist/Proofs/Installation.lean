import Blocklist.Proofs.FileEngine
import Blocklist.Proofs.ReportedRefresh
import Mathlib.Data.List.Permutation

/-!
# Installing an assembled set

The budget of the settings is what an engine accepts or less, an assembled set keeps the budget and has
distinct ids, and it is brought together with the removal of every id that the engine holds. So an
engine never refuses it, whatever it held: an engine in memory takes it, and one in a file fails only
where the file does.

## Implementation notes

What an engine holds may have repeated ids or be over the limit, since a file can hold any array of
rules.
-/

namespace Blocklist

namespace FileEngine

variable {file : FileEngine} {rules : List Rule}

theorem replaceRules_of_error {error : EngineError}
    (h : file.disk.readRules file.path = .error error) (rules : List Rule) :
    replaceRules rules file = (.error error, file) := by
  simp only [replaceRules, (perform_of_error h).1]

/-- Rules with distinct ids that fit the limit replace those in the file, whatever these are. -/
theorem replaceRules_of_ok {previous : List Rule}
    (h : file.disk.readRules file.path = .ok previous) (hnodup : (rules.map (·.id)).Nodup)
    (hlimit : rules.length ≤ Rule.engineLimit) :
    replaceRules rules file =
      ((file.disk.replace file.path (Json.of rules).indented).1.mapError
          fun (path, fault) => .io path fault,
        { file with disk := (file.disk.replace file.path (Json.of rules).indented).2 }) := by
  have hids : FilteringEngine.ruleIds file = (.ok (previous.map (·.id)), file) := by
    simp only [FilteringEngine.ruleIds, h]
    rfl
  simp only [replaceRules, hids, FilteringEngine.update, Disk.updateRules_replacing h hnodup hlimit]

/-- A file refuses rules with distinct ids that fit the limit only where it cannot be read as rules,
or cannot be replaced. -/
theorem eq_json_or_io_of_replaceRules {error : EngineError} (hnodup : (rules.map (·.id)).Nodup)
    (hlimit : rules.length ≤ Rule.engineLimit) (h : (replaceRules rules file).1 = .error error) :
    error = .json ∨ ∃ path fault, error = .io path fault := by
  cases hread : file.disk.readRules file.path with
  | error error' =>
      rw [replaceRules_of_error hread] at h
      cases h
      exact Disk.eq_json_or_io_of_readRules hread
  | ok previous =>
      rw [replaceRules_of_ok hread hnodup hlimit] at h
      cases hreplace : (file.disk.replace file.path (Json.of rules).indented).1 with
      | ok _ =>
          rw [hreplace] at h
          cases h
      | error fault =>
          rw [hreplace] at h
          cases h
          exact .inr ⟨_, _, rfl⟩

/-- Where they can be installed, they are taken, and read back from anything but a device. -/
theorem replaceRules_of_installs (hnodup : (rules.map (·.id)).Nodup)
    (hlimit : rules.length ≤ Rule.engineLimit) (h : file.disk.Installs file.path rules) :
    (replaceRules rules file).1 = .ok () ∧
      (¬ (replaceRules rules file).2.disk.LeadsToDevice file.path →
        (replaceRules rules file).2.disk.readRules file.path = .ok rules) := by
  obtain ⟨⟨previous, hread⟩, hreplace⟩ := h
  rw [replaceRules_of_ok hread hnodup hlimit]
  constructor
  · simp only [hreplace]
    rfl
  · intro hdevice
    exact Disk.readRules_of_read (Disk.read_replaced (Prod.ext hreplace rfl) hdevice)

end FileEngine

/-- **An assembled set is never refused.** Whatever lists are assembled with the budget of settings
that were read, an engine in memory with the limit of the engine takes the set and then holds exactly
its rules, whatever it held. An engine in a file refuses it neither for its ids nor for its size: it
takes the set if the file is missing or holds an array of rules, whichever they are, and can be
replaced; the file then holds exactly the rules of the set, unless it is a device. -/
theorem assembled_set_is_never_refused {text : String} {settings : Settings} {lowered : Option Nat}
    (h : Settings.ofText text = .ok (settings, lowered)) (lists : List (List Rule)) :
    let rules := (assemble lists settings.maxDynamicRules).1
    let stats := (assemble lists settings.maxDynamicRules).2
    (∀ engine : MemoryEngine, engine.limit = Rule.engineLimit →
      let installed := installRules lists settings.maxDynamicRules engine
      installed.1 = .ok stats ∧
        installed.2.1 = { engine with rules, updates := engine.updates + 1 }) ∧
    ∀ file : FileEngine,
      let installed := installRules lists settings.maxDynamicRules file
      (∀ error, installed.1 = .error error → error = .json ∨ ∃ path fault, error = .io path fault) ∧
        (file.disk.Installs file.path rules →
          installed.1 = .ok stats ∧
            (¬ installed.2.1.disk.LeadsToDevice file.path →
              installed.2.1.disk.readRules file.path = .ok rules)) := by
  intro rules stats
  have hnodup : (rules.map (·.id)).Nodup := nodup_assemble _ _
  have hlimit : rules.length ≤ Rule.engineLimit :=
    (length_assemble_le _ _).trans (Settings.maxDynamicRules_le_of_ofText h)
  constructor
  · intro engine hengine installed
    obtain ⟨hresult, hafter⟩ := installRules_eq lists settings.maxDynamicRules engine
    have htaken := MemoryEngine.replaceRules_of_fits hnodup (hengine.symm ▸ hlimit)
    exact ⟨hresult.trans (congrArg (·.1.map fun _ => stats) htaken),
      hafter.trans (congrArg Prod.snd htaken)⟩
  · intro file installed
    obtain ⟨hresult, hafter⟩ := installRules_eq lists settings.maxDynamicRules file
    constructor
    · intro error herror
      apply FileEngine.eq_json_or_io_of_replaceRules hnodup hlimit
      rw [hresult] at herror
      cases hreplaced : (replaceRules rules file).1 with
      | ok _ =>
          rw [hreplaced] at herror
          cases herror
      | error error' =>
          rw [hreplaced] at herror
          cases herror
          rfl
    · intro hinstalls
      obtain ⟨htaken, hread⟩ := FileEngine.replaceRules_of_installs hnodup hlimit hinstalls
      refine ⟨hresult.trans (congrArg (Except.map _) htaken), ?_⟩
      rw [hafter]
      exact hread

/-- A budget above the limit is lowered, and lists that repeat an id are installed over rules that
repeat one. -/
theorem assembled_set_is_never_refused_sample :
    let rule (id : RuleId) : Rule := { (default : Rule) with id }
    let settings := { Settings.standard with maxDynamicRules := Rule.engineLimit }
    let lists := [[rule 1, rule 7], [rule 1]]
    let held := [rule 7, rule 7]
    let file : FileEngine :=
      ⟨Disk.empty.put ["rules.json"] (.file (.text (Json.of held).indented)), "rules.json"⟩
    let installed := installRules lists settings.maxDynamicRules file
    Settings.ofText "max_dynamic_rules = 50000" = .ok (settings, some 50000) ∧
      (installRules lists settings.maxDynamicRules (⟨held, Rule.engineLimit, 0⟩ : MemoryEngine)).2.1 =
        ⟨[rule 1, rule 7], Rule.engineLimit, 1⟩ ∧
      installed.1 = .ok ⟨3, 2, 1, 0⟩ ∧
      installed.2.1.disk.readRules file.path = .ok [rule 1, rule 7] := by
  intro rule settings lists held file installed
  have htext : Settings.ofText "max_dynamic_rules = 50000" = .ok (settings, some 50000) := by
    decide +kernel
  have hassemble : assemble lists settings.maxDynamicRules = ([rule 1, rule 7], ⟨3, 2, 1, 0⟩) := by
    cbv
  have hready : file.disk.Ready file.path ["rules.json.tmp"] ["rules.json"] := by
    change file.disk.Ready "rules.json" _ _
    refine ⟨?_, rfl, rfl, .inl rfl, Disk.free_of_look (.inr ⟨_, rfl⟩)⟩
    intro folder hfolder
    cases hfolder
  have hheld : file.disk.readRules file.path = .ok held := by
    refine Disk.readRules_of_read ?_
    rw [Disk.read, hready.placed]
    rfl
  clear_value file
  have hafter : installed.2.1 = { file with
      disk := file.disk.moved ["rules.json.tmp"] ["rules.json"]
        (.text (Json.of [rule 1, rule 7]).indented) } := by
    rw [(installRules_eq lists settings.maxDynamicRules file).2, hassemble,
      FileEngine.replaceRules_of_ok hheld (by decide) (by decide), hready.replace_eq]
  obtain ⟨hmemory, hfile⟩ := assembled_set_is_never_refused htext lists
  rw [hassemble] at hmemory hfile
  obtain ⟨htaken, hread⟩ :=
    (hfile file).2 ⟨⟨held, hheld⟩, congrArg Prod.fst (hready.replace_eq _)⟩
  have hdevice : ¬ installed.2.1.disk.LeadsToDevice file.path := by
    rw [hafter]
    exact hready.not_leadsToDevice_moved _
  exact ⟨htext, (hmemory ⟨held, _, 0⟩ rfl).2, htaken, hread hdevice⟩

end Blocklist
