import Blocklist.Disk.Basic
import Blocklist.Rule.Basic
import Blocklist.Toml.Parser

/-!
# Settings

What the program takes from its TOML file: where it keeps its files, how often and how it downloads,
and how many rules it may install. Every setting has a default, and settings of other names are left
alone. The budget of rules never exceeds what the engine accepts.
-/

namespace Blocklist

/-- The settings of the program. -/
structure Settings where
  /-- The catalogue of lists. -/
  manifestPath : String
  /-- The file that keeps the state of the lists. -/
  cachePath : String
  /-- The file that holds the rules of the engine. -/
  outputPath : String
  updateIntervalHours : Nat
  /-- The budget of rules. -/
  maxDynamicRules : Nat
  /-- The first id of compiled rules. -/
  ruleIdStart : RuleId
  userAgent : String
  requestTimeoutSecs : Nat
  logLevel : String
  deriving DecidableEq, Repr

/-- Why settings cannot be used. -/
inductive SettingsError where
  | io (path : String) (fault : IoFault)
  | toml
  deriving DecidableEq, Repr

namespace SettingsError

/-- The error in words. -/
def message : SettingsError → String
  | .io path fault => s!"Failed to read '{path}': {fault.message}"
  | .toml => "Invalid settings: unexpected form"

end SettingsError

namespace Settings

/-- The settings of an empty file. -/
def standard : Settings where
  manifestPath := "filterLists.json"
  cachePath := "shieldforge-cache.json"
  outputPath := "dynamic-rules.json"
  updateIntervalHours := 4
  maxDynamicRules := Rule.engineLimit
  ruleIdStart := RuleId.first
  userAgent := "ShieldForge/0.2.0"
  requestTimeoutSecs := 30
  logLevel := "info"

instance : Inhabited Settings := ⟨standard⟩

/-- A setting that is a text. -/
def textAt (t : Toml.Table) (key standard : String) : Option String :=
  match t.get? key with
  | none => some standard
  | some (.value (.string s)) => some s
  | some _ => none

/-- A setting that is a number from zero to `bound`. -/
def countAt (t : Toml.Table) (key : String) (bound standard : Nat) : Option Nat :=
  match t.get? key with
  | none => some standard
  | some (.value (.integer n)) => if 0 ≤ n ∧ n ≤ bound then some n.toNat else none
  | some _ => none

/-- The settings in a document, with the budget it asks for. -/
def ofTable? (t : Toml.Table) : Option Settings := do
  return {
    manifestPath := ← textAt t "manifest_path" standard.manifestPath
    cachePath := ← textAt t "cache_path" standard.cachePath
    outputPath := ← textAt t "output_path" standard.outputPath
    updateIntervalHours :=
      ← countAt t "update_interval_hours" (UInt64.size - 1) standard.updateIntervalHours
    maxDynamicRules := ← countAt t "max_dynamic_rules" (UInt64.size - 1) standard.maxDynamicRules
    ruleIdStart := UInt32.ofNat
      (← countAt t "rule_id_start" RuleId.last.toNat standard.ruleIdStart.toNat)
    userAgent := ← textAt t "user_agent" standard.userAgent
    requestTimeoutSecs := ← countAt t "request_timeout_secs" (UInt64.size - 1) standard.requestTimeoutSecs
    logLevel := ← textAt t "log_level" standard.logLevel }

/-- The settings with a budget the engine accepts. -/
def withinEngine (s : Settings) : Settings :=
  { s with maxDynamicRules := min s.maxDynamicRules Rule.engineLimit }

/-- The budget that was asked for, if it is more than the engine accepts. -/
def loweredBudget? (s : Settings) : Option Nat :=
  if Rule.engineLimit < s.maxDynamicRules then some s.maxDynamicRules else none

/-- The settings in a text, and the budget it asks for if that is too much. -/
def ofText (text : String) : Except SettingsError (Settings × Option Nat) :=
  match (Toml.ofText? text).bind ofTable? with
  | some s => .ok (s.withinEngine, s.loweredBudget?)
  | none => .error .toml

/-- The settings in a file. -/
def load (disk : Disk) (path : String) : Except SettingsError (Settings × Option Nat) :=
  match disk.readText path with
  | .ok text => ofText text
  | .error fault => .error (.io path fault)

/-- The seconds between two refreshes: at least an hour and at most a year. -/
def intervalSecs (s : Settings) : Nat :=
  max 1 (min s.updateIntervalHours (24 * 365)) * 3600

end Settings

end Blocklist
