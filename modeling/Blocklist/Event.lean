import Blocklist.CompiledList
import Blocklist.Engine
import Blocklist.Fetch
import Blocklist.Manifest
import Blocklist.Store

/-!
# Events

What the program reports while it works, for its log: each event with the facts it reports, how much
it matters, and its wording.
-/

namespace Blocklist

/-- How much an event matters. -/
inductive Level where
  | debug
  | info
  | warn
  | error
  deriving DecidableEq, Repr, Inhabited

namespace Level

/-- The name of a level in the log. -/
def name : Level → String
  | debug => "debug"
  | info => "info"
  | warn => "warn"
  | error => "error"

end Level

/-- What the program reports. -/
inductive Event where
  /-- A line of a list gave no record. -/
  | lineRejected (listId : String) (rejection : Rejection)
  /-- The settings ask for more rules than the engine takes. -/
  | budgetLowered (asked : Nat)
  /-- Some rules have the id of another rule. -/
  | duplicatesDropped (count : Nat)
  | rulesApplied (stats : AssemblyStats) (budget : Nat)
  | rulesRefused (error : EngineError)
  /-- The saved state was read. -/
  | stateRead (metadata cached : Nat)
  /-- The saved state was taken over. -/
  | stateRestored (cached : Nat) (next : RuleId)
  | stateUnreadable (error : StoreError)
  | stateNotSaved (error : StoreError)
  /-- The saved flags could not be read before a refresh. -/
  | flagsUnreadable (error : StoreError)
  /-- A saved flag differs from the one in use and is taken over. -/
  | flagAdopted (listId : String) (enabled : Bool)
  | listToggled (listId : String) (enabled : Bool)
  | categoryToggled (category : String) (count : Nat) (enabled : Bool)
  | refreshStarted (count : Nat) (force : Bool)
  | refreshFinished (updated notModified failed : Nat)
  | unknownList (listId : String)
  | sourceUnchanged (listId title : String)
  | sourceCompiled (listId title : String) (stats : LineStats)
  | sourceFailed (listId : String) (source : ListSource) (error : FetchError)
  | everySourceFailed (listId : String)
  | listCompiled (listId : String) (stats : LineStats)
  | schedulerStarted (periodSecs : Nat)
  | refreshRequested (force : Bool)
  | schedulerStopped
  /-- A scheduler that has stopped was told to stop. -/
  | alreadyStopped
  deriving DecidableEq, Repr

namespace Event

/-- How much an event matters. -/
def level : Event → Level
  | .lineRejected .. | .duplicatesDropped .. | .stateRead .. | .sourceUnchanged ..
  | .sourceCompiled .. => .debug
  | .budgetLowered .. | .flagsUnreadable .. | .unknownList .. | .sourceFailed ..
  | .everySourceFailed .. | .alreadyStopped => .warn
  | .rulesRefused .. | .stateUnreadable .. | .stateNotSaved .. => .error
  | _ => .info

/-- A flag in words. -/
def flagWord (enabled : Bool) : String :=
  if enabled then "enabled" else "disabled"

/-- The mark of a refresh that downloads everything. -/
def forcedMark (force : Bool) : String :=
  if force then " (forced)" else ""

/-- The event in words. -/
def message : Event → String
  | .lineRejected listId r => s!"[{listId}] line {r.number} rejected: {r.error.message} ({r.line})"
  | .budgetLowered asked =>
    s!"max_dynamic_rules {asked} exceeds the engine limit, using {Rule.engineLimit}"
  | .duplicatesDropped count => s!"Dropped {count} rules with duplicate ids"
  | .rulesApplied stats budget =>
    s!"Applied {stats.after} rules ({stats.before} offered, {stats.overBudget} over budget of {budget})"
  | .rulesRefused error => s!"Failed to apply dynamic rules: {error.message}"
  | .stateRead metadata cached => s!"Loaded {metadata} list metadata entries, {cached} cached lists"
  | .stateRestored cached next => s!"Restored {cached} cached lists, next rule id {next.toNat}"
  | .stateUnreadable error =>
    s!"Failed to load filter list cache, starting empty: {error.message}"
  | .stateNotSaved error => s!"Failed to persist filter list cache: {error.message}"
  | .flagsUnreadable error => s!"Failed to read list state from the store: {error.message}"
  | .flagAdopted listId enabled => s!"List '{listId}' {flagWord enabled} in the store"
  | .listToggled listId enabled => s!"List '{listId}' {flagWord enabled}"
  | .categoryToggled category count enabled =>
    s!"Category '{category}': {count} lists {flagWord enabled}"
  | .refreshStarted count force => s!"Refreshing {count} enabled lists{forcedMark force}"
  | .refreshFinished updated notModified failed =>
    s!"Refresh complete: {updated} updated, {notModified} unchanged, {failed} failed"
  | .unknownList listId => s!"Cannot refresh unknown list '{listId}'"
  | .sourceUnchanged listId title => s!"[{listId}] {title} not modified"
  | .sourceCompiled listId title stats => s!"[{listId}] {title}: {stats.message}"
  | .sourceFailed listId source error =>
    s!"[{listId}] failed to fetch {source.title} ({source.url}): {error.message}"
  | .everySourceFailed listId => s!"[{listId}] every source failed, keeping cached rules"
  | .listCompiled listId stats => s!"[{listId}] {stats.message}"
  | .schedulerStarted periodSecs => s!"Update scheduler started, every {periodSecs}s"
  | .refreshRequested force => s!"Manual refresh requested{forcedMark force}"
  | .schedulerStopped => "Update scheduler stopped"
  | .alreadyStopped => "Scheduler already stopped"

end Event

end Blocklist
