import Blocklist.CommandLine.Outcome
import Blocklist.Http
import Blocklist.Json.Printer
import Blocklist.Scheduler
import Blocklist.Settings

/-!
# Commands on the lists of a disk

The commands that work on the registry whose manifest, saved state and rules stand in the files that
the settings name. A command loads the saved state first, and does nothing if it cannot.
-/

namespace Blocklist.CommandLine

/-- A disk whose files hold the saved state of the lists and the rules of the engine. -/
structure Workspace where
  disk : Disk
  /-- The file of the saved state. -/
  cachePath : String
  /-- The file of the rules. -/
  outputPath : String
  deriving Inhabited

namespace Workspace

instance : KeyValueStore Workspace where
  get key w := ((w.disk.readItems w.cachePath).map (·.get? key), w)
  set items w :=
    let (result, disk) := w.disk.writeItems w.cachePath items
    (result, { w with disk })

instance : FilteringEngine Workspace where
  ruleIds w := ((w.disk.readRules w.outputPath).map (·.map (·.id)), w)
  update update w :=
    let (result, disk) := w.disk.updateRules w.outputPath Rule.engineLimit update
    (result, { w with disk })

end Workspace

/-- The settings that a command works with. -/
def loadSettings (disk : Disk) (config : Option String) : Except String Settings :=
  match config with
  | none => .ok .standard
  | some path => ((Settings.load disk path).map (·.1)).mapError SettingsError.message

/-- Open the registry that the settings name, with nothing loaded. -/
def openSession (disk : Disk) (settings : Settings) : Except String (Session Workspace) :=
  match Manifest.load disk settings.manifestPath with
  | .error error => .error error.message
  | .ok manifest =>
    if Http.isHeaderText settings.userAgent then
      .ok (.ofRegistry (.ofManifest manifest settings)
        ⟨disk, settings.cachePath, settings.outputPath⟩)
    else .error s!"Failed to build HTTP client: {FetchError.http.message}"

/-- Open the registry that the settings name, with its saved state. -/
def openLoaded (disk : Disk) (settings : Settings) : Except String (Session Workspace) :=
  match openSession disk settings with
  | .error error => .error error
  | .ok s =>
    match s.load with
    | (.ok (), s) => .ok s
    | (.error error, _) => .error s!"Failed to load '{settings.cachePath}': {error.message}"

/-- Run a command on the registry of the settings. -/
def withLists (disk : Disk) (config : Option String)
    (command : Settings → Session Workspace → Outcome) : Outcome :=
  match loadSettings disk config with
  | .error error => .failure [] error disk
  | .ok settings =>
    match openLoaded disk settings with
    | .error error => .failure [] error disk
    | .ok s => command settings s

/-- Refresh one list. -/
def refreshOne (id : String) (force : Bool) (servers : Servers) (s : Session Workspace) :
    Outcome :=
  if (s.registry.list? id).isNone then .failure [] s!"Unknown list '{id}'" s.world.disk
  else
    match s.refreshList id force servers with
    | (true, s) => .success [s!"Refreshed '{id}'"] s.world.disk
    | (false, s) =>
      .failure [] s!"Every source of '{id}' failed; cached rules kept" s.world.disk

/-- Refresh all enabled lists. -/
def refreshEnabled (force : Bool) (servers : Servers) (settings : Settings)
    (s : Session Workspace) : Outcome :=
  let (summary, s) := s.refreshAll force servers
  let lines :=
    [s!"Refreshed {s.registry.enabledLists.length} enabled lists",
      s!"  Updated:      {summary.updated}",
      s!"  Not modified: {summary.notModified}",
      s!"  Failed:       {summary.failed}"]
  match summary.appliedRules with
  | some count =>
    .success (lines ++ [s!"  Applied:      {count} rules -> '{settings.outputPath}'"]) s.world.disk
  | none => .failure lines "Failed to apply the assembled rule set" s.world.disk

/-- Refresh one list or all enabled lists. -/
def refreshLists (disk : Disk) (config list : Option String) (force : Bool) (servers : Servers) :
    Outcome :=
  withLists disk config fun settings s =>
    match list with
    | some id => refreshOne id force servers s
    | none => refreshEnabled force servers settings s

/-- Show the lists, for people or for programs. -/
def showStatus (disk : Disk) (config : Option String) (json : Bool) : Outcome :=
  withLists disk config fun _ s =>
    let status := s.registry.status
    .success (if json then [status.toJson.indented] else status.table) s.world.disk

/-- Enable or disable lists. -/
def toggleLists (disk : Disk) (config : Option String) (target : ToggleTarget) (enabled : Bool) :
    Outcome :=
  withLists disk config fun _ s =>
    let (count, s) := s.toggle target enabled
    let word := Event.flagWord enabled
    match target with
    | .list id =>
      if count = 0 then .failure [] s!"Unknown list '{id}'" s.world.disk
      else .success [s!"List '{id}' {word}"] s.world.disk
    | .category category =>
      if count = 0 then .failure [] s!"No lists in category '{category}'" s.world.disk
      else .success [s!"{count} lists in '{category}' {word}"] s.world.disk

/-- The scheduler that refreshes the lists, after a first refresh. -/
def startWatch (disk : Disk) (config : Option String) (servers : Servers) :
    Except String (Scheduler Workspace) :=
  match loadSettings disk config with
  | .error error => .error error
  | .ok settings =>
    match openSession disk settings with
    | .error error => .error error
    | .ok s => .ok (.start (s.start servers).2 settings.intervalSecs)

end Blocklist.CommandLine
