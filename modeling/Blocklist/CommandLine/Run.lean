import Blocklist.CommandLine.Compile
import Blocklist.CommandLine.Workspace
import Blocklist.CommandLine.Invocation

/-!
# Running a command

What a command does to a disk, and the files it needs to see for that.
-/

namespace Blocklist.CommandLine.Invocation

/-- What the program prints when it is asked how it is used. -/
def usage : List String :=
  ["Usage: blocklist <COMMAND> [OPTIONS]", "",
    "Commands:",
    "  compile   -i FILE... [-o FILE] [--start-id ID] [-v]",
    "  assemble  -i FILE... [-o FILE] [--max-rules COUNT]",
    "  refresh   [-c FILE] [-l LIST] [-f]",
    "  status    [-c FILE] [--json]",
    "  toggle    [-c FILE] (-l LIST | --category CATEGORY) [-d]",
    "  watch     [-c FILE]"]

/-- Run a command on a disk. A schedule is only brought to its start. -/
def run (disk : Disk) (servers : Servers) : Invocation → Outcome
  | .help => .success usage disk
  | .compile inputs output startId verbose => compileFiles disk inputs output startId verbose
  | .assemble inputs output maxRules => assembleFiles disk inputs output maxRules
  | .refresh config list force => refreshLists disk config list force servers
  | .status config json => showStatus disk config json
  | .toggle config target enabled => toggleLists disk config target enabled
  | .watch config =>
    match startWatch disk config servers with
    | .error error => .failure [] error disk
    | .ok s => .success [] s.session.world.disk

/-- The settings file of a command. -/
def config? : Invocation → Option String
  | .refresh config .. | .status config _ | .toggle config .. | .watch config => config
  | _ => none

/-- The files that the settings of a command name, once its settings file is on the disk. -/
def settingsPaths (disk : Disk) (config : Option String) : List String :=
  match loadSettings disk config with
  | .ok s => [s.manifestPath, s.cachePath, s.outputPath]
  | .error _ => []

/-- The files that a command reads or writes, once its settings file is on the disk. -/
def paths (disk : Disk) : Invocation → List String
  | .help => []
  | .compile inputs output .. | .assemble inputs output _ => output :: inputs
  | .refresh config .. | .status config _ | .toggle config .. | .watch config =>
    settingsPaths disk config

end Blocklist.CommandLine.Invocation
