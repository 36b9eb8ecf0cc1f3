import Std.Time.DateTime.Timestamp
import Blocklist.CommandLine.Run

/-!
# The program

Reads the files that a command needs, runs it, writes the files it changed, and prints its lines.
There is no network here: every download fails, and the lists keep what was compiled for them.
-/

namespace Blocklist.Program

open CommandLine

/-- The point in time now. -/
def now : IO Timestamp := do
  let t ← Std.Time.Timestamp.now
  let since := t.toDurationSinceUnixEpoch
  return (Timestamp.ofSeconds? since.second.val since.nano.val.toNat).getD default

/-- Servers that cannot be reached. -/
def servers : IO Servers := do
  return .uniform (fun _ => .error .http) (← now)

/-- A disk without files, worked on from the folder that the program was started in. -/
def emptyDisk : IO Disk := do
  let working := (Path.parts (← IO.currentDir).toString).reverse
  return { Disk.empty.putWithFolders working .folder with working }

/-- What stands at a place, if anything does. What is neither a folder nor a file is not read; it is
taken for an empty file, so that it gets what is written. -/
def node? (place : Place) : IO (Option Node) := do
  match ← ((← IO.currentDir) / place.text).metadata.toBaseIO with
  | .error _ => return none
  | .ok data =>
    match data.type with
    | .dir => return some .folder
    | .file =>
      match ← (IO.FS.readBinFile place.text).toBaseIO with
      | .ok octets => return some (.file (Content.ofOctets octets.toList))
      | .error _ => return none
    | _ => return some (.file (.text ""))

/-- Bring what stands at a place onto a disk. -/
def loadPlace (disk : Disk) (place : Place) : IO Disk := do
  match ← node? place with
  | some node => return disk.put place node
  | none => return disk

/-- Bring what stands at a path, and on the way to it, onto a disk. -/
def loadPath (disk : Disk) (path : String) : IO Disk := do
  let mut disk := disk
  let mut place := if path.startsWith "/" then [] else disk.working
  for part in Path.parts path do
    if part == ".." then place := place.tail
    else if part != "." then
      place := part :: place
      disk ← loadPlace disk place
  return disk

/-- Make the folders, write the files and remove what is gone, where a disk changed. -/
def storeChanges (before after : Disk) : IO Unit := do
  for (place, node) in after.nodes.entries do
    if before.nodes.get? place != some node then
      match node with
      | .folder => IO.FS.createDirAll place
      | .file (.text text) => IO.FS.writeFile place text
      | _ => pure ()
  for place in before.nodes.keys do
    if (after.nodes.get? place).isNone then IO.FS.removeFile place

/-- The disk that a command needs to see. -/
def diskFor (invocation : Invocation) : IO Disk := do
  let disk ← invocation.config?.toList.foldlM loadPath (← emptyDisk)
  let paths := invocation.paths disk
  (paths ++ paths.map Path.staging).foldlM loadPath disk

/-- Print the lines of a command, and its error. -/
def report (outcome : Outcome) (tenths : Nat) : IO UInt32 := do
  for line in outcome.lines do
    IO.println (line.render tenths)
  if let some error := outcome.error then
    IO.eprintln ("Error: " ++ error)
  return UInt32.ofNat outcome.exitCode

/-- Run a command once. -/
def once (invocation : Invocation) : IO UInt32 := do
  let start ← IO.monoNanosNow
  let disk ← diskFor invocation
  let outcome := invocation.run disk (← servers)
  storeChanges disk outcome.disk
  report outcome (((← IO.monoNanosNow) - start) / 100000)

/-- Let a schedule run on, second by second. -/
partial def keepWatch (disk : Disk) (scheduler : Scheduler Workspace) : IO Unit := do
  IO.sleep 1000
  let answers ← servers
  let scheduler := scheduler.elapse 1 fun _ => answers
  storeChanges disk scheduler.session.world.disk
  keepWatch scheduler.session.world.disk scheduler

/-- Refresh the lists on a schedule, until the program is stopped from outside. -/
def watch (invocation : Invocation) (config : Option String) : IO UInt32 := do
  let disk ← diskFor invocation
  match startWatch disk config (← servers) with
  | .error error => report (.failure [] error disk) 0
  | .ok scheduler =>
    storeChanges disk scheduler.session.world.disk
    keepWatch scheduler.session.world.disk scheduler
    return 0

/-- Run the command that words name. -/
def run (words : List String) : IO UInt32 := do
  match Invocation.ofWords words with
  | .error error =>
    IO.eprintln ("error: " ++ error.message)
    return 2
  | .ok (.watch config) => watch (.watch config) config
  | .ok invocation => once invocation

end Blocklist.Program

/-- The program. -/
def main (words : List String) : IO UInt32 :=
  Blocklist.Program.run words
