import Blocklist.Disk.Basic

/-!
# Outcomes of commands

What a command leaves behind: the lines it prints, the error it ends with if it fails, and the disk.
A command that fails keeps the lines it has printed and the files it has written before.
-/

namespace Blocklist.CommandLine

/-- A line that a command prints. -/
inductive Line where
  | text (text : String)
  /-- The time that the command took. -/
  | elapsed
  deriving DecidableEq, Repr

namespace Line

/-- A line as it is printed, when the command took so many tenths of a millisecond. -/
def render (tenths : Nat) : Line → String
  | .text s => s
  | .elapsed => s!"  Time:     {tenths / 10}.{tenths % 10}ms"

end Line

/-- What a command leaves behind. -/
structure Outcome where
  lines : List Line
  /-- Why the command failed, if it did. -/
  error : Option String
  disk : Disk

namespace Outcome

/-- A command that succeeds with these lines. -/
def success (lines : List String) (disk : Disk) : Outcome :=
  ⟨lines.map .text, none, disk⟩

/-- A command that fails after these lines. -/
def failure (lines : List String) (error : String) (disk : Disk) : Outcome :=
  ⟨lines.map .text, some error, disk⟩

/-- What the command tells the system that started it. -/
def exitCode (o : Outcome) : Nat :=
  if o.error.isSome then 1 else 0

end Outcome

/-- Read a file as a text, with a replacement character for every flaw. -/
def readLossy (disk : Disk) (path : String) : Except String String :=
  match disk.read path with
  | .ok content => .ok content.lossyText
  | .error fault => .error s!"Failed to read '{path}': {fault.message}"

/-- Write a text to a file, in a folder that is made if there is none. -/
def writeOutput (disk : Disk) (path text : String) : Except String Unit × Disk :=
  match disk.makeFolderOf path with
  | (.error (folder, fault), disk) => (.error s!"Failed to create '{folder}': {fault.message}", disk)
  | (.ok (), disk) =>
    match disk.write path text with
    | .error fault => (.error s!"Failed to write '{path}': {fault.message}", disk)
    | .ok disk => (.ok (), disk)

end Blocklist.CommandLine
