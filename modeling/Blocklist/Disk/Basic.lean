import Blocklist.Dict
import Blocklist.Disk.Path
import Blocklist.Text.Utf8

/-!
# Files

The files and folders that a command works on, as a value. A file holds a text, or octets that encode
none. What a path leads to is found part by part: every part but the last has to be a folder that is
there, also when two dots lead out of it again.

## Implementation notes

An operation that makes several changes returns the disk beside its result, for a change that was
made stays when a later one fails. An operation that makes one change returns a disk only on success.
-/

namespace Blocklist

/-- Why a file cannot be read or written. -/
inductive IoFault where
  | notFound
  | isFolder
  | notFolder
  | exists
  | busy
  | noSpace
  | nameTooLong
  | zeroInName
  | notText
  /-- Any other fault, in words. -/
  | other (text : String)
  deriving DecidableEq, Repr

namespace IoFault

/-- The fault in words. -/
def message : IoFault → String
  | .notFound => "No such file or directory (os error 2)"
  | .isFolder => "Is a directory (os error 21)"
  | .notFolder => "Not a directory (os error 20)"
  | .exists => "File exists (os error 17)"
  | .busy => "Device or resource busy (os error 16)"
  | .noSpace => "No space left on device (os error 28)"
  | .nameTooLong => "File name too long (os error 36)"
  | .zeroInName => "file name contained an unexpected NUL byte"
  | .notText => "stream did not contain valid UTF-8"
  | .other text => text

end IoFault

/-- What a file holds. -/
inductive Content where
  | text (text : String)
  /-- Octets that encode no text. -/
  | octets (octets : List UInt8)
  deriving DecidableEq, Repr, Inhabited

namespace Content

/-- The content made of these octets. -/
def ofOctets (octets : List UInt8) : Content :=
  match Text.Utf8.decode? octets with
  | some s => .text (String.ofList s)
  | none => .octets octets

/-- The text of a file, if it holds one. -/
def text? : Content → Option String
  | .text s => some s
  | .octets _ => none

/-- The text of a file, with a replacement character for every flaw. -/
def lossyText : Content → String
  | .text s => s
  | .octets bytes => String.ofList (Text.Utf8.decodeLossy bytes)

end Content

/-- What stands at a place. -/
inductive Node where
  | folder
  | file (content : Content)
  /-- A device that is read as an empty file. What is written to it is gone, or refused if it is
  full. -/
  | device (full : Bool)
  deriving DecidableEq, Repr, Inhabited

/-- A place on a disk: the names on the way to it from the root, the last one first. -/
abbrev Place := List String

/-- The text of a place, which is a path from the root. -/
def Place.text (place : Place) : String :=
  "/" ++ String.intercalate "/" place.reverse

/-- What stands where on a disk. The root is always a folder. -/
structure Disk where
  /-- What stands at the places below the root, by their texts. -/
  nodes : Dict Node
  /-- The folder from which a path leads on that does not start with a slash. -/
  working : Place
  deriving Inhabited

namespace Disk

/-- A disk without files. -/
def empty : Disk :=
  ⟨.empty, []⟩

/-- Put a node at a place, instead of what stood there. -/
def put (disk : Disk) (place : Place) (node : Node) : Disk :=
  { disk with nodes := disk.nodes.insert place.text node }

/-- Clear a place. -/
def clear (disk : Disk) (place : Place) : Disk :=
  { disk with nodes := disk.nodes.erase place.text }

/-- Put a node at a place, with all folders on the way to it. -/
def putWithFolders (disk : Disk) (place : Place) (node : Node) : Disk :=
  match place with
  | [] => disk
  | name :: folder => (disk.putWithFolders folder .folder).put (name :: folder) node

/-- What stands at a place. -/
def look (disk : Disk) (place : Place) : Except IoFault Node :=
  match place with
  | [] => .ok .folder
  | name :: _ =>
    if Path.maxNameSize < name.utf8ByteSize then .error .nameTooLong
    else
      match disk.nodes.get? place.text with
      | some node => .ok node
      | none => .error .notFound

/-- Go on from a folder to another one by a part of a path. -/
def enter (disk : Disk) (folder : Place) (part : String) : Except IoFault Place :=
  if part == "." then .ok folder
  else if part == ".." then .ok folder.tail
  else
    match disk.look (part :: folder) with
    | .ok .folder => .ok (part :: folder)
    | .ok _ => .error .notFolder
    | .error fault => .error fault

/-- What a path leads to. -/
inductive Target where
  /-- A folder that the path leads into by dots, or the root. -/
  | folder
  /-- A place in a folder, where something may stand or not, and whether a slash follows its name. -/
  | place (place : Place) (slash : Bool)
  deriving DecidableEq, Repr

/-- Why a path leads nowhere on any disk, if it does not. -/
def pathFault? (path : String) : Option IoFault :=
  if path.toList.contains '\x00' then some .zeroInName
  else if path.isEmpty then some .notFound
  else if Path.maxSize < path.utf8ByteSize then some .nameTooLong
  else none

/-- The folder that a path leads on from. -/
def start (disk : Disk) (path : String) : Place :=
  if path.toList.head? == some '/' then [] else disk.working

/-- Find what a path leads to. -/
def target (disk : Disk) (path : String) : Except IoFault Target :=
  match pathFault? path with
  | some fault => .error fault
  | none =>
    let parts := Path.parts path
    match parts.dropLast.foldlM disk.enter (disk.start path) with
    | .error fault => .error fault
    | .ok folder =>
      match parts.getLast? with
      | none | some "." | some ".." => .ok .folder
      | some name => .ok (.place (name :: folder) (path.toList.getLast? == some '/'))

/-- The content of a file. -/
def read (disk : Disk) (path : String) : Except IoFault Content :=
  match disk.target path with
  | .error fault => .error fault
  | .ok .folder => .error .isFolder
  | .ok (.place place slash) =>
    match disk.look place with
    | .error fault => .error fault
    | .ok .folder => .error .isFolder
    | .ok (.device _) => if slash then .error .notFolder else .ok (.text "")
    | .ok (.file content) => if slash then .error .notFolder else .ok content

/-- The text of a file. -/
def readText (disk : Disk) (path : String) : Except IoFault String :=
  match disk.read path with
  | .ok content =>
    match content.text? with
    | some text => .ok text
    | none => .error .notText
  | .error fault => .error fault

/-- Write a text to a file, in place of what it held. -/
def write (disk : Disk) (path text : String) : Except IoFault Disk :=
  match disk.target path with
  | .error fault => .error fault
  | .ok .folder | .ok (.place _ true) => .error .isFolder
  | .ok (.place place false) =>
    match disk.look place with
    | .error .notFound | .ok (.file _) => .ok (disk.put place (.file (.text text)))
    | .error fault => .error fault
    | .ok .folder => .error .isFolder
    | .ok (.device full) => if full then .error .noSpace else .ok disk

/-- Move a file to another path, in place of a file that stands there. -/
def move (disk : Disk) (source path : String) : Except IoFault Disk :=
  match disk.target source, disk.target path with
  | .error fault, _ => .error fault
  | _, .error fault => .error fault
  | .ok (.place old slash), .ok (.place new slash') =>
    match disk.look old, disk.look new with
    | .error fault, _ => .error fault
    | .ok _, .error .nameTooLong => .error .nameTooLong
    | .ok node, there =>
      if slash || slash' then .error .notFolder
      else
        match node, there with
        | .folder, _ | _, .ok .folder => .error .isFolder
        | _, _ => .ok ((disk.clear old).put new node)
  | .ok _, .ok _ => .error .busy

/-- Make the folders along the parts of a path that are missing, on from a folder that is there. Where a
file is in the way, there is no going on through it, until a folder was made (`making`) or at the last
part: then there is no making a folder in its place. -/
def makeAlong (making : Bool) (disk : Disk) (folder : Place) :
    List String → Except IoFault Unit × Disk
  | [] => (.ok (), disk)
  | part :: rest =>
    if part == "." then makeAlong making disk folder rest
    else if part == ".." then makeAlong making disk folder.tail rest
    else
      let place := part :: folder
      match disk.look place with
      | .ok .folder => makeAlong making disk place rest
      | .ok _ => (.error (if making || rest.isEmpty then .exists else .notFolder), disk)
      | .error .notFound => makeAlong true (disk.put place .folder) place rest
      | .error fault => (.error fault, disk)

/-- Make a folder and those above it, as far as they are missing. -/
def makeFolders (disk : Disk) (path : String) : Except IoFault Unit × Disk :=
  match pathFault? path with
  | some fault => (.error fault, disk)
  | none => makeAlong false disk (disk.start path) (Path.parts path)

/-- Make the folder of a path. A fault names the folder. -/
def makeFolderOf (disk : Disk) (path : String) : Except (String × IoFault) Unit × Disk :=
  match Path.folder? path with
  | none => (.ok (), disk)
  | some folder =>
    let (result, disk) := disk.makeFolders folder
    (result.mapError fun fault => (folder, fault), disk)

/-- Write a text to a file by way of a second file that then takes its place, so that the file never
holds a part of the text. The folder is made if there is none. A fault names its path. -/
def replace (disk : Disk) (path text : String) : Except (String × IoFault) Unit × Disk :=
  match disk.makeFolderOf path with
  | (.error fault, disk) => (.error fault, disk)
  | (.ok (), disk) =>
    let staging := Path.staging path
    match disk.write staging text with
    | .error fault => (.error (staging, fault), disk)
    | .ok disk =>
      match disk.move staging path with
      | .error fault => (.error (path, fault), disk)
      | .ok disk => (.ok (), disk)

end Disk

end Blocklist
