/-!
# Paths

A path is a row of parts with slashes between them. An empty part stands for nothing, a single dot
for the folder it stands in, two dots for the folder above that one.

Here is what a path says by its text alone: the name of the file it leads to, the path of the folder
around it, and the path beside it where new content is prepared. Slashes and single dots at the end
of a path count for nothing in these.
-/

namespace Blocklist.Path

/-- The most octets that a name may have. -/
def maxNameSize : Nat := 255

/-- The most octets that a path may have. -/
def maxSize : Nat := 4095

/-- The parts of a path, without the empty ones. -/
def parts (path : String) : List String :=
  ((path.toList.splitOn '/').filter fun part => !part.isEmpty).map String.ofList

/-- The characters of a path, last one first, without the slashes and single dots at its end. The
first character of a path stays. -/
def trimEnd : List Char → List Char
  | '/' :: c :: s => trimEnd (c :: s)
  | '.' :: '/' :: s => trimEnd ('/' :: s)
  | s => s

/-- The last part of a path and all that stands before it, the last character of each first. -/
def splitLast (path : String) : List Char × List Char :=
  (trimEnd path.toList.reverse).span (· ≠ '/')

/-- The name of the file a path leads to. A path that ends in two dots, and one without a name in
it, leads to none. -/
def fileName? (path : String) : Option (List Char) :=
  let name := (splitLast path).1.reverse
  if name.isEmpty || name == ['.'] || name == ['.', '.'] then none else some name

/-- A name without its last extension. A dot in front of a name starts no extension. -/
def stem (name : List Char) : List Char :=
  match name.reverse.span (· ≠ '.') with
  | (_, '.' :: before) => if before.isEmpty then name else before.reverse
  | _ => name

/-- The id of the list that a path leads to: the name of the file without its extension. -/
def listId (path : String) : String :=
  match fileName? path with
  | some name => String.ofList (stem name)
  | none => "list"

/-- The path of the folder around what a path leads to, unless it has one part only. -/
def folder? (path : String) : Option String :=
  let (name, before) := splitLast path
  if name.isEmpty || before.isEmpty then none
  else some (String.ofList (trimEnd before).reverse)

/-- The path beside a file at which its next content is prepared: its last extension is another one.
A path without a name stays as it is. The name `..x` loses its extension before it gets another one,
and what is left of it is no name. -/
def staging (path : String) : String :=
  match fileName? path with
  | none => path
  | some name =>
    let before := (splitLast path).2.reverse
    let endsInName := trimEnd path.toList.reverse == path.toList.reverse
    if stem name == ['.'] && endsInName then String.ofList (before ++ ['.', '.'])
    else String.ofList (before ++ stem name) ++ ".json.tmp"

end Blocklist.Path
