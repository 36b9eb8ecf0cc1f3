import Std.Data.TreeMap.Raw.Basic

/-!
# Tables of a TOML document

The content of a TOML document while it is read. A table remembers how it came to be: by its own
header, on the way to a table or key further down, or by a key with dots in it. A table is opened by
a header once, a dotted key only goes through tables that dotted keys or headers further down made,
and no key is set twice.
-/

namespace Blocklist.Toml

/-- A value, as far as settings tell values apart. -/
inductive Value where
  | string (text : String)
  | integer (value : Int)
  /-- A float, a boolean, a date or time, an array or an inline table. -/
  | other
  deriving DecidableEq, Repr, Inhabited

/-- What a key leads to. -/
inductive Item where
  | value (value : Value)
  /-- A table, which is `implicit` unless a header opened it, and `dotted` if a dotted key made it. -/
  | table (implicit dotted : Bool) (entries : Std.TreeMap.Raw String Item)
  /-- The tables of one name in double brackets, the last one first. -/
  | tables (last : Std.TreeMap.Raw String Item) (before : List (Std.TreeMap.Raw String Item))
  deriving Inhabited

/-- A table with the marks of how it came to be. -/
structure Table where
  implicit : Bool
  dotted : Bool
  entries : Std.TreeMap.Raw String Item
  deriving Inhabited

namespace Table

/-- A table that a header opens, and the table of a document. -/
def opened (entries : Std.TreeMap.Raw String Item) : Table :=
  ⟨false, false, entries⟩

/-- The table as what a key leads to. -/
def item (t : Table) : Item :=
  .table t.implicit t.dotted t.entries

/-- What stands under a key. -/
def get? (t : Table) (key : String) : Option Item :=
  t.entries.get? key

/-- Put an item under a key, in place of what stood there. -/
def put (t : Table) (key : String) (item : Item) : Table :=
  { t with entries := t.entries.insert key item }

/-- Change the table at the end of a path, making the tables on the way. A dotted key does not enter
a table that a header opened. -/
def modifyAt? (dotted : Bool) (change : Table → Option Table) : List String → Table → Option Table
  | [], t => change t
  | key :: path, t =>
    match t.get? key with
    | none => (modifyAt? dotted change path ⟨true, dotted, ∅⟩).map fun c => t.put key c.item
    | some (.value _) => none
    | some (.table implicit made entries) =>
      if dotted && !implicit then none
      else (modifyAt? dotted change path ⟨implicit, made, entries⟩).map fun c => t.put key c.item
    | some (.tables last before) =>
      (modifyAt? dotted change path (opened last)).map fun c => t.put key (.tables c.entries before)

/-- Set a key, once, at the end of a dotted path. A key without dots is not set in a table that dotted
keys made, nor a dotted one in another table. -/
def setKey? (path : List String) (key : String) (value : Value) (t : Table) : Option Table :=
  t |> modifyAt? true (fun t =>
    if t.dotted == path.isEmpty || (t.get? key).isSome then none
    else some (t.put key (.value value))) path

/-- Open a table by its header, unless it is there for another reason than the tables in it. -/
def openTable? (path : List String) (key : String) (t : Table) : Option Table :=
  t |> modifyAt? false (fun t =>
    match t.get? key with
    | none => some (t.put key (opened ∅).item)
    | some (.table true false entries) => some (t.put key (opened entries).item)
    | some _ => none) path

/-- Open one more table of a name in double brackets. -/
def openNext? (path : List String) (key : String) (t : Table) : Option Table :=
  t |> modifyAt? false (fun t =>
    match t.get? key with
    | none => some (t.put key (.tables ∅ []))
    | some (.tables last before) => some (t.put key (.tables ∅ (last :: before)))
    | some _ => none) path

end Table

/-- A document while it is read: its tables, and the path of the one that keys go into. -/
structure Document where
  root : Table
  current : List String
  deriving Inhabited

namespace Document

/-- The document before its first line. -/
def empty : Document :=
  ⟨.opened ∅, []⟩

/-- Continue in a table with its own header. -/
def openTable? (path : List String) (key : String) (d : Document) : Option Document :=
  (d.root.openTable? path key).map fun root => ⟨root, path ++ [key]⟩

/-- Continue in a new table of a name in double brackets. -/
def openNext? (path : List String) (key : String) (d : Document) : Option Document :=
  (d.root.openNext? path key).map fun root => ⟨root, path ++ [key]⟩

/-- Set a key in the current table. -/
def setKey? (path : List String) (key : String) (value : Value) (d : Document) : Option Document :=
  (d.root.modifyAt? false (·.setKey? path key value) d.current).map fun root => { d with root }

end Document

end Blocklist.Toml
