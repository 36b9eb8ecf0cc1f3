import Blocklist.Disk.Basic
import Blocklist.Distinct
import Blocklist.Json.Parser
import Blocklist.Timestamp

/-!
# The manifest and its lists

The catalogue of filter lists that ships with the program, the state a list has while the program
runs, and the part of that state that outlives a run.
-/

namespace Blocklist

/-- Where a part of a list is downloaded. -/
structure ListSource where
  title : String
  url : String
  deriving DecidableEq, Repr, Inhabited

instance : JsonCodec ListSource where
  encode s := .object [("title", .of s.title), ("url", .of s.url)]
  decode? v :=
    match v.slots ["title", "url"] with
    | some [title, url] => do return ⟨← Json.required title, ← Json.required url⟩
    | _ => none

/-- A list in the catalogue. -/
structure ListDescriptor where
  id : String
  title : String
  category : String
  enabledByDefault : Bool
  priority : Int32
  sources : List ListSource
  requiresScriptlets : Bool
  deriving DecidableEq, Inhabited

instance : JsonCodec ListDescriptor where
  encode d := .object [("id", .of d.id), ("title", .of d.title), ("category", .of d.category),
    ("enabledByDefault", .of d.enabledByDefault), ("priority", .of d.priority),
    ("sources", .of d.sources), ("requiresScriptlets", .of d.requiresScriptlets)]
  decode? v :=
    match v.slots ["id", "title", "category", "enabledByDefault", "priority", "sources",
      "requiresScriptlets"] with
    | some [id, title, category, enabled, priority, sources, requires] => do
      return ⟨← Json.required id, ← Json.required title, ← Json.required category,
        ← Json.withDefault false enabled, ← Json.withDefault 0 priority, ← Json.required sources,
        ← Json.withDefault false requires⟩
    | _ => none

/-- How a category of lists is shown. -/
structure Category where
  name : String
  description : Option String
  icon : Option String
  deriving DecidableEq, Repr, Inhabited

instance : JsonCodec Category where
  encode c := .object <| [("name", .of c.name)] ++ Json.optionalMember "description" c.description ++
    Json.optionalMember "icon" c.icon
  decode? v :=
    match v.slots ["name", "description", "icon"] with
    | some [name, description, icon] => do
      return ⟨← Json.withDefault "" name, ← Json.withDefault none description,
        ← Json.withDefault none icon⟩
    | _ => none

/-- The catalogue of lists. -/
structure Manifest where
  lists : List ListDescriptor
  categories : Dict Category

instance : JsonCodec Manifest where
  encode m := .object [("lists", .of m.lists), ("categories", .of m.categories)]
  decode? v :=
    match v.slots ["lists", "categories"] with
    | some [lists, categories] => do
      return ⟨← Json.required lists, ← Json.withDefault .empty categories⟩
    | _ => none

/-- Why a catalogue cannot be used. -/
inductive ManifestError where
  | io (path : String) (fault : IoFault)
  | json
  | duplicateListId (id : String)
  deriving DecidableEq, Repr

namespace ManifestError

/-- The error in words. -/
def message : ManifestError → String
  | .io path fault => s!"Failed to read '{path}': {fault.message}"
  | .json => "Invalid manifest: unexpected form"
  | .duplicateListId id => s!"Duplicate list id '{id}' in manifest"

end ManifestError

namespace Manifest

/-- The catalogue of a JSON text, in which every id stands once. -/
def ofText (text : String) : Except ManifestError Manifest :=
  match (Json.ofText? text).bind (Json.as? Manifest) with
  | none => .error .json
  | some manifest =>
    match firstRepeated? ∅ (manifest.lists.map (·.id)) with
    | some id => .error (.duplicateListId id)
    | none => .ok manifest

/-- The catalogue in a file. -/
def load (disk : Disk) (path : String) : Except ManifestError Manifest :=
  match disk.readText path with
  | .ok text => ofText text
  | .error fault => .error (.io path fault)

end Manifest

/-- The part of a list's state that outlives a run. -/
structure ListMetadata where
  ruleCount : UInt64
  lastFetch : Option Timestamp
  etag : Option String
  /-- Unknown for a list that was never saved. -/
  enabled : Option Bool
  deriving DecidableEq, Repr, Inhabited

instance : JsonCodec ListMetadata where
  encode m := .object [("ruleCount", .of m.ruleCount), ("lastFetch", .of m.lastFetch),
    ("etag", .of m.etag), ("enabled", .of m.enabled)]
  decode? v :=
    match v.slots ["ruleCount", "lastFetch", "etag", "enabled"] with
    | some [count, fetched, etag, enabled] => do
      return ⟨← Json.withDefault 0 count, ← Json.withDefault none fetched,
        ← Json.withDefault none etag, ← Json.withDefault none enabled⟩
    | _ => none

/-- The state of a list while the program runs. -/
structure FilterList where
  id : String
  title : String
  category : String
  priority : Int32
  sources : List ListSource
  requiresScriptlets : Bool
  enabled : Bool
  /-- The number of network rules last compiled. -/
  ruleCount : UInt64
  /-- When a server last answered for the list. -/
  lastFetch : Option Timestamp
  /-- The validator last delivered. -/
  etag : Option String
  deriving DecidableEq, Inhabited

namespace FilterList

/-- The state of a list that nothing is known of but its description. -/
def ofDescriptor (d : ListDescriptor) : FilterList where
  id := d.id
  title := d.title
  category := d.category
  priority := d.priority
  sources := d.sources
  requiresScriptlets := d.requiresScriptlets
  enabled := d.enabledByDefault
  ruleCount := 0
  lastFetch := none
  etag := none

/-- The part of the state that outlives a run. -/
def metadata (l : FilterList) : ListMetadata :=
  ⟨l.ruleCount, l.lastFetch, l.etag, some l.enabled⟩

/-- The state with a part that was saved. -/
def withMetadata (l : FilterList) (m : ListMetadata) : FilterList :=
  { l with
    ruleCount := m.ruleCount
    lastFetch := m.lastFetch
    etag := m.etag
    enabled := m.enabled.getD l.enabled }

end FilterList

end Blocklist
