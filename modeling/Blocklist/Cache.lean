import Blocklist.CompiledList

/-!
# The cache of compiled lists

For every list, what was compiled from each of its sources. The parts of a list are kept apart, so
that a source without news keeps its part while another one is replaced.
-/

namespace Blocklist

/-- What was compiled from one source of a list. -/
structure Segment where
  /-- Where the source is. -/
  url : String
  /-- The validator that came with its text. -/
  etag : Option String
  rules : List Rule
  cosmeticRules : List CosmeticRule
  scriptlets : List Scriptlet
  stats : LineStats
  deriving DecidableEq, Repr, Inhabited

namespace Segment

/-- The segment of a compiled text. -/
def ofCompiled (url : String) (etag : Option String) (list : CompiledList) : Segment :=
  ⟨url, etag, list.rules, list.cosmeticRules, list.scriptlets, list.stats⟩

/-- The numbers in the ids of the records. -/
def ids (s : Segment) : List RuleId :=
  s.rules.map (·.id) ++ s.cosmeticRules.filterMap (RuleId.ofTail? ·.id.toList) ++
    s.scriptlets.filterMap (RuleId.ofTail? ·.id.toList)

end Segment

instance : JsonCodec Segment where
  encode s := .object [("url", .of s.url), ("etag", .of s.etag), ("rules", .of s.rules),
    ("cosmeticRules", .of s.cosmeticRules), ("scriptlets", .of s.scriptlets),
    ("stats", .of s.stats)]
  decode? v :=
    match v.slots ["url", "etag", "rules", "cosmeticRules", "scriptlets", "stats"] with
    | some [url, etag, rules, cosmetic, scriptlets, stats] => do
      return ⟨← Json.required url, ← Json.withDefault none etag, ← Json.withDefault [] rules,
        ← Json.withDefault [] cosmetic, ← Json.withDefault [] scriptlets,
        ← Json.withDefault .zero stats⟩
    | _ => none

/-- What was compiled for one list, in the order of its sources. -/
structure ListArtifacts where
  sources : List Segment
  deriving DecidableEq, Repr, Inhabited

instance : JsonCodec ListArtifacts where
  encode a := .object [("sources", .of a.sources)]
  decode? v :=
    match v.slots ["sources"] with
    | some [sources] => do return ⟨← Json.required sources⟩
    | _ => none

namespace ListArtifacts

/-- The segment of a source. -/
def source? (a : ListArtifacts) (url : String) : Option Segment :=
  a.sources.find? (·.url == url)

/-- The network rules of every source. -/
def ruleSlices (a : ListArtifacts) : List (List Rule) :=
  a.sources.map (·.rules)

/-- All network rules. -/
def rules (a : ListArtifacts) : List Rule :=
  a.sources.flatMap (·.rules)

/-- All element-hiding rules. -/
def cosmeticRules (a : ListArtifacts) : List CosmeticRule :=
  a.sources.flatMap (·.cosmeticRules)

/-- All calls of scriptlets. -/
def scriptlets (a : ListArtifacts) : List Scriptlet :=
  a.sources.flatMap (·.scriptlets)

/-- The number of network rules. -/
def ruleCount (a : ListArtifacts) : UInt64 :=
  .ofNat a.rules.length

/-- The counts of the lines of all sources. -/
def stats (a : ListArtifacts) : LineStats :=
  LineStats.sum (a.sources.map (·.stats))

/-- The numbers in the ids of all records. -/
def ids (a : ListArtifacts) : List RuleId :=
  a.sources.flatMap Segment.ids

/-- The greatest number in an id. -/
def maxId? (a : ListArtifacts) : Option RuleId :=
  a.ids.max?

end ListArtifacts

/-- What was compiled for every list, by the ids of the lists. -/
abbrev RuleCache := Dict ListArtifacts

namespace RuleCache

/-- The greatest number in an id. -/
def maxId? (cache : RuleCache) : Option RuleId :=
  (cache.values.flatMap ListArtifacts.ids).max?

end RuleCache

end Blocklist
