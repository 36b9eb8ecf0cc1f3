/-!
# Lines that give no record

Why a line of a filter list gives no record, in words.
-/

namespace Blocklist.Filter

/-- Why a line gives no record. -/
inductive LineError where
  /-- The pattern of a network filter, without its anchors, is too short. -/
  | patternTooShort (pattern : String)
  /-- Nothing stands behind the marker of an element-hiding rule. -/
  | emptySelector
  /-- No marker of an element-hiding rule is found. -/
  | missingMarker
  /-- No call of a scriptlet is found. -/
  | malformedScriptlet
  /-- The call names no scriptlet. -/
  | emptyScriptletName
  deriving DecidableEq, Repr

namespace LineError

/-- The error in words. -/
def message : LineError → String
  | .patternTooShort pattern => s!"URL filter '{pattern}' is shorter than 3 characters"
  | .emptySelector => "Cosmetic rule has an empty selector"
  | .missingMarker => "No cosmetic marker found"
  | .malformedScriptlet => "Scriptlet does not match domains#+js(name, ...)"
  | .emptyScriptletName => "Scriptlet has an empty name"

end LineError

end Blocklist.Filter
