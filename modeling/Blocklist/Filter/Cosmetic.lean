import Blocklist.Filter.Error
import Blocklist.Host
import Blocklist.Rule.Basic
import Blocklist.Text.Split

/-!
# Element-hiding rules

A line such as `example.com##.banner`: domains, a marker, and a selector. Three markers exist. They
are looked for in a fixed order, each in the whole line, and the first one found cuts the line.
-/

namespace Blocklist.Filter

/-- A mark between the domains of an element-hiding rule and its selector. -/
inductive CosmeticMarker where
  /-- The rule is an exception. -/
  | exception
  /-- The rule hides elements. -/
  | plain
  /-- The rule hides elements, by an extended selector. -/
  | extended
  deriving DecidableEq, Repr

namespace CosmeticMarker

/-- The characters of a marker. -/
def text : CosmeticMarker → List Char
  | exception => ['#', '@', '#']
  | plain => ['#', '#']
  | extended => ['#', '?', '#']

/-- The markers in the order in which they are looked for. -/
def order : List CosmeticMarker :=
  [exception, plain, extended]

end CosmeticMarker

/-- Whether a line holds the marker of an element-hiding rule. -/
def isCosmeticLine (line : List Char) : Bool :=
  CosmeticMarker.order.any fun marker => Text.occurs marker.text line

/-- An element-hiding rule without its id and its list. -/
structure CosmeticBody where
  scope : DomainScope
  selector : String
  exception : Bool
  deriving DecidableEq, Repr

/-- The rule with an id, in a list. -/
def CosmeticBody.withId (body : CosmeticBody) (listId : String) (id : RuleId) : CosmeticRule where
  id := s!"cosmetic_{id.toNat}"
  listId := listId
  domains := body.scope.included
  excludeDomains := body.scope.excluded
  selector := body.selector
  exception := body.exception

/-- The first marker found in a line, with the parts before and after it. -/
def splitCosmetic? (line : List Char) : Option (CosmeticMarker × List Char × List Char) :=
  CosmeticMarker.order.findSome? fun marker =>
    (Text.splitFirst? marker.text line).map fun (before, after) => (marker, before, after)

/-- The element-hiding rule of a line. -/
def cosmeticRule (line : List Char) : Except LineError CosmeticBody :=
  match splitCosmetic? line with
  | none => .error .missingMarker
  | some (marker, before, after) =>
    match Text.trim after with
    | [] => .error .emptySelector
    | selector =>
      .ok ⟨DomainScope.ofChars before, String.ofList selector, marker = .exception⟩

end Blocklist.Filter
