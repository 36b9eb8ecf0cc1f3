import Blocklist.Filter.Error
import Blocklist.Filter.Options

/-!
# Network filters

A filter such as `||ads.example.com^$script` blocks requests whose address matches its pattern; with
`@@` in front it lets them through. The anchors around a pattern are taken off, and what stands
between them is the pattern of the rule.
-/

namespace Blocklist.Filter

/-- A network rule without its id. -/
structure RuleBody where
  priority : UInt32
  action : RuleAction
  condition : RuleCondition
  deriving DecidableEq, Repr

/-- The rule with an id. -/
def RuleBody.withId (body : RuleBody) (id : RuleId) : Rule :=
  ⟨id, body.priority, body.action, body.condition⟩

/-- A pattern without blank ends and anchors: two bars or one in front, and behind it a caret, then a
star. -/
def barePattern (pattern : List Char) : List Char :=
  let s := Text.trim pattern
  let s := match s with
    | '|' :: '|' :: r => r
    | '|' :: r => r
    | r => r
  let s := (Text.dropLast? '^' s).getD s
  (Text.dropLast? '*' s).getD s

/-- The pattern of a rule, if it is long enough. -/
def urlFilter (pattern : List Char) : Except LineError String :=
  let bare := barePattern pattern
  if bare.length < Rule.minFilterLength then .error (.patternTooShort (String.ofList bare))
  else .ok (String.ofList bare)

/-- The list of domains of a condition, which is left out when it is empty. -/
def someIfAny (domains : List String) : Option (List String) :=
  if domains.isEmpty then none else some domains

/-- The condition of a rule with this pattern and these options. -/
def conditionOf (filter : String) (options : Options) : RuleCondition where
  urlFilter := filter
  resourceTypes := if options.kinds.isEmpty then ResourceType.defaults else options.kinds
  initiatorDomains := someIfAny options.domains.included
  excludedInitiatorDomains := someIfAny options.domains.excluded
  domainType := options.party

/-- The pattern and the options of a filter. -/
def readFilter (line : List Char) : Except LineError (String × Options) :=
  let (pattern, text) := splitOptions line
  let options := (text.map Options.ofText).getD Options.unset
  (urlFilter pattern).map fun filter => (filter, options)

/-- The rule of a filter that blocks. -/
def blockRule (line : List Char) : Except LineError RuleBody :=
  (readFilter line).map fun (filter, options) =>
    { priority := if options.important then Rule.importantPriority else Rule.blockPriority
      action := ⟨.block⟩
      condition := conditionOf filter options }

/-- The rule of an exception, with or without the mark in front. -/
def exceptionRule (line : List Char) : Except LineError RuleBody :=
  let body := (Text.dropLead? "@@".toList line).getD line
  (readFilter body).map fun (filter, options) =>
    { priority := Rule.exceptionPriority
      action := ⟨.allow⟩
      condition := conditionOf filter options }

end Blocklist.Filter
