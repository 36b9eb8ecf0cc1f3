import Blocklist.Rule.Id
import Blocklist.Rule.ResourceType

/-!
# Rules

What a filter list compiles to: network rules for the engine, element-hiding rules and calls of
scriptlets for pages. The names of the fields in JSON are fixed by the engine; an optional part of a
condition is left out when there is none.
-/

namespace Blocklist

/-- What the engine does with a request that matches. -/
inductive ActionKind where
  | block
  | allow
  deriving DecidableEq, Repr, Inhabited

namespace ActionKind

/-- The name of an action in the engine. -/
def name : ActionKind → String
  | block => "block"
  | allow => "allow"

/-- The action with a name in the engine. -/
def named? (name : String) : Option ActionKind :=
  [block, allow].find? fun kind => kind.name == name

instance : JsonCodec ActionKind where
  encode kind := .string kind.name
  decode? := Json.choice? named?

end ActionKind

/-- The action of a rule. -/
structure RuleAction where
  kind : ActionKind
  deriving DecidableEq, Repr, Inhabited

instance : JsonCodec RuleAction where
  encode action := .object [("type", .of action.kind)]
  decode? v :=
    match v.slots ["type"] with
    | some [kind] => do return ⟨← Json.required kind⟩
    | _ => none

/-- Which requests a rule takes, by the site that makes them. -/
inductive Party where
  | first
  | third
  deriving DecidableEq, Repr, Inhabited

namespace Party

/-- The name of a party in the engine. -/
def name : Party → String
  | first => "firstParty"
  | third => "thirdParty"

/-- The party with a name in the engine. -/
def named? (name : String) : Option Party :=
  [first, third].find? fun party => party.name == name

instance : JsonCodec Party where
  encode party := .string party.name
  decode? := Json.choice? named?

end Party

/-- The requests that a rule matches. -/
structure RuleCondition where
  /-- The pattern of the address. -/
  urlFilter : String
  /-- The kinds of request. -/
  resourceTypes : List ResourceType
  /-- The sites whose requests match, if only some do. -/
  initiatorDomains : Option (List String)
  /-- The sites whose requests do not match. -/
  excludedInitiatorDomains : Option (List String)
  /-- The party whose requests match, if only one does. -/
  domainType : Option Party
  deriving DecidableEq, Repr, Inhabited

instance : JsonCodec RuleCondition where
  encode c := .object <|
    [("urlFilter", .of c.urlFilter), ("resourceTypes", .of c.resourceTypes)] ++
      Json.optionalMember "initiatorDomains" c.initiatorDomains ++
      Json.optionalMember "excludedInitiatorDomains" c.excludedInitiatorDomains ++
      Json.optionalMember "domainType" c.domainType
  decode? v :=
    match v.slots ["urlFilter", "resourceTypes", "initiatorDomains", "excludedInitiatorDomains",
      "domainType"] with
    | some [url, types, initiators, excluded, party] => do
      return ⟨← Json.required url, ← Json.required types, ← Json.withDefault none initiators,
        ← Json.withDefault none excluded, ← Json.withDefault none party⟩
    | _ => none

/-- A network rule. -/
structure Rule where
  id : RuleId
  /-- The rule of greater priority decides. -/
  priority : UInt32
  action : RuleAction
  condition : RuleCondition
  deriving DecidableEq, Repr, Inhabited

namespace Rule

/-- The priority of a rule that blocks. -/
def blockPriority : UInt32 := 1

/-- The priority of an exception. -/
def exceptionPriority : UInt32 := 2

/-- The priority of a rule that blocks in spite of exceptions. -/
def importantPriority : UInt32 := 100

/-- The fewest characters of a pattern. -/
def minFilterLength : Nat := 3

/-- The most rules the engine accepts at one time. -/
def engineLimit : Nat := 30000

end Rule

instance : JsonCodec Rule where
  encode r := .object [("id", .of r.id), ("priority", .of r.priority), ("action", .of r.action),
    ("condition", .of r.condition)]
  decode? v :=
    match v.slots ["id", "priority", "action", "condition"] with
    | some [id, priority, action, condition] => do
      return ⟨← Json.required id, ← Json.required priority, ← Json.required action,
        ← Json.required condition⟩
    | _ => none

/-- A change of the engine's rules: some are removed, then others are added. -/
structure RuleUpdate where
  removeRuleIds : List RuleId
  addRules : List Rule
  deriving DecidableEq, Repr, Inhabited

instance : JsonCodec RuleUpdate where
  encode u := .object [("removeRuleIds", .of u.removeRuleIds), ("addRules", .of u.addRules)]
  decode? v :=
    match v.slots ["removeRuleIds", "addRules"] with
    | some [remove, add] => do return ⟨← Json.required remove, ← Json.required add⟩
    | _ => none

/-- A rule that hides elements of a page. -/
structure CosmeticRule where
  id : String
  listId : String
  domains : List String
  excludeDomains : List String
  selector : String
  /-- An exception hides nothing. -/
  exception : Bool
  deriving DecidableEq, Repr, Inhabited

instance : JsonCodec CosmeticRule where
  encode r := .object [("id", .of r.id), ("listId", .of r.listId), ("domains", .of r.domains),
    ("excludeDomains", .of r.excludeDomains), ("selector", .of r.selector),
    ("exception", .of r.exception)]
  decode? v :=
    match v.slots ["id", "listId", "domains", "excludeDomains", "selector", "exception"] with
    | some [id, list, domains, excluded, selector, exception] => do
      return ⟨← Json.required id, ← Json.required list, ← Json.required domains,
        ← Json.required excluded, ← Json.required selector, ← Json.required exception⟩
    | _ => none

/-- A call of a scriptlet on a page. -/
structure Scriptlet where
  id : String
  listId : String
  domains : List String
  excludeDomains : List String
  name : String
  args : List String
  deriving DecidableEq, Repr, Inhabited

instance : JsonCodec Scriptlet where
  encode s := .object [("id", .of s.id), ("listId", .of s.listId), ("domains", .of s.domains),
    ("excludeDomains", .of s.excludeDomains), ("name", .of s.name), ("args", .of s.args)]
  decode? v :=
    match v.slots ["id", "listId", "domains", "excludeDomains", "name", "args"] with
    | some [id, list, domains, excluded, name, args] => do
      return ⟨← Json.required id, ← Json.required list, ← Json.required domains,
        ← Json.required excluded, ← Json.required name, ← Json.required args⟩
    | _ => none

end Blocklist
