import Blocklist.Host
import Blocklist.Rule.Basic
import Blocklist.Text.Split

/-!
# Options of a network filter

The part of a filter after its first dollar sign is a list of tokens between commas. A token names a
resource type, a party, a list of domains or the important flag; a tilde in front turns a token round.
Case does not matter, and blanks around a token do not either.

The options of a text are read off its list of tokens field by field, so the options of two texts
joined by a comma come from the two lists joined.
-/

namespace Blocklist.Filter

/-- One option. -/
inductive OptionToken where
  /-- Domains the rule is for, or not for. -/
  | domains (entries : List DomainScope.Entry)
  /-- Only requests of this party. -/
  | party (side : Party)
  /-- The rule beats exceptions. -/
  | important
  /-- Only requests of this type, among others. -/
  | kind (resource : ResourceType)
  /-- No requests of this type. It is noted and has no effect. -/
  | notKind (resource : ResourceType)
  /-- A token that names nothing, as it is written. -/
  | unknown (text : String)
  deriving DecidableEq, Repr

namespace OptionToken

/-- The option that a token without blank ends stands for. -/
def ofToken (token : List Char) : OptionToken :=
  let lower := token.map Char.toLower
  match Text.dropLead? "domain=".toList lower with
  | some value => .domains (DomainScope.entries '|' value)
  | none =>
    if lower = "third-party".toList then .party .third
    else if lower = "~third-party".toList || lower = "first-party".toList then .party .first
    else if lower = "important".toList then .important
    else
      match lower with
      | '~' :: name =>
        match ResourceType.ofOptionName? (String.ofList name) with
        | some resource => .notKind resource
        | none => .unknown (String.ofList token)
      | name =>
        match ResourceType.ofOptionName? (String.ofList name) with
        | some resource => .kind resource
        | none => .unknown (String.ofList token)

/-- The type that an option adds. -/
def kind? : OptionToken → Option ResourceType
  | .kind resource => some resource
  | _ => none

/-- The type that an option takes away. -/
def notKind? : OptionToken → Option ResourceType
  | .notKind resource => some resource
  | _ => none

/-- The party that an option sets. -/
def party? : OptionToken → Option Party
  | .party side => some side
  | _ => none

/-- The entries of domains in an option. -/
def domainEntries : OptionToken → List DomainScope.Entry
  | .domains entries => entries
  | _ => []

/-- The text of an option that names nothing. -/
def unknown? : OptionToken → Option String
  | .unknown text => some text
  | _ => none

/-- The options of a text, in order. -/
def ofText (s : List Char) : List OptionToken :=
  (((s.splitOn ',').map Text.trim).filter (!·.isEmpty)).map ofToken

end OptionToken

/-- What the options of a filter say. -/
structure Options where
  /-- The types it names, each once, in the order of their first mention. -/
  kinds : List ResourceType
  /-- The domains it is for and not for. -/
  domains : DomainScope
  /-- The party it is for; the last mention counts. -/
  party : Option Party
  important : Bool
  /-- The types it takes away, in the order of their bits. -/
  notKinds : List ResourceType
  /-- The tokens that name nothing. -/
  unknown : List String
  deriving DecidableEq, Repr

namespace Options

/-- The options that a list of tokens gives. -/
def ofTokens (tokens : List OptionToken) : Options where
  kinds := (tokens.filterMap OptionToken.kind?).eraseDups
  domains := .ofEntries (tokens.flatMap OptionToken.domainEntries)
  party := (tokens.filterMap OptionToken.party?).getLast?
  important := tokens.contains .important
  notKinds :=
    let gone := tokens.filterMap OptionToken.notKind?
    ResourceType.all.filter gone.contains
  unknown := tokens.filterMap OptionToken.unknown?

/-- The options of a text. -/
def ofText (s : List Char) : Options :=
  ofTokens (OptionToken.ofText s)

/-- The options of a filter without a dollar sign. -/
def unset : Options :=
  ofTokens []

end Options

/-- The pattern of a filter, and the text of its options after the first dollar sign. -/
def splitOptions (line : List Char) : List Char × Option (List Char) :=
  match Text.splitFirst? ['$'] line with
  | some (pattern, options) => (pattern, some options)
  | none => (line, none)

end Blocklist.Filter
