import Blocklist.Text.Blank

/-!
# Hosts and the domains of a record

A domain covers itself and every host below it. A record that names no domain covers every host; a
domain it excludes takes away all that it covers. Dots at the end of a name do not count.
-/

namespace Blocklist

/-- The domains a record is for and those it is not for. -/
structure DomainScope where
  included : List String
  excluded : List String
  deriving DecidableEq, Repr, Inhabited

namespace DomainScope

/-- One entry of a list of domains. -/
inductive Entry where
  | include (domain : List Char)
  | exclude (domain : List Char)
  deriving DecidableEq, Repr

namespace Entry

/-- The entry that a part of a list stands for: nothing if it is blank or a tilde alone, an excluded
domain if it starts with a tilde. -/
def ofPart? (part : List Char) : Option Entry :=
  match Text.trim part with
  | [] => none
  | ['~'] => none
  | '~' :: domain => some (.exclude domain)
  | domain => some (.include domain)

/-- The domain of an entry that includes one. -/
def included? : Entry → Option String
  | .include domain => some (String.ofList domain)
  | .exclude _ => none

/-- The domain of an entry that excludes one. -/
def excluded? : Entry → Option String
  | .include _ => none
  | .exclude domain => some (String.ofList domain)

end Entry

/-- The entries of a list of domains whose parts stand between `separator`s. -/
def entries (separator : Char) (s : List Char) : List Entry :=
  (s.splitOn separator).filterMap Entry.ofPart?

/-- The scope of a list of entries. -/
def ofEntries (entries : List Entry) : DomainScope :=
  ⟨entries.filterMap Entry.included?, entries.filterMap Entry.excluded?⟩

/-- The scope of a list of domains whose parts stand between commas. -/
def ofChars (s : List Char) : DomainScope :=
  ofEntries (entries ',' s)

end DomainScope

namespace Host

/-- A name without the dots it ends with. -/
def bare (name : String) : List Char :=
  Text.dropEndWhile (· == '.') name.toList

/-- Whether a host is a domain or lies below it. -/
def isWithin (host domain : String) : Bool :=
  let h := bare host
  let d := bare domain
  !d.isEmpty && (h == d || ('.' :: d).isSuffixOf h)

/-- Whether a scope covers a host. -/
def isCovered (host : String) (scope : DomainScope) : Bool :=
  !scope.excluded.any (isWithin host) &&
    (scope.included.isEmpty || scope.included.any (isWithin host))

/-- A name with its ASCII letters in lower case. -/
def lower (name : String) : String :=
  String.ofList (name.toList.map Char.toLower)

end Host

end Blocklist
