import Blocklist.Filter.Error
import Blocklist.Host
import Blocklist.Rule.Basic
import Blocklist.Text.Split

/-!
# Calls of scriptlets

A line such as `example.com#+js(name, arg)`: domains, the mark `#+js(`, and a list of arguments up to
the next closing bracket, which must not be empty. Of the places in a line where such a call stands,
the last one counts, and the domains are all that stands before it.

## Implementation notes

`lastCall?` stands for a search with the pattern `(.*)#\+js\(([^)]+)\)`, in which a dot is any
character but the end of a line; the match that starts first counts, and in it every part takes as much
as it can. The first line with a call has a match that starts with the line, and nothing before this
line starts one, since a match begins in the line of its mark. So this is the match that counts. Its
first part takes the line up to the last call, because behind a longer one there would be no call left.
Its second part takes all up to the next closing bracket, and may run on into the lines below.

What stands behind the last closing bracket of a text holds no call, and before it a mark needs no
further look for its bracket. So `lastCallFrom?` passes every character at most once: it keeps the last
call it has seen, and stops at the end of a line with a call.
-/

namespace Blocklist.Filter

/-- The mark of a call. -/
def callMark : List Char :=
  ['#', '+', 'j', 's', '(']

/-- Whether a line holds the mark of a call. -/
def isScriptletLine (line : List Char) : Bool :=
  Text.occurs callMark line

/-- A call without its id and its list. -/
structure ScriptletBody where
  scope : DomainScope
  name : String
  args : List String
  deriving DecidableEq, Repr

/-- The call with an id, in a list. -/
def ScriptletBody.withId (body : ScriptletBody) (listId : String) (id : RuleId) : Scriptlet where
  id := s!"scriptlet_{id.toNat}"
  listId := listId
  domains := body.scope.included
  excludeDomains := body.scope.excluded
  name := body.name
  args := body.args

/-- A text up to its last closing bracket. -/
def throughLastClose (s : List Char) : List Char :=
  (s.reverse.dropWhile (· ≠ ')')).reverse

/-- What follows the mark of a call at the start of a text that ends with a closing bracket. -/
def afterMark? (s : List Char) : Option (List Char) :=
  match Text.dropLead? callMark s with
  | some (c :: rest) => if c = ')' then none else some (c :: rest)
  | _ => none

/-- The parts of a text before and after the mark of the last call of a line, the first one in
reverse. The text ends with a closing bracket. The characters already passed stand in `before`, last
one first; `found` is the last call among them. -/
def lastCallFrom? (before : List Char) (found : Option (List Char × List Char)) :
    List Char → Option (List Char × List Char)
  | [] => found
  | c :: s =>
    if c = '\n' then
      match found with
      | some call => some call
      | none => lastCallFrom? [] none s
    else
      let found := match afterMark? (c :: s) with
        | some rest => some (before, rest)
        | none => found
      lastCallFrom? (c :: before) found s

/-- The text before the last call of a line, and its arguments. -/
def lastCall? (line : List Char) : Option (List Char × List Char) :=
  (lastCallFrom? [] none (throughLastClose line)).map fun (before, rest) =>
    (before.reverse, rest.takeWhile (· ≠ ')'))

/-- The call of a line. -/
def scriptlet (line : List Char) : Except LineError ScriptletBody :=
  match lastCall? line with
  | none => .error .malformedScriptlet
  | some (before, payload) =>
    match (payload.splitOn ',').map Text.trim with
    | [] => .error .emptyScriptletName
    | name :: args =>
      if name.isEmpty then .error .emptyScriptletName
      else .ok ⟨DomainScope.ofChars before, String.ofList name, args.map String.ofList⟩

end Blocklist.Filter
