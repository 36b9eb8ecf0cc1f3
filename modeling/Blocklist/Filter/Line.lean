import Blocklist.Filter.Cosmetic
import Blocklist.Filter.Network
import Blocklist.Filter.Scriptlet
import Blocklist.Rule.Stats

/-!
# Lines of a filter list

What a line is, decided by the marks in it, and what it gives: nothing, a record, or an error. The
marks are looked for in a fixed order, so a line with several of them has one kind. What a line gives
depends on nothing but the line.
-/

namespace Blocklist.Filter

/-- What a line that is not blank is. -/
inductive LineKind where
  | comment
  | cosmetic
  | scriptlet
  | exception
  | network
  deriving DecidableEq, Repr

namespace LineKind

/-- The kind of a line without blank ends, unless it is empty. -/
def ofTrimmed? (line : List Char) : Option LineKind :=
  match line with
  | [] => none
  | c :: _ =>
    if c = '!' || c = '[' then some comment
    else if isCosmeticLine line then some cosmetic
    else if isScriptletLine line then some scriptlet
    else if Text.occurs ['@', '@'] line then some exception
    else some network

/-- The kind of a line, unless it is blank. -/
def of? (line : List Char) : Option LineKind :=
  ofTrimmed? (Text.trim line)

end LineKind

/-- A record without its id. -/
inductive Draft where
  | block (body : RuleBody)
  | allow (body : RuleBody)
  | cosmetic (body : CosmeticBody)
  | scriptlet (body : ScriptletBody)
  deriving DecidableEq, Repr

/-- What a line gives. -/
inductive Reading where
  | blank
  | comment
  | record (draft : Draft)
  | rejected (error : LineError) (line : List Char)
  deriving DecidableEq, Repr

namespace Reading

/-- A record, or the error of the line. -/
def ofResult {α : Type} (draft : α → Draft) (line : List Char) : Except LineError α → Reading
  | .ok body => .record (draft body)
  | .error error => .rejected error line

/-- What a line without blank ends gives. -/
def ofTrimmed (line : List Char) : Reading :=
  match LineKind.ofTrimmed? line with
  | none => .blank
  | some .comment => .comment
  | some .cosmetic => ofResult .cosmetic line (cosmeticRule line)
  | some .scriptlet => ofResult .scriptlet line (Filter.scriptlet line)
  | some .exception => ofResult .allow line (exceptionRule line)
  | some .network => ofResult .block line (blockRule line)

/-- What a line gives. -/
def of (line : List Char) : Reading :=
  ofTrimmed (Text.trim line)

/-- The readings of the lines of a text. -/
def ofText (s : List Char) : List Reading :=
  (s.splitOn '\n').map of

/-- The record that a line gives. -/
def draft? : Reading → Option Draft
  | .record draft => some draft
  | _ => none

/-- How a line counts. -/
def stats : Reading → LineStats
  | .blank => .zero
  | .comment => { LineStats.zero with comments := 1 }
  | .record (.block _) => { LineStats.zero with total := 1, networkRules := 1 }
  | .record (.allow _) => { LineStats.zero with total := 1, exceptions := 1 }
  | .record (.cosmetic _) => { LineStats.zero with total := 1, cosmeticRules := 1 }
  | .record (.scriptlet _) => { LineStats.zero with total := 1, scriptlets := 1 }
  | .rejected _ _ => { LineStats.zero with total := 1, invalid := 1 }

end Reading

end Blocklist.Filter
