import Blocklist.Filter.Line

/-!
# Compiled lists

What the text of a filter list compiles to: its records in the order of their lines, and the counts
of its lines. All records of a list take their ids from one sequence, in the order of the lines, and
a line that gives no record takes none.
-/

namespace Blocklist

open Blocklist.Filter

/-- A record of a list. -/
inductive Record where
  | network (rule : Rule)
  | cosmetic (rule : CosmeticRule)
  | scriptlet (call : Scriptlet)
  deriving DecidableEq, Repr

namespace Record

/-- The record that a draft becomes in a list, with an id. -/
def ofDraft (listId : String) (id : RuleId) : Draft → Record
  | .block body => network (body.withId id)
  | .allow body => network (body.withId id)
  | .cosmetic body => cosmetic (body.withId listId id)
  | .scriptlet body => scriptlet (body.withId listId id)

/-- The network rule of a record. -/
def network? : Record → Option Rule
  | network rule => some rule
  | _ => none

/-- The element-hiding rule of a record. -/
def cosmetic? : Record → Option CosmeticRule
  | cosmetic rule => some rule
  | _ => none

/-- The call of a record. -/
def scriptlet? : Record → Option Scriptlet
  | scriptlet call => some call
  | _ => none

end Record

/-- Give drafts their ids, one after the other. -/
def IdSequence.label (listId : String) (ids : IdSequence) (drafts : List Draft) :
    List Record × IdSequence :=
  let (done, ids) := drafts.foldl
    (fun (done, ids) draft => (Record.ofDraft listId ids.next draft :: done, ids.advance)) ([], ids)
  (done.reverse, ids)

/-- The records of a list and the counts of its lines. -/
structure CompiledList where
  rules : List Rule
  cosmeticRules : List CosmeticRule
  scriptlets : List Scriptlet
  stats : LineStats
  deriving DecidableEq, Repr, Inhabited

instance : JsonCodec CompiledList where
  encode l := .object [("rules", .of l.rules), ("cosmeticRules", .of l.cosmeticRules),
    ("scriptlets", .of l.scriptlets), ("stats", .of l.stats)]
  decode? v :=
    match v.slots ["rules", "cosmeticRules", "scriptlets", "stats"] with
    | some [rules, cosmetic, scriptlets, stats] => do
      return ⟨← Json.required rules, ← Json.required cosmetic, ← Json.required scriptlets,
        ← Json.required stats⟩
    | _ => none

/-- A line that gave no record. -/
structure Rejection where
  /-- The number of the line, from one on. -/
  number : Nat
  error : LineError
  /-- The line without blank ends. -/
  line : String
  deriving DecidableEq, Repr

/-- The outcome of compiling a list. -/
structure Compilation where
  list : CompiledList
  /-- The lines that gave no record. -/
  rejections : List Rejection
  /-- The sequence after the ids of the list are taken. -/
  ids : IdSequence
  deriving DecidableEq, Repr

namespace CompiledList

/-- The list of records and counts that readings of lines give. -/
def ofReadings (ids : IdSequence) (listId : String) (readings : List Reading) :
    CompiledList × IdSequence :=
  let (records, ids) := ids.label listId (readings.filterMap Reading.draft?)
  ({ rules := records.filterMap Record.network?
     cosmeticRules := records.filterMap Record.cosmetic?
     scriptlets := records.filterMap Record.scriptlet?
     stats := LineStats.sum (readings.map Reading.stats) }, ids)

/-- The rejection of a numbered reading, if the line gives no record. -/
def rejection? (reading : Reading × Nat) : Option Rejection :=
  match reading.1 with
  | .rejected error line => some ⟨reading.2, error, String.ofList line⟩
  | _ => none

end CompiledList

/-- Compile the text of a filter list. -/
def compileList (ids : IdSequence) (listId : String) (text : String) : Compilation :=
  let readings := Reading.ofText text.toList
  let (list, ids) := CompiledList.ofReadings ids listId readings
  { list, ids, rejections := (readings.zipIdx 1).filterMap CompiledList.rejection? }

/-- Compile one line with a compiler of one kind of record. The id is taken only on success. -/
def compileLine {α β : Type} (compile : List Char → Except LineError α) (withId : α → RuleId → β)
    (ids : IdSequence) (line : String) : Except LineError β × IdSequence :=
  match compile line.toList with
  | .ok body => (.ok (withId body ids.next), ids.advance)
  | .error error => (.error error, ids)

end Blocklist
