import Blocklist.Assembly
import Blocklist.CommandLine.Outcome
import Blocklist.CompiledList
import Blocklist.Disk.Path
import Blocklist.Json.Parser
import Blocklist.Json.Printer

/-!
# Compiling and assembling files

Two commands that work on files alone. `compile` compiles the texts of lists, with one sequence of ids,
and writes a dictionary of compiled lists; `assemble` reads such dictionaries, or arrays of rules, and
writes one bounded array of rules.
-/

namespace Blocklist.CommandLine

/-- The lists that are compiled so far. -/
structure Compiled where
  lists : Dict CompiledList
  ids : IdSequence
  totals : LineStats
  /-- The lines printed so far. -/
  lines : List String

namespace Compiled

/-- Compile one more file. A failure comes with the lines printed before. -/
def add (disk : Disk) (verbose : Bool) (c : Compiled) (path : String) :
    Except (List String × String) Compiled :=
  match readLossy disk path with
  | .error error => .error (c.lines, error)
  | .ok text =>
    let id := Path.listId path
    if (c.lists.get? id).isSome then
      .error (c.lines, s!"Duplicate list id '{id}' from '{path}'")
    else
      let compilation := compileList c.ids id text
      let stats := compilation.list.stats
      .ok {
        lists := c.lists.insert id compilation.list
        ids := compilation.ids
        totals := c.totals + stats
        lines := if verbose then c.lines ++ [s!"  [{id}] {stats.message}"] else c.lines }

/-- Compile files one after the other. -/
def ofPaths (disk : Disk) (verbose : Bool) (startId : RuleId) (paths : List String) :
    Except (List String × String) Compiled :=
  paths.foldlM (add disk verbose) ⟨.empty, ⟨startId⟩, .zero, []⟩

/-- What is printed of the lists in the end, but for the time. -/
def summary (c : Compiled) (count : Nat) (output : String) : List String :=
  let t := c.totals
  let network := t.networkRules + t.exceptions
  [s!"Compiled {count} filter lists to '{output}'",
    s!"  Lines:    {t.total} rules, {t.comments} comments",
    s!"  Network:  {network} ({t.exceptions} exceptions)",
    s!"  Cosmetic: {t.cosmeticRules}",
    s!"  Scripts:  {t.scriptlets}",
    s!"  Invalid:  {t.invalid}",
    s!"  Next id:  {c.ids.next.toNat}"]

end Compiled

/-- Compile the texts of lists into one file. Nothing is written if there are no texts, if one cannot
be read or if two have one id. -/
def compileFiles (disk : Disk) (inputs : List String) (output : String) (startId : RuleId)
    (verbose : Bool) : Outcome :=
  if inputs.isEmpty then .failure [] "No input files specified" disk
  else
    match Compiled.ofPaths disk verbose startId inputs with
    | .error (lines, error) => .failure lines error disk
    | .ok c =>
      match writeOutput disk output (Json.of c.lists).indented with
      | (.error error, disk) => .failure c.lines error disk
      | (.ok (), disk) =>
        ⟨(c.lines ++ c.summary inputs.length output).map .text ++ [.elapsed], none, disk⟩

/-- The rules in a file, list by list: those of a dictionary of compiled lists, or an array of
rules. -/
def readCompiled (disk : Disk) (path : String) : Except String (List (List Rule)) :=
  match readLossy disk path with
  | .error error => .error error
  | .ok text =>
    match Json.valueOf? text with
    | none => .error s!"Invalid JSON in '{path}': unexpected form"
    | some (.array items) =>
      match (Json.array items).as? (List Rule) with
      | some rules => .ok [rules]
      | none => .error s!"Invalid rule array in '{path}': unexpected form"
    | some v =>
      match v.as? (Dict CompiledList) with
      | some lists => .ok (lists.values.map (·.rules))
      | none => .error s!"Invalid compiled lists in '{path}': unexpected form"

/-- Assemble the rules in files into one file. -/
def assembleFiles (disk : Disk) (inputs : List String) (output : String) (maxRules : Nat) : Outcome :=
  match inputs.mapM (readCompiled disk) with
  | .error error => .failure [] error disk
  | .ok read =>
    let lists := read.flatten
    let (rules, stats) := assemble lists maxRules
    match writeOutput disk output (Json.of rules).indented with
    | (.error error, disk) => .failure [] error disk
    | (.ok (), disk) =>
      .success
        [s!"Assembled {lists.length} lists to '{output}'",
          s!"  Rules:    {stats.before} -> {stats.after} (budget {maxRules})",
          s!"  Dropped:  {stats.overBudget} over budget, {stats.duplicateIds} duplicate ids"] disk

end Blocklist.CommandLine
