import Blocklist.CommandLine.Arguments
import Blocklist.Rule.Basic
import Blocklist.Session

/-!
# Commands of the command line

The commands of the program with what their options say, and how the words of a command line name
them.
-/

namespace Blocklist.CommandLine

/-- A command with its options. -/
inductive Invocation where
  | help
  /-- Compile the texts of lists. -/
  | compile (inputs : List String) (output : String) (startId : RuleId) (verbose : Bool)
  /-- Assemble the rules of compiled lists. -/
  | assemble (inputs : List String) (output : String) (maxRules : Nat)
  /-- Refresh all enabled lists, or one list. -/
  | refresh (config : Option String) (list : Option String) (force : Bool)
  /-- Show the lists. -/
  | status (config : Option String) (json : Bool)
  /-- Enable or disable lists. -/
  | toggle (config : Option String) (target : ToggleTarget) (enabled : Bool)
  /-- Refresh on a schedule. -/
  | watch (config : Option String)
  deriving DecidableEq, Repr

namespace Invocation

/-- The option that names the settings. -/
def configSpec : OptionSpec := ⟨"config", some 'c', .single⟩

/-- The option that names what is read. -/
def inputSpec : OptionSpec := ⟨"input", some 'i', .repeated⟩

/-- The option that names what is written. -/
def outputSpec : OptionSpec := ⟨"output", some 'o', .single⟩

/-- The option that names a list. -/
def listSpec : OptionSpec := ⟨"list", some 'l', .single⟩

/-- The first id that an option names. -/
def startId? (value : String) : Option RuleId :=
  (Text.int64? value.toList).bind fun (n : Int) =>
    if 0 ≤ n ∧ n ≤ RuleId.last.toNat then some (UInt32.ofNat n.toNat) else none

/-- The budget that an option names. -/
def maxRules? (value : String) : Option Nat :=
  Text.natUpTo? (UInt64.size - 1) value.toList

/-- Whether an option takes a value. A path is not empty. -/
def isValid (name value : String) : Bool :=
  match name with
  | "input" | "output" | "config" => value != ""
  | "start-id" => (startId? value).isSome
  | "max-rules" => (maxRules? value).isSome
  | _ => true

/-- The options that were given. -/
abbrev Given := List (String × String)

/-- Whether a flag was given. -/
def hasFlag (given : Given) (name : String) : Bool :=
  given.any (·.1 == name)

/-- The values of an option that has to be given. -/
def inputs (given : Given) : Except UsageError (List String) :=
  let values := (given.filter (·.1 == "input")).map (·.2)
  if values.isEmpty then .error (.missing "input") else .ok values

/-- The command that `compile` with these options stands for. -/
def ofCompile (given : Given) : Except UsageError Invocation := do
  return .compile (← inputs given) ((given.lookup "output").getD "compiled.json")
    (((given.lookup "start-id").bind startId?).getD RuleId.first) (hasFlag given "verbose")

/-- The command that `assemble` with these options stands for. -/
def ofAssemble (given : Given) : Except UsageError Invocation := do
  return .assemble (← inputs given) ((given.lookup "output").getD "dynamic-rules.json")
    (((given.lookup "max-rules").bind maxRules?).getD Rule.engineLimit)

/-- The command that `refresh` with these options stands for. -/
def ofRefresh (given : Given) : Except UsageError Invocation :=
  .ok (.refresh (given.lookup "config") (given.lookup "list") (hasFlag given "force"))

/-- The command that `status` with these options stands for. -/
def ofStatus (given : Given) : Except UsageError Invocation :=
  .ok (.status (given.lookup "config") (hasFlag given "json"))

/-- The command that `toggle` with these options stands for. -/
def ofToggle (given : Given) : Except UsageError Invocation :=
  let toggle (target : ToggleTarget) : Invocation :=
    .toggle (given.lookup "config") target (!hasFlag given "disable")
  match given.lookup "list", given.lookup "category" with
  | some _, some _ => .error (.conflict "list" "category")
  | some id, none => .ok (toggle (.list id))
  | none, some category => .ok (toggle (.category category))
  | none, none => .error (.missing "list")

/-- The command that `watch` with these options stands for. -/
def ofWatch (given : Given) : Except UsageError Invocation :=
  .ok (.watch (given.lookup "config"))

/-- The commands: their names, their options, and what these stand for. -/
def commands : List (String × List OptionSpec × (Given → Except UsageError Invocation)) :=
  [("compile",
      [inputSpec, outputSpec, ⟨"start-id", none, .single⟩, ⟨"verbose", some 'v', .flag⟩], ofCompile),
    ("assemble", [inputSpec, outputSpec, ⟨"max-rules", none, .single⟩], ofAssemble),
    ("refresh", [configSpec, listSpec, ⟨"force", some 'f', .flag⟩], ofRefresh),
    ("status", [configSpec, ⟨"json", none, .flag⟩], ofStatus),
    ("toggle",
      [configSpec, listSpec, ⟨"category", none, .single⟩, ⟨"disable", some 'd', .flag⟩], ofToggle),
    ("watch", [configSpec], ofWatch)]

/-- Whether a word in front of all commands asks how the program is used. -/
def asksHelp (word : String) : Bool :=
  match Arguments.readWord [] word with
  | .ok reading => reading.asksHelp
  | .error _ => false

/-- The command that words name. -/
def ofWords : List String → Except UsageError Invocation
  | [] => .error .noCommand
  | ["help"] => .ok .help
  | ["help", word] =>
    if word == "help" || (commands.lookup word).isSome then .ok .help
    else .error (.unknownCommand word)
  | "help" :: _ :: word :: _ => .error (.unknownCommand word)
  | word :: words =>
    match commands.lookup word with
    | none => if asksHelp word then .ok .help else .error (.unknownCommand word)
    | some (specs, command) =>
      match Arguments.ofWords specs isValid words with
      | .error error => .error error
      | .ok .help => .ok .help
      | .ok (.given given) => command given

end Invocation

end Blocklist.CommandLine
