/-!
# Options of a command line

How the words of a command line name options. An option has a long name behind two dashes and may have
a letter behind one dash; letters of flags may stand together. A value stands behind an equals sign, in
the word after a name, or right behind a letter, and a word that starts with a dash is no value.

An option is given once, unless it may be repeated.
-/

namespace Blocklist.CommandLine

/-- What follows an option. -/
inductive OptionKind where
  /-- Nothing. -/
  | flag
  /-- A value. -/
  | single
  /-- A value, and the option may be given again. -/
  | repeated
  deriving DecidableEq, Repr

/-- An option of a command. -/
structure OptionSpec where
  name : String
  letter : Option Char
  kind : OptionKind
  deriving DecidableEq, Repr

/-- Why the words of a command line are not understood. -/
inductive UsageError where
  | noCommand
  | unknownCommand (word : String)
  | unexpected (word : String)
  | missingValue (name : String)
  | givenTwice (name : String)
  | missing (name : String)
  | badValue (name value : String)
  | conflict (name other : String)
  deriving DecidableEq, Repr

namespace UsageError

/-- The error in words. -/
def message : UsageError → String
  | .noCommand => "no command given"
  | .unknownCommand word => s!"unknown command '{word}'"
  | .unexpected word => s!"unexpected argument '{word}'"
  | .missingValue name => s!"a value is required for '--{name}'"
  | .givenTwice name => s!"'--{name}' cannot be used multiple times"
  | .missing name => s!"'--{name}' is required"
  | .badValue name value => s!"invalid value '{value}' for '--{name}'"
  | .conflict name other => s!"'--{name}' cannot be used with '--{other}'"

end UsageError

/-- The words of a command line, once they are understood. -/
inductive Arguments where
  /-- The user asks how the command is used. -/
  | help
  /-- The options given, by their long names and with their values, in order. -/
  | given (options : List (String × String))
  deriving DecidableEq, Repr

namespace Arguments

/-- Whether a word names options. -/
def isOptionWord (word : String) : Bool :=
  word.startsWith "-" && word != "-"

/-- What one letter or long name in a word leads to. -/
inductive Found where
  | help
  | flag (name : String)
  /-- An option that takes a value. -/
  | valued (name : String)

/-- The option with a long name. -/
def named? (specs : List OptionSpec) (name : String) : Option Found :=
  if name == "help" then some .help
  else (specs.find? (·.name == name)).map fun spec =>
    if spec.kind = .flag then .flag spec.name else .valued spec.name

/-- The option with a letter. -/
def lettered? (specs : List OptionSpec) (letter : Char) : Option Found :=
  if letter == 'h' then some .help
  else (specs.find? (·.letter == some letter)).map fun spec =>
    if spec.kind = .flag then .flag spec.name else .valued spec.name

/-- What one word leads to: the options given in it, and the option whose value the next word is. -/
structure WordReading where
  given : List (String × String)
  pending : Option String
  asksHelp : Bool

/-- Read the letters of a word. -/
def readLetters (specs : List OptionSpec) (word : String) : List Char → Except UsageError WordReading
  | [] => .ok ⟨[], none, false⟩
  | c :: rest =>
    match lettered? specs c with
    | none => .error (.unexpected word)
    | some .help => .ok ⟨[], none, true⟩
    | some (.flag name) =>
      (readLetters specs word rest).map fun r => { r with given := (name, "") :: r.given }
    | some (.valued name) =>
      match rest with
      | [] => .ok ⟨[], some name, false⟩
      | '=' :: value => .ok ⟨[(name, String.ofList value)], none, false⟩
      | value => .ok ⟨[(name, String.ofList value)], none, false⟩

/-- Read a word that names options. -/
def readWord (specs : List OptionSpec) (word : String) : Except UsageError WordReading :=
  match word.toList with
  | '-' :: '-' :: long =>
    let (name, rest) := long.span (· ≠ '=')
    match named? specs (String.ofList name), rest with
    | some .help, [] => .ok ⟨[], none, true⟩
    | some (.flag name), [] => .ok ⟨[(name, "")], none, false⟩
    | some (.valued name), [] => .ok ⟨[], some name, false⟩
    | some (.valued name), _ :: value => .ok ⟨[(name, String.ofList value)], none, false⟩
    | _, _ => .error (.unexpected word)
  | '-' :: letters => readLetters specs word letters
  | _ => .error (.unexpected word)

/-- The first option given again that may not be. -/
def firstTwice? (specs : List OptionSpec) (given : List (String × String)) (name : String) : Bool :=
  given.any (·.1 == name) && !specs.any fun spec => spec.name == name && spec.kind = .repeated

/-- Read words; `given` holds the options before, last one first. -/
def readWords (specs : List OptionSpec) (valid : String → String → Bool)
    (given : List (String × String)) : List String → Except UsageError Arguments
  | [] => .ok (.given given.reverse)
  | word :: rest =>
    if word == "--" then
      match rest with
      | [] => .ok (.given given.reverse)
      | next :: _ => .error (.unexpected next)
    else if !isOptionWord word then .error (.unexpected word)
    else
      match readWord specs word with
      | .error error => .error error
      | .ok reading =>
        match take given reading.given with
        | .error error => .error error
        | .ok given =>
          if reading.asksHelp then .ok .help
          else
            match reading.pending, rest with
            | none, rest => readWords specs valid given rest
            | some name, value :: rest =>
              if isOptionWord value then .error (.missingValue name)
              else
                match take given [(name, value)] with
                | .error error => .error error
                | .ok given => readWords specs valid given rest
            | some name, [] => .error (.missingValue name)
where
  /-- Add options to those given, if they may be given and their values are valid. -/
  take (given : List (String × String)) :
      List (String × String) → Except UsageError (List (String × String))
    | [] => .ok given
    | (name, value) :: more =>
      if !valid name value then .error (.badValue name value)
      else if firstTwice? specs given name then .error (.givenTwice name)
      else take ((name, value) :: given) more

/-- The options that words name. `valid` tells the values that an option takes. -/
def ofWords (specs : List OptionSpec) (valid : String → String → Bool) (words : List String) :
    Except UsageError Arguments :=
  readWords specs valid [] words

end Arguments

end Blocklist.CommandLine
