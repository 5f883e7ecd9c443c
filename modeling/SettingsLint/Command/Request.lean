import SettingsLint.Command.Check
import SettingsLint.Command.Fix
import SettingsLint.Command.Rules
import SettingsLint.Options.Setting

/-! # Requests on the command line

The words after the name of the program ask for a command: its name, then paths and
options in any order. The value of an option is the word after it, or stands after an
equals sign.
-/

namespace SettingsLint

/-- A command with all that it needs to know. -/
inductive Request where
  | check (request : CheckRequest)
  | fix (request : FixRequest)
  | rules

/-- Why words ask for no command. -/
inductive UsageError where
  | noCommand
  | unknownCommand (word : String)
  | unknownOption (word : String)
  | missingValue (option : String)
  | unknownFormat (word : String)
  | setting (error : SettingError)
  deriving DecidableEq, Repr

def UsageError.message : UsageError → String
  | .noCommand => "expected one of the commands check, fix and rules"
  | .unknownCommand word => s!"unknown command '{word}'"
  | .unknownOption word => s!"unknown option '{word}'"
  | .missingValue option => s!"missing value for '{option}'"
  | .unknownFormat word => s!"unknown format '{word}'"
  | .setting error => error.message

/-- What the words after the name of a command say. -/
structure Arguments where
  paths : List Path := []
  options : OptionsRequest := ⟨false, none, []⟩
  format : ReportFormat := .plain
  denyWarnings : Bool := false
  dry : Bool := false

namespace Arguments

/-- The arguments with an option that has no value. -/
def addFlag? (a : Arguments) : String → Option Arguments
  | "--aot" => some { a with options := { a.options with aot := true } }
  | "--deny-warnings" => some { a with denyWarnings := true }
  | "--check" => some { a with dry := true }
  | "--verbose" | "-v" => some a
  | _ => none

/-- The names of the options that have a value. -/
def valued : List String := ["--config", "--set", "--format"]

/-- The arguments with an option and its value. -/
def addValue (a : Arguments) (option value : String) : Except UsageError Arguments :=
  match option with
  | "--config" => .ok { a with options := { a.options with config := some ⟨value⟩ } }
  | "--set" =>
    match readSetting value with
    | .ok setting =>
      .ok { a with options := { a.options with settings := a.options.settings ++ [setting] } }
    | .error error => .error (.setting error)
  | "--format" =>
    match value with
    | "text" => .ok { a with format := .plain }
    | "json" => .ok { a with format := .json }
    | _ => .error (.unknownFormat value)
  | _ => .error (.unknownOption option)

/-- An option with its value, if both stand in one word. -/
def splitWord (word : String) : List String :=
  let (option, rest) := word.toList.span (· ≠ '=')
  match rest with
  | _ :: value => if valued.contains (String.ofList option)
    then [String.ofList option, String.ofList value] else [word]
  | [] => [word]

/-- The arguments with what more words say. -/
def add (a : Arguments) : List String → Except UsageError Arguments
  | [] => .ok a
  | [word] =>
    if valued.contains word then .error (.missingValue word) else addWord a word
  | word :: value :: rest =>
    if valued.contains word then do add (← a.addValue word value) rest
    else do add (← addWord a word) (value :: rest)
where
  /-- The arguments with a path or an option without a value. -/
  addWord (a : Arguments) (word : String) : Except UsageError Arguments :=
    match a.addFlag? word with
    | some a => .ok a
    | none =>
      if word.toList.head? = some '-' then .error (.unknownOption word)
      else .ok { a with paths := a.paths ++ [⟨word⟩] }

/-- The paths that are asked for; without any, the working directory. -/
def targets (a : Arguments) : List Path := if a.paths.isEmpty then [⟨"."⟩] else a.paths

end Arguments

namespace Request

def read : List String → Except UsageError Request
  | [] => .error .noCommand
  | name :: words => do
    let a ← ({} : Arguments).add (words.flatMap Arguments.splitWord)
    match name with
    | "check" => return .check ⟨a.targets, a.options, a.format, a.denyWarnings⟩
    | "fix" => return .fix ⟨a.targets, a.options, a.dry⟩
    | "rules" => return .rules
    | _ => throw (.unknownCommand name)

def paths : Request → List Path
  | .check request => request.paths
  | .fix request => request.paths
  | .rules => []

def config? : Request → Option Path
  | .check request => request.options.config
  | .fix request => request.options.config
  | .rules => none

def command : Request → Command Unit
  | .check request => .check request
  | .fix request => .fix request
  | .rules => .rules

end Request

end SettingsLint
