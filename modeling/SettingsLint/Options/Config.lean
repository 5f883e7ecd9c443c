import SettingsLint.Config.Document
import SettingsLint.Options.Basic

/-! # Options from a configuration

The tables of a configuration are flattened into options: the key of an option is the
path of keys to its value, joined by dots. Values that are no plain texts, numbers or
truth values cannot be options, and the severities among the options have to be known.
-/

namespace SettingsLint

/-- Why there are no options to be had from a configuration. -/
inductive ConfigError where
  /-- The file cannot be read. -/
  | unreadable (path : String)
  /-- The text is no configuration. -/
  | malformed (path : String)
  /-- The option should name a severity. -/
  | invalidValue (key value : String)
  /-- The value has no text. -/
  | unsupportedValue (key : String)
  deriving DecidableEq, Repr

namespace ConfigError

def message : ConfigError → String
  | .unreadable path => s!"failed to read configuration file '{path}'"
  | .malformed path => s!"failed to parse configuration file '{path}'"
  | .invalidValue key value => s!"invalid value '{value}' for '{key}'"
  | .unsupportedValue key =>
    s!"unsupported value for '{key}': arrays and dates cannot be used as options"

/-- Advice on how to avoid the error. -/
def help? : ConfigError → Option String
  | .invalidValue _ _ => some "severity overrides accept \"error\", \"warning\" or \"none\""
  | _ => none

end ConfigError

namespace Config

/-- The option key for a key in the table with the given option key, which is empty
for the outermost table. -/
def joinKey (table key : String) : String :=
  if table.isEmpty then key else table ++ "." ++ key

mutual

/-- The options that a value gives under an option key, in the order of the keys. -/
def Value.flatten (key : String) : Value → Except ConfigError (List (String × String))
  | .table _ entries => flattenEntries key entries
  | value =>
    match value.scalar? with
    | some text => .ok [(key, text)]
    | none => .error (.unsupportedValue key)

/-- The options that the entries of a table give. -/
def flattenEntries (table : String) :
    List (String × Value) → Except ConfigError (List (String × String))
  | [] => .ok []
  | (key, value) :: rest => do
    let first ← value.flatten (joinKey table key)
    let others ← flattenEntries table rest
    return first ++ others

end

end Config

namespace Options

/-- The options, if every severity among them is known. -/
def validate (options : Options) : Except ConfigError Options :=
  match options.invalidSeverity? with
  | some (key, value) => .error (.invalidValue key value)
  | none => .ok options

/-- The options of a configuration. Of two values with equal option keys the later one
in the order of the tables' keys wins. -/
def ofConfig (path text : String) : Except ConfigError Options := do
  match Config.parse? text with
  | none => .error (.malformed path)
  | some entries => validate (.ofList (← Config.flattenEntries "" entries))

end Options

end SettingsLint
