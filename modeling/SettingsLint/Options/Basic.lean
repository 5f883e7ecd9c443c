import SettingsLint.Text.TextMap

/-! # Options

Options are texts under dotted keys. Two kinds of key have a meaning here: the switch
for publishing ahead of time, and the severity to report a kind of problem with.
-/

namespace SettingsLint

/-- The options of an analysis. -/
abbrev Options := TextMap

/-- The severity that a kind of problem is reported with, instead of its own. -/
inductive SeverityOverride where
  | error
  | warning
  /-- The problem is not reported. -/
  | suppress
  deriving DecidableEq, Repr

/-- The severity that a text names. -/
def SeverityOverride.ofName? (name : String) : Option SeverityOverride :=
  if name = "error" then some .error
  else if name = "warning" then some .warning
  else if name = "none" then some .suppress
  else none

namespace Options

/-- The key of the switch for publishing ahead of time. -/
def aotKey : String := "build_property.enableaotanalyzer"

/-- Is the program to be published ahead of time? Only the text `true` says so. -/
def aot (options : Options) : Bool := options.get? aotKey = some "true"

def severityKeyStart : String := "dotnet_diagnostic."

def severityKeyEnd : String := ".severity"

def severityKey (id : String) : String := severityKeyStart ++ id ++ severityKeyEnd

/-- Has the key the start and the end of the key of a severity? They may share the dot
between them. -/
def isSeverityKey (key : String) : Bool :=
  severityKeyStart.toList.isPrefixOf key.toList && severityKeyEnd.toList.isSuffixOf key.toList

/-- The first option, in the order of keys, that should name a severity and does not. -/
def invalidSeverity? (options : Options) : Option (String × String) :=
  options.entries.find? fun (key, value) =>
    isSeverityKey key && (SeverityOverride.ofName? value).isNone

end Options

end SettingsLint
