import SettingsLint.Files.Config
import SettingsLint.Files.Sources

/-! # Commands

A command reads and writes files and prints; in the end it succeeds or tells why it
does not. What it has printed and written until then stays.
-/

namespace SettingsLint

/-- Why a command does not succeed. -/
inductive CommandError where
  /-- The source files cannot be told. -/
  | sources (error : SourcesError)
  /-- The options cannot be told. -/
  | config (error : ConfigError)
  /-- A source file cannot be read. -/
  | unreadable (file : Path)
  /-- Problems were found. -/
  | problems (errors warnings files : Nat)
  /-- Files would be changed, or could not be checked. -/
  | pending (changed skipped : Nat)
  deriving DecidableEq, Repr

/-- The ending of a noun for a number of things. -/
def plural (n : Nat) : String := if n = 1 then "" else "s"

def countFiles (n : Nat) : String := s!"{n} file{plural n}"

namespace CommandError

def message : CommandError → String
  | .sources error => error.message
  | .config error => error.message
  | .unreadable file => s!"Failed to read '{file.text}'"
  | .problems errors warnings files =>
    s!"{errors} error{plural errors} and {warnings} warning{plural warnings} found in " ++
      s!"{files} file(s)"
  | .pending changed skipped =>
    let parts :=
      (if changed = 0 then [] else [s!"{countFiles changed} would be fixed"]) ++
      (if skipped = 0 then []
        else [s!"{countFiles skipped} could not be checked (syntax errors)"])
    "; ".intercalate parts

end CommandError

/-- The files that a command works on, and what it has printed. -/
structure Workspace where
  files : FileTree
  /-- The text on the standard output. -/
  output : String
  /-- The text on the standard error output. -/
  notes : String

/-- A command with a result. -/
abbrev Command := ExceptT CommandError (StateM Workspace)

namespace Command

def runOn (command : Command α) (files : FileTree) : Except CommandError α × Workspace :=
  StateT.run (ExceptT.run command) ⟨files, "", ""⟩

def print (text : String) : Command Unit :=
  modify fun w => { w with output := w.output ++ text }

/-- Prints a line beside the output. -/
def note (line : String) : Command Unit :=
  modify fun w => { w with notes := w.notes ++ line ++ "\n" }

def sources (paths : List Path) : Command (List Path) := do
  match (← get).files.sources paths with
  | .ok files => return files
  | .error error => throw (.sources error)

/-- The options for some paths, of which the first one counts. -/
def options (request : OptionsRequest) (paths : List Path) : Command Options := do
  match request.load (← get).files (paths.headD ⟨"."⟩) with
  | .ok options => return options
  | .error error => throw (.config error)

def read (file : Path) : Command String := do
  match (← get).files.read? file with
  | some text => return text
  | none => throw (.unreadable file)

def write (file : Path) (text : String) : Command Unit :=
  modify fun w => { w with files := w.files.write file text }

end Command

end SettingsLint
