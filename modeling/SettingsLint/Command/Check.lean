import SettingsLint.Analysis
import SettingsLint.Command.Basic
import SettingsLint.Report.Basic

/-! # Checking files

Checks source files one by one and reports the problems in them. Errors make the
command fail, and so do warnings if they are denied.
-/

namespace SettingsLint

/-- How reports are written. -/
inductive ReportFormat where
  /-- For people, beside the output. -/
  | plain
  /-- For programs, one object a line. -/
  | json
  deriving DecidableEq, Repr

/-- What to check, and how. -/
structure CheckRequest where
  paths : List Path
  options : OptionsRequest
  format : ReportFormat
  /-- Do warnings make the command fail? -/
  denyWarnings : Bool

namespace Command

def emit (format : ReportFormat) (report : Report) : Command Unit :=
  match format with
  | .plain => note report.plain
  | .json => print (report.json ++ "\n")

def checkFile (analyzer : Analyzer) (format : ReportFormat) (file : Path) :
    Command (List Diagnostic) := do
  let text ← read file
  let diagnostics := analyzer.check (Source.parse text)
  diagnostics.forM fun d => emit format ⟨file.text, text, d⟩
  return diagnostics

/-- Checks the source files at some paths. -/
def check (request : CheckRequest) : Command Unit := do
  let files ← sources request.paths
  let analyzer := Analyzer.ofOptions (← options request.options request.paths)
  let found := (← files.mapM (checkFile analyzer request.format)).flatten
  let errors := found.countP (·.isError)
  let warnings := found.length - errors
  if 0 < errors ∨ (request.denyWarnings ∧ 0 < warnings) then
    throw (.problems errors warnings files.length)

end Command

end SettingsLint
