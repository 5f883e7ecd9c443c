import SettingsLint.Command.Basic
import SettingsLint.Diff.Unified
import SettingsLint.Fix.Fixing

/-! # Fixing files

Fixes what can be fixed in source files. Only problems with publishing ahead of time
can, so the files are always analysed for that. Files with syntax errors are left
alone. Instead of writing the files, the differences can be printed.
-/

namespace SettingsLint

/-- What to fix, and how. -/
structure FixRequest where
  paths : List Path
  options : OptionsRequest
  /-- Are the differences printed and the files left as they are? -/
  dry : Bool

/-- What happened to a file. -/
inductive FixOutcome where
  | unchanged
  | changed
  /-- The file has syntax errors. -/
  | skipped
  deriving DecidableEq, Repr

namespace Command

def fixFile (analyzer : Analyzer) (dry : Bool) (file : Path) : Command FixOutcome := do
  let text ← read file
  let source := Source.parse text
  if source.diagnostics.isEmpty then
    let fixed := (Fix.fixAll source (analyzer.check source)).text
    if fixed = text then return .unchanged
    if dry then print (Diff.unified file.text text fixed) else write file fixed
    return .changed
  else
    note s!"warning: skipping '{file.text}' (has syntax errors)"
    return .skipped

def fix (request : FixRequest) : Command Unit := do
  let files ← sources request.paths
  let options := (← options request.options request.paths).insert Options.aotKey "true"
  let outcomes ← files.mapM (fixFile (Analyzer.ofOptions options) request.dry)
  let changed := outcomes.count .changed
  let skipped := outcomes.count .skipped
  if request.dry then
    if 0 < changed ∨ 0 < skipped then throw (.pending changed skipped)
  else if 0 < changed then note s!"fixed {countFiles changed}"

end Command

end SettingsLint
