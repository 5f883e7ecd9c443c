import SettingsLint.Analysis
import SettingsLint.Fix.TypeArgument

/-! # Fixing sources

A fix is applied to the text of a source, and the new text is read again. A fix that
would bring in syntax errors is not applied. Many fixes are applied one after the
other, from the end of the source to its start, so that the places of the remaining
diagnostics stay valid.
-/

namespace SettingsLint

namespace Fix

def isFixable (id : String) : Bool := TypeArgumentFix.fixableIds.contains id

/-- The fix for a diagnostic. -/
def fix? (source : Source) (d : Diagnostic) : Option CodeFix :=
  if isFixable d.id then TypeArgumentFix.fix? source d else none

/-- The source with the fix for a diagnostic applied. Without a fix, or if the new text
has more syntax errors, the source stays as it is. -/
def synthesize (source : Source) (d : Diagnostic) : Source :=
  match fix? source d with
  | none => source
  | some fix =>
    let fixed := Source.parse (fix.apply source.text)
    if source.errors.length < fixed.errors.length then source else fixed

/-- The list with only the first of neighbours at the same place. -/
def dropRepeated : List Diagnostic → List Diagnostic
  | [] => []
  | d :: ds =>
    match dropRepeated ds with
    | [] => [d]
    | e :: es => if d.span = e.span then d :: es else d :: e :: es

/-- The diagnostics that have a fix, one for each place, from the last place to the
first. -/
def pending (ds : List Diagnostic) : List Diagnostic :=
  dropRepeated ((ds.filter (isFixable ·.id)).mergeSort (fun a b => !a.span.before b.span))

/-- The source with the fixes for all diagnostics applied. -/
def fixAll (source : Source) (ds : List Diagnostic) : Source :=
  (pending ds).foldl synthesize source

/-- Like `fixAll`, unless it is cancelled. That is noticed before a fix, so there has to
be one. -/
def fixAllUnlessCancelled (cancelled : Bool) (source : Source) (ds : List Diagnostic) :
    Except AnalysisError Source :=
  if cancelled && !(pending ds).isEmpty then .error .cancelled else .ok (fixAll source ds)

end Fix

end SettingsLint
