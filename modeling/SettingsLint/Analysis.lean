import SettingsLint.Options.Basic
import SettingsLint.Rule.Rules

/-! # Analysis

An analyzer has been set up from options: whether the program is to be published ahead
of time, and with which severities problems are reported. `analyze` asks every rule
about every binding property of a model, class by class; `check` does so for a source
and adds its syntax errors and unresolved names, all in order of place.
-/

namespace SettingsLint

/-- Why an analysis gives no result. -/
inductive AnalysisError where
  /-- It was cancelled. -/
  | cancelled
  deriving DecidableEq, Repr

def AnalysisError.message : AnalysisError → String
  | cancelled => "analysis was cancelled"

/-- An analysis set up from options. -/
structure Analyzer where
  aot : Bool
  /-- The severities to report kinds of problems with. -/
  overrides : List (String × SeverityOverride)
  deriving DecidableEq, Repr

namespace Analyzer

/-- The kinds of problems whose severity can be set. Syntax errors are not among them. -/
def configurableIds : List String :=
  Descriptor.catalog.map (·.id) ++
    [Diagnostic.unresolvedTypeId, Diagnostic.unresolvedAttributeId]

/-- The analyzer for the options. A text that names no severity is ignored. -/
def ofOptions (options : Options) : Analyzer where
  aot := options.aot
  overrides := configurableIds.filterMap fun id =>
    ((options.get? (Options.severityKey id)).bind SeverityOverride.ofName?).map (id, ·)

/-- The diagnostic with the severity that is set for it, or nothing if it is not to be
reported. -/
def applySeverity (a : Analyzer) (d : Diagnostic) : Option Diagnostic :=
  match a.overrides.lookup d.id with
  | none => some d
  | some .error => some { d with severity := .error }
  | some .warning => some { d with severity := .warning }
  | some .suppress => none

/-- What the rules find wrong with a property. -/
def findings (a : Analyzer) (model : Model) (p : BindingProperty) : List Finding :=
  Rule.all.filterMap fun rule => (rule.problem? a.aot model p).map (⟨·, p.property⟩)

/-- What is reported for a settings class. -/
def analyzeClass (a : Analyzer) (model : Model) (cls : TypeId) : List Diagnostic :=
  (model.bindingPropertiesOf cls).flatMap fun p =>
    (a.findings model p).filterMap fun f => a.applySeverity (f.diagnostic model.table)

/-- What is reported for the settings classes, in source order. -/
def analyze (a : Analyzer) (model : Model) : List Diagnostic :=
  model.settingsClasses.flatMap (a.analyzeClass model)

/-- What is reported for a source with its model, in order of place. -/
def report (a : Analyzer) (source : Source) (model : Model) : List Diagnostic :=
  let host := (source.diagnostics ++ model.diagnostics).filterMap a.applySeverity
  Diagnostic.sort (host ++ a.analyze model)

/-- What is reported for a source, in order of place. -/
def check (a : Analyzer) (source : Source) : List Diagnostic :=
  a.report source (Model.ofUnit source.unit)

/-! ### Cancelling -/

/-- Does a request to cancel stop the analysis of the model? It is noticed before a class
is looked at, so there has to be one. -/
def stops (cancelled : Bool) (model : Model) : Bool :=
  cancelled && !model.settingsClasses.isEmpty

/-- Like `analyze`, unless the analysis is cancelled. -/
def analyzeUnlessCancelled (a : Analyzer) (cancelled : Bool) (model : Model) :
    Except AnalysisError (List Diagnostic) :=
  if stops cancelled model then .error .cancelled else .ok (a.analyze model)

/-- Like `check`, unless the analysis is cancelled. -/
def checkUnlessCancelled (a : Analyzer) (cancelled : Bool) (source : Source) :
    Except AnalysisError (List Diagnostic) :=
  let model := Model.ofUnit source.unit
  if stops cancelled model then .error .cancelled else .ok (a.report source model)

end Analyzer

/-- What is reported for a source text with the options. -/
def analyzeText (text : String) (options : Options) : List Diagnostic :=
  (Analyzer.ofOptions options).check (Source.parse text)

end SettingsLint
