import SettingsLint.Text.Span
import SettingsLint.Text.TextMap

/-! # Diagnostics

A diagnostic reports one problem at one place of the source. Syntax errors, names
that do not resolve and the findings of the rules are all reported this way.
-/

namespace SettingsLint

inductive Severity where
  /-- The check fails. -/
  | error
  /-- The check passes, unless warnings are denied. -/
  | warning
  deriving DecidableEq, Repr, Inhabited

/-- The name used in configuration and in machine-readable output. -/
def Severity.name : Severity → String
  | error => "error"
  | warning => "warning"

/-- A problem at a place of the source. -/
structure Diagnostic where
  /-- The stable identifier of the kind of problem. -/
  id : String
  severity : Severity
  /-- The rendered message. -/
  message : String
  span : Span
  /-- The texts that were filled into the message, in order. -/
  arguments : List String := []
  /-- Facts that a fix can use. -/
  properties : TextMap := .empty
  /-- What to do about it. -/
  hint : Option String := none
  deriving DecidableEq, Repr, Inhabited

namespace Diagnostic

/-- A syntax error. -/
def syntaxErrorId : String := "CG0001"

/-- A type name that does not resolve. -/
def unresolvedTypeId : String := "CG0002"

/-- An attribute name that does not resolve to an attribute class. -/
def unresolvedAttributeId : String := "CG0003"

def isError (d : Diagnostic) : Bool := d.severity = .error

/-- The diagnostic with one more fact. -/
def withProperty (d : Diagnostic) (key value : String) : Diagnostic :=
  { d with properties := d.properties.insert key value }

def withHint (d : Diagnostic) (hint : String) : Diagnostic :=
  { d with hint := some hint }

/-- The fact recorded under `key`. -/
def property? (d : Diagnostic) (key : String) : Option String :=
  d.properties.get? key

/-- May `a` stand before `b`? Diagnostics are ordered by place, then by identifier. -/
def notAfter (a b : Diagnostic) : Bool :=
  if a.span = b.span then a.id ≤ b.id else a.span.before b.span

/-- The diagnostics in order; those of equal place and identifier stay as they are. -/
def sort (ds : List Diagnostic) : List Diagnostic :=
  ds.mergeSort notAfter

end Diagnostic

end SettingsLint
