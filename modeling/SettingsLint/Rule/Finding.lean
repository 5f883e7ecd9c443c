import SettingsLint.Binding.Model
import SettingsLint.Diagnostic.Catalog
import SettingsLint.Rule.Bindability

/-! # Findings

What a rule finds wrong with a property, and how it is reported.
-/

namespace SettingsLint

/-- What is wrong with a property. -/
inductive Problem where
  /-- A binding attribute does not name the type. -/
  | missingType
  /-- A binding attribute names another type. -/
  | mismatchedType (found : TypeId)
  /-- The type cannot be bound. -/
  | invalidType (reason : Unbindable)
  deriving DecidableEq, Repr

structure Finding where
  problem : Problem
  property : PropertySymbol
  deriving DecidableEq, Repr

/-- The fact that holds the display form of the property's type. -/
def declaredTypeKey : String := "declared_type"

/-- The fact that tells whether the property's type is a reference type. -/
def isReferenceKey : String := "declared_type_is_reference"

/-- The fact that holds the code of the reason why a type cannot be bound. -/
def reasonKey : String := "reason"

/-- The descriptor that a problem is reported through. -/
def Problem.descriptor : Problem → Descriptor
  | missingType => .missingType
  | mismatchedType _ => .mismatchedType
  | invalidType _ => .invalidType

/-- The diagnostic for a finding, at the name of the property. -/
def Finding.diagnostic (f : Finding) (t : TypeTable) : Diagnostic :=
  let name := f.property.name
  let declared := t.display f.property.type
  let isReference := if t.isValueType f.property.type then "false" else "true"
  let report (arguments : List String) : Diagnostic :=
    f.problem.descriptor.diagnostic f.property.nameSpan arguments
  match f.problem with
  | .missingType =>
    (((report [name]).withHint ("pass `typeof(" ++ declared ++ ")` as the last argument")
      ).withProperty declaredTypeKey declared).withProperty isReferenceKey isReference
  | .mismatchedType found =>
    (((report [name, declared, t.display found]).withHint ("use `typeof(" ++ declared ++ ")`")
      ).withProperty declaredTypeKey declared).withProperty isReferenceKey isReference
  | .invalidType reason =>
    ((report [name, declared, reason.message]).withHint
      "use a supported type or add a [TypeConverter] attribute").withProperty reasonKey reason.code

end SettingsLint
