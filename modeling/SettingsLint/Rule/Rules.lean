import SettingsLint.Rule.Finding
import SettingsLint.Rule.Settings

/-! # The rules

A rule looks at one binding property at a time and finds at most one problem with it.
Properties whose type did not resolve are left alone: that has been reported already.

- `explicitType`: when publishing ahead of time, every binding attribute has to name
  the type of its property, unless values of the type can be bound without it.
- `propertyType`: the type of a property without its own converter has to be one that
  can be bound.
-/

namespace SettingsLint

/-- A rule. -/
structure Rule where
  name : String
  /-- The problem with a property, if there is one; the flag tells whether the program
  is to be published ahead of time. -/
  problem? : (aot : Bool) → Model → BindingProperty → Option Problem

/-- The problem with the value given for the type of a property. -/
def typeProblem? (declared : TypeId) (value : Constant) : Option Problem :=
  match value.type? with
  | some found => if found = declared then none else some (.mismatchedType found)
  | none => some .missingType

/-- The problem with how a binding attribute names the type of its property. The last
constructor argument is taken for it, or the first named value that is wrong. -/
def attributeProblem? (declared : TypeId) (a : AppliedAttribute) : Option Problem :=
  match a.bindingArguments with
  | .positional values => typeProblem? declared (values.getLastD .unknown)
  | .named [] => some .missingType
  | .named values => values.findSome? fun (_, value) => typeProblem? declared value

namespace Rule

/-- The rule that binding attributes name the type of their property. -/
def explicitType : Rule where
  name := "aot-explicit-type"
  problem? aot model p :=
    let declared := p.property.type
    if !aot || model.table.kind declared = .error || model.table.bindsImplicitly declared then none
    else p.attributes.findSome? (attributeProblem? declared)

/-- The rule that the type of a property can be bound. -/
def propertyType : Rule where
  name := "property-type"
  problem? _ model p :=
    let declared := p.property.type
    if model.table.kind declared = .error || model.hasConverter p.property then none
    else (model.table.unbindable? declared).map .invalidType

def all : List Rule := [explicitType, propertyType]

end Rule

end SettingsLint
