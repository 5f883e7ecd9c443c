import SettingsLint.Binding.Model

/-! # Settings classes

A settings class derives, directly or not, from the settings base of the framework.
Its properties with a binding attribute are filled from the command line; they are
what the rules look at.
-/

namespace SettingsLint

/-- The display form of the settings base. -/
def settingsBaseName : String := "Spectre.Console.Cli.CommandSettings"

/-- The display forms of the attributes that bind a property to the command line. -/
def bindingAttributeNames : List String :=
  ["Spectre.Console.Cli.CommandOptionAttribute", "Spectre.Console.Cli.CommandArgumentAttribute"]

/-- The display form of the attribute that gives a property its own converter. -/
def converterAttributeName : String := "System.ComponentModel.TypeConverterAttribute"

/-- The names under which a binding attribute takes the type of its property. -/
def typeArgumentNames : List String := ["optionType", "argumentType"]

/-- A property of a settings class with its binding attributes. -/
structure BindingProperty where
  /-- The class that declares the property. -/
  cls : TypeId
  property : PropertySymbol
  /-- The binding attributes, in source order. -/
  attributes : List AppliedAttribute
  deriving DecidableEq, Repr

/-- How a binding attribute is given its arguments. -/
inductive BindingArguments where
  /-- The constructor arguments, of which there are some. -/
  | positional (values : List Constant)
  /-- Without constructor arguments, the values set under a name for the type. -/
  | named (values : List (String × Constant))
  deriving DecidableEq, Repr

/-- How the attribute is given its arguments. -/
def AppliedAttribute.bindingArguments (a : AppliedAttribute) : BindingArguments :=
  if a.arguments.isEmpty then
    .named (a.named.filter fun (name, _) => typeArgumentNames.contains name)
  else .positional a.arguments

namespace Model

/-- Is the class of the attribute one with such a display form? -/
def attributeIsOneOf (model : Model) (names : List String) (a : AppliedAttribute) : Bool :=
  a.cls.any fun id => names.contains (model.table.display id)

def isBindingAttribute (model : Model) (a : AppliedAttribute) : Bool :=
  model.attributeIsOneOf bindingAttributeNames a

/-- Does the property have its own converter? -/
def hasConverter (model : Model) (p : PropertySymbol) : Bool :=
  p.attributes.any (model.attributeIsOneOf [converterAttributeName])

/-- Is one of the bases of the type the settings base? The type itself does not count. -/
def isSettings (model : Model) (id : TypeId) : Bool :=
  (model.table.baseChain id).tail.any (model.table.display · = settingsBaseName)

/-- The settings classes, in source order. -/
def settingsClasses (model : Model) : List TypeId :=
  model.types.filter model.isSettings

/-- The properties of a type that have a binding attribute, in source order. -/
def bindingPropertiesOf (model : Model) (id : TypeId) : List BindingProperty :=
  (model.table.properties id).filterMap fun p =>
    let attributes := p.attributes.filter model.isBindingAttribute
    if attributes.isEmpty then none else some ⟨id, p, attributes⟩

def bindingProperties (model : Model) : List BindingProperty :=
  model.settingsClasses.flatMap model.bindingPropertiesOf

end Model

end SettingsLint
