import SettingsLint.Fix.Edit
import SettingsLint.Reading.Unit
import SettingsLint.Rule.Finding
import SettingsLint.Rule.Settings
import SettingsLint.Text.Blank

/-! # Naming the type

The fix for a binding attribute that does not name the type of its property, or names
another one. Every binding attribute of the property gets one edit:

- an argument that names the type has its value replaced;
- otherwise `typeof` of the property's type is added as the last argument, but before
  the arguments set by `Name = value`;
- without an argument list, one is added.

The type is written as it is for the property, except that the question mark of a
nullable reference type is left out.
-/

namespace SettingsLint

/-- A fix offered for a diagnostic. -/
structure CodeFix where
  title : String
  /-- Fixes with the same key can be applied together. -/
  key : String
  /-- The edits, in source order. -/
  edits : List TextEdit
  deriving DecidableEq, Repr

/-- The text after the fix. -/
def CodeFix.apply (fix : CodeFix) (text : String) : String :=
  String.ofList (TextEdit.applyAll fix.edits text.toList)

namespace TypeArgumentFix

def title : String := "Add or fix type argument for explicit AOT usage"

def key : String := "AddOrUpdateTypeArgument"

def fixableIds : List String := [Descriptor.missingType.id, Descriptor.mismatchedType.id]

/-- The names of the binding attributes, without `Attribute` at the end. -/
def attributeNames : List String := ["CommandOption", "CommandArgument"]

/-- The name without `Attribute` at its end. -/
def withoutSuffix (name : String) : String :=
  let suffix := "Attribute".toList
  if suffix.isSuffixOf name.toList then
    String.ofList (name.toList.take (name.length - suffix.length))
  else name

/-- Is the attribute written like a binding attribute? -/
def isBinding (a : Attribute) : Bool :=
  attributeNames.contains (withoutSuffix a.simpleName)

/-- Does the argument name the type? An argument without a name does if it is a
`typeof`; with a name, the name decides. -/
def isTypeArgument (argument : Argument) : Bool :=
  match argument.name with
  | none => argument.value.isTypeOf
  | some name => typeArgumentNames.contains name.name.name

def isSet (argument : Argument) : Bool :=
  argument.name.any (·.mark = .equals)

/-- The edit that adds the type to arguments that do not name it: before the first one
that is set, or at the end. -/
def insertionFor (typeOf : String) (closing : Span) (arguments : List Argument) : TextEdit :=
  match arguments.find? isSet, arguments.getLast? with
  | some set, _ => .insertion set.span.start (typeOf ++ ", ")
  | none, some last => .insertion last.span.stop (", " ++ typeOf)
  | none, none => .insertion closing.start typeOf

/-- The edit that makes the arguments name the type by `typeOf`. -/
def editIn (typeOf : String) (list : ArgumentList) : TextEdit :=
  match list.arguments.find? isTypeArgument with
  | some argument => ⟨argument.value.span, typeOf⟩
  | none => insertionFor typeOf list.closing list.arguments

/-- The edit that makes the attribute name the type by `typeOf`. -/
def editFor (typeOf : String) (a : Attribute) : TextEdit :=
  match a.arguments with
  | none => .insertion a.name.span.stop ("(" ++ typeOf ++ ")")
  | some list => editIn typeOf list

/-- The type to name, as written for the property. -/
def typeToName (dropNullable : Bool) (type : TypeExpr) : TypeExpr :=
  match type with
  | .nullable inner span => if dropNullable then inner else .nullable inner span
  | type => type

/-- The `typeof` for the property. -/
def typeOfFor (source : Source) (dropNullable : Bool) (property : Property) : String :=
  let span := (typeToName dropNullable property.type).span
  "typeof(" ++ String.ofList (Text.trimBlank (span.slice source.text.toList)) ++ ")"

/-- The fix for the property at the place of the diagnostic. There is none without a
property there, or without a binding attribute on it. -/
def fix? (source : Source) (d : Diagnostic) : Option CodeFix := do
  let property ← source.unit.propertyAt? d.span.start
  let typeOf := typeOfFor source (d.property? isReferenceKey = some "true") property
  let edits := (property.ownAttributes.filter isBinding).map (editFor typeOf)
  if edits.isEmpty then none else some ⟨title, key, edits⟩

end TypeArgumentFix

end SettingsLint
