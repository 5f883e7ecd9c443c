import SettingsLint.Binding.TypeExpr

/-! # Applied attributes

The class of an attribute is looked up with `Attribute` appended to the name first,
then by the name as written. Positional arguments and those with a parameter's name
are put into the order of the parameters of a constructor that fits.
-/

namespace SettingsLint

/-- A constructor argument with the parameter that it names, if it does. -/
structure PlacedArgument (α : Type) where
  parameter : Option String
  value : α

/-- The index of the parameter that each argument is for: the one it names, or else the
one at its own index. -/
def argumentTargets (parameters : List ParameterSymbol) (arguments : List (PlacedArgument α)) :
    Option (List Nat) :=
  arguments.zipIdx.mapM fun (argument, i) =>
    match argument.parameter with
    | some name => parameters.findIdx? (·.name = name)
    | none => some i

/-- The argument values in the order of the parameters, if there are as many of both and
no parameter gets two arguments. -/
def placeArguments (parameters : List ParameterSymbol) (arguments : List (PlacedArgument α)) :
    Option (List α) :=
  if parameters.length ≠ arguments.length then none
  else do
    let targets ← argumentTargets parameters arguments
    if targets.Nodup then
      (List.range arguments.length).mapM fun i => do
        let source ← targets.idxOf? i
        return (← arguments[source]?).value
    else none

/-- The argument values in the order of the parameters of the first constructor that
fits. Without names or a constructor that fits, they stay in source order. -/
def orderArguments (constructors : List Signature) (arguments : List (PlacedArgument α)) :
    List α :=
  let written := arguments.map (·.value)
  if arguments.all (·.parameter.isNone) then written
  else (constructors.findSome? (placeArguments ·.parameters arguments)).getD written

/-- The constructor argument with the value, unless the argument sets a property. -/
def Argument.placed? (argument : Argument) (value : α) : Option (PlacedArgument α) :=
  match argument.name with
  | none => some ⟨none, value⟩
  | some name =>
    match name.mark with
    | .colon => some ⟨some name.name.name, value⟩
    | .equals => none

/-- The property that the argument sets, with the value. -/
def Argument.named? (argument : Argument) (value : α) : Option (String × α) :=
  match argument.name with
  | none => none
  | some name =>
    match name.mark with
    | .colon => none
    | .equals => some (name.name.name, value)

namespace Attribute

/-- The arguments in the parentheses, if there are any. -/
def writtenArguments (a : Attribute) : List Argument := (a.arguments.map (·.arguments)).getD []

/-- The attribute with its class and the values of its arguments. Only the constructors of
a class put arguments into another order. -/
def applied (a : Attribute) (cls : Option TypeId) (constructors : List Signature)
    (values : List Constant) : AppliedAttribute :=
  let pairs := a.writtenArguments.zip values
  let placed := pairs.filterMap fun (argument, value) => argument.placed? value
  let named := pairs.filterMap fun (argument, value) => argument.named? value
  ⟨cls, a.simpleName, orderArguments constructors placed, named, a.span⟩

end Attribute

namespace Bind

/-- The value of an attribute argument. -/
def constant (context : Context) : Expr → Bind Constant
  | .typeOf expr _ => do
    let id ← type context expr
    if (← table).kind id = .error then return .unknown else return .type id
  | .literal _ text _ => return .literal text
  | .other _ => return .unknown

def attributeClass (context : Context) (a : Attribute) : Bind (Option TypeId) := do
  match a.name with
  | .named isGlobal segments _ =>
    let arguments ← argumentsWith aliasTarget context segments
    let names := segments.map (·.name.name)
    let suffixed := names.dropLast ++ [a.simpleName ++ "Attribute"]
    let full (names : List String) := lookup aliasTarget context isGlobal (names.zip arguments)
    match ← full suffixed with
    | some id => return some id
    | none => full names
  | _ => return none

/-- An attribute with its class and arguments. -/
def appliedAttribute (context : Context) (a : Attribute) : Bind AppliedAttribute := do
  let cls ← attributeClass context a
  if cls.isNone then
    report Diagnostic.unresolvedAttributeId
      ("the attribute `" ++ a.simpleName ++ "` could not be found") a.name.span
  let values ← a.writtenArguments.mapM (fun argument => constant context argument.value)
  let t ← table
  return a.applied cls ((cls.map t.constructors).getD []) values

end Bind

end SettingsLint
