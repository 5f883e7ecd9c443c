import SettingsLint.Binding.Scope

/-! # The types that are meant

`Bind.type` finds the type that a written type stands for. A name that does not
resolve is reported and stands for an error type; so does everything built from it,
without a second report.
-/

namespace SettingsLint.Bind

/-- The type that a qualified name with these arguments stands for, or an error type. -/
def namedType (resolveAlias : ResolveAlias) (context : Context) (isGlobal : Bool)
    (segments : List NameSegment) (span : Span) (arguments : List (List TypeId)) :
    Bind TypeId := do
  let text := dottedText segments
  let t ← table
  if arguments.any (·.any (t.kind · = .error)) then onTable (·.error text)
  else
    match ← lookup resolveAlias context isGlobal ((segments.map (·.name.name)).zip arguments) with
    | some id => return id
    | none =>
      report Diagnostic.unresolvedTypeId
        ("the type or namespace name `" ++ text ++ "` could not be found") span
      onTable (·.error text)

/-- The array of a type; an error stays an error. -/
def arrayType (element : TypeId) (rank : Nat) : Bind TypeId := do
  if (← table).kind element = .error then return element
  else onTable (·.array element rank)

/-- The nullable form of a type. Only a value type has one, and only one. -/
def nullableType (inner : TypeId) : Bind TypeId := do
  let t ← table
  if t.isValueType inner && (t.nullableUnderlying inner).isNone then onTable (·.nullable inner)
  else return inner

mutual

/-- The type that a written type stands for. -/
def typeWith (resolveAlias : ResolveAlias) (context : Context) : TypeExpr → Bind TypeId
  | .named isGlobal segments span => do
    let arguments ← argumentsWith resolveAlias context segments
    namedType resolveAlias context isGlobal segments span arguments
  | .array element rank _ => do
    let element ← typeWith resolveAlias context element
    arrayType element rank
  | .nullable inner _ => do
    let inner ← typeWith resolveAlias context inner
    nullableType inner
  | .unsupported _ => onTable (·.error "?")

/-- The type arguments of each segment of a qualified name. -/
def argumentsWith (resolveAlias : ResolveAlias) (context : Context) :
    List NameSegment → Bind (List (List TypeId))
  | [] => return []
  | .mk _ arguments :: segments => do
    let ids ← typesWith resolveAlias context arguments
    return ids :: (← argumentsWith resolveAlias context segments)

def typesWith (resolveAlias : ResolveAlias) (context : Context) :
    List TypeExpr → Bind (List TypeId)
  | [] => return []
  | expr :: exprs => do
    let id ← typeWith resolveAlias context expr
    return id :: (← typesWith resolveAlias context exprs)

end

/-- What the target of an alias stands for. It is read as a full name, to which no
directives apply. -/
def aliasTarget : ResolveAlias
  | .named isGlobal segments _ => do
    let text := dottedText segments
    if segments.all (·.arguments.isEmpty) && (← table).isNamespace text then
      return some (.inNamespace text)
    else
      let none' : ResolveAlias := fun _ => return none
      let arguments ← argumentsWith none' {} segments
      let names := segments.map (·.name.name)
      return (← lookup none' {} isGlobal (names.zip arguments)).map .type
  | _ => return none

/-- The type that a written type stands for in a context. -/
def type (context : Context) (expr : TypeExpr) : Bind TypeId :=
  typeWith aliasTarget context expr

end SettingsLint.Bind
