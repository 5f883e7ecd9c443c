import SettingsLint.Types.Table

/-! # Display forms

How a type is shown in messages: keywords for the special types, a question mark for
nullable types, type arguments in angle brackets, and qualified names for the rest.
-/

namespace SettingsLint

/-- A name after what it lies in: the display form of a type, or a namespace. -/
def qualifiedDisplay (name namespaceName : String) (outer : Option String) : String :=
  match outer with
  | some outer => outer ++ "." ++ name
  | none => if namespaceName = "" then name else namespaceName ++ "." ++ name

/-- Display forms in angle brackets. -/
def bracketedDisplay (texts : List String) : String := "<" ++ ", ".intercalate texts ++ ">"

def TypeTable.display (t : TypeTable) (id : TypeId) : String :=
  let inner (other : TypeId) : String := if other.index < id.index then t.display other else ""
  match t.shape id with
  | .definition name namespaceName _ containing _ typeParameters =>
    match (t.specialOf id).bind (·.keyword?) with
    | some keyword => keyword
    | none =>
      qualifiedDisplay name namespaceName (containing.map inner) ++
        (if typeParameters.isEmpty then "" else bracketedDisplay (typeParameters.map inner))
  | .constructed definition arguments =>
    match t.nullableUnderlying id with
    | some underlying => inner underlying ++ "?"
    | none =>
      (match t.shape definition with
        | .definition name namespaceName _ containing _ _ =>
          qualifiedDisplay name namespaceName (containing.map inner)
        | _ => "") ++ bracketedDisplay (arguments.map inner)
  | .array element rank =>
    inner element ++ "[" ++ String.ofList (List.replicate (rank - 1) ',') ++ "]"
  | .typeParameter name => name
  | .error name => name
termination_by id.index

end SettingsLint
