import SettingsLint.Diagnostic.Basic
import SettingsLint.Tree.Unit
import SettingsLint.Types.Library

/-! # Scopes

Where a name stands decides what it means. A context gives the namespace around the
name, the `using` directives in effect and the types around it. Names are looked up
from the inside out: type parameters and nested types of the enclosing types, then
namespace by namespace the types of the namespace and what its directives bring in.
-/

namespace SettingsLint

/-- The `using` directives of one namespace declaration. -/
structure UsingScope where
  namespaceName : String
  usings : List UsingDirective

/-- The surroundings of a name. -/
structure Context where
  namespaceName : String := ""
  /-- The directives in effect, innermost first. -/
  scopes : List UsingScope := []
  /-- The types around the name, innermost first. -/
  enclosing : List TypeId := []

/-- The namespaces around a name, innermost first, down to the unnamed one. -/
def Context.namespaces (context : Context) : List String :=
  (enclosingNamespaces context.namespaceName).reverse ++ [""]

/-- What the leading part of a name stands for. -/
inductive Found where
  | inNamespace (name : String)
  | type (id : TypeId)

def Found.type? : Found → Option TypeId
  | type id => some id
  | inNamespace _ => none

/-- What binding has produced so far. -/
structure BindState where
  table : TypeTable
  diagnostics : List Diagnostic := []

/-- An action of binding. -/
abbrev Bind (α : Type) := StateM BindState α

namespace Bind

def table : Bind TypeTable := return (← get).table

/-- Changes the table and gives a result. -/
def onTable (f : TypeTable → α × TypeTable) : Bind α :=
  modifyGet fun s =>
    let (a, table) := f s.table
    (a, { s with table })

def changeTable (f : TypeTable → TypeTable) : Bind Unit :=
  modify fun s => { s with table := f s.table }

/-- Reports a name that did not resolve. -/
def report (id message : String) (span : Span) : Bind Unit :=
  modify fun s =>
    { s with diagnostics := s.diagnostics ++ [{ id, severity := .warning, message, span }] }

end Bind

namespace TypeTable

/-- The type or namespace of the name in a namespace; a type goes before a namespace. -/
def foundIn (t : TypeTable) (namespaceName name : String) (arity : Nat) : Option Found :=
  match t.lookupIn namespaceName name arity with
  | some id => some (.type id)
  | none =>
    let inner := if namespaceName = "" then name else namespaceName ++ "." ++ name
    if arity = 0 && t.isNamespace inner then some (.inNamespace inner) else none

/-- The type of the name among the type parameters of the type and the types nested in
it. -/
def foundInType (t : TypeTable) (outer : TypeId) (name : String) (arity : Nat) :
    Option TypeId :=
  (if arity = 0 then (t.typeParameters outer).find? (t.name · = name) else none)
    <|> t.lookupNested outer name arity

/-- The special type that a word names, and the type that `dynamic` stands for. -/
def foundKeyword (t : TypeTable) (word : String) : Option (Option TypeId) :=
  match SpecialType.ofKeyword? word with
  | some special => some (t.special? special)
  | none => if word = "dynamic" then some (t.special? .object) else none

end TypeTable

/-- The dotted name as text, without type arguments. -/
def dottedText (segments : List NameSegment) : String :=
  ".".intercalate (segments.map (·.name.name))

def findAlias (usings : List UsingDirective) (name : String) : Option TypeExpr :=
  usings.findSome? fun directive =>
    match directive.kind with
    | .ofAlias ident => if ident.name = name then some directive.target else none
    | _ => none

/-- The type that one of the directives for namespaces brings in. -/
def findImported (t : TypeTable) (usings : List UsingDirective) (name : String) (arity : Nat) :
    Option TypeId :=
  usings.findSome? fun directive =>
    match directive.kind, directive.target with
    | .ofNamespace, .named _ segments _ => t.lookupIn (dottedText segments) name arity
    | _, _ => none

/-- How the target of an alias is resolved. -/
abbrev ResolveAlias := TypeExpr → Bind (Option Found)

namespace Bind

/-- What the directives of one namespace declaration bring in under the name. An alias
goes before a namespace, even if its target does not resolve. -/
def foundInUsings (resolveAlias : ResolveAlias) (usings : List UsingDirective) (name : String)
    (arity : Nat) : Bind (Option Found) := do
  match if arity = 0 then findAlias usings name else none with
  | some target => resolveAlias target
  | none => return (findImported (← table) usings name arity).map .type

/-- What the name stands for in one of the scopes, innermost first. -/
def foundInScopes (resolveAlias : ResolveAlias) (name : String) (arity : Nat) :
    List UsingScope → Bind (Option Found)
  | [] => return none
  | scope :: scopes => do
    match ← foundInUsings resolveAlias scope.usings name arity with
    | some found => return some found
    | none => foundInScopes resolveAlias name arity scopes

/-- What the name stands for in one of the namespaces, in the order given. -/
def foundInNamespaces (resolveAlias : ResolveAlias) (scopes : List UsingScope) (name : String)
    (arity : Nat) : List String → Bind (Option Found)
  | [] => return none
  | namespaceName :: outer => do
    match (← table).foundIn namespaceName name arity with
    | some found => return some found
    | none =>
      let here := scopes.filter (·.namespaceName = namespaceName)
      match ← foundInScopes resolveAlias name arity here with
      | some found => return some found
      | none => foundInNamespaces resolveAlias scopes name arity outer

/-- What a name stands for at the start of a qualified name. -/
def foundFirst (resolveAlias : ResolveAlias) (context : Context) (name : String) (arity : Nat) :
    Bind (Option Found) := do
  let t ← table
  match if arity = 0 then t.foundKeyword name else none with
  | some special => return special.map .type
  | none =>
    match context.enclosing.findSome? (t.foundInType · name arity) with
    | some id => return some (.type id)
    | none => foundInNamespaces resolveAlias context.scopes name arity context.namespaces

/-- What a name stands for inside what has been found before it. -/
def foundInside (outer : Found) (name : String) (arity : Nat) : Bind (Option Found) := do
  let t ← table
  match outer with
  | .inNamespace namespaceName => return t.foundIn namespaceName name arity
  | .type id => return (t.lookupNested (t.constructedFrom id) name arity).map .type

/-- What has been found, with type arguments given to a type. -/
def withArguments (found : Found) (arguments : List TypeId) : Bind Found := do
  match found with
  | .type definition => return .type (← onTable (·.construct definition arguments))
  | other => return other

/-- The type that the segments stand for inside what has been found before them. -/
def lookupInside (outer : Found) : List (String × List TypeId) → Bind (Option TypeId)
  | [] => return outer.type?
  | (name, arguments) :: segments => do
    match ← foundInside outer name arguments.length with
    | some found => lookupInside (← withArguments found arguments) segments
    | none => return none

/-- Goes on from what the first segment of a qualified name stands for. -/
def lookupFrom (arguments : List TypeId) (segments : List (String × List TypeId)) :
    Option Found → Bind (Option TypeId)
  | some found => do lookupInside (← withArguments found arguments) segments
  | none => return none

/-- The type that a qualified name stands for, segment by segment from left to right. -/
def lookup (resolveAlias : ResolveAlias) (context : Context) (isGlobal : Bool) :
    List (String × List TypeId) → Bind (Option TypeId)
  | [] => return none
  | (name, arguments) :: segments => do
    let arity := arguments.length
    let first ←
      if isGlobal then pure ((← table).foundIn "" name arity)
      else foundFirst resolveAlias context name arity
    lookupFrom arguments segments first

end Bind

end SettingsLint
