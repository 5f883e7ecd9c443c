import SettingsLint.Binding.Attribute
import SettingsLint.Reading.Unit
import SettingsLint.Types.Display

/-! # Models

A model is what the analysis sees of a source: the completed type table, the types
that the source declares, and the names that did not resolve.

A source is bound in two passes. The first one declares every type, so that the order
of declarations does not matter for names. The second one goes through the same
declarations, nested types before the type around them, and binds bases, constructors
and properties. Parts of a partial type share one entry.
-/

namespace SettingsLint

/-- The kind of type that a declaration makes. -/
def DeclarationKind.typeKind : DeclarationKind → TypeKind
  | classDecl | recordDecl => .classType
  | structDecl | recordStructDecl => .structType
  | interfaceDecl => .interfaceType
  | enumDecl => .enumType

/-! ### Declaring -/

/-- A declaration with the type it declares and the surroundings of its members. -/
structure Declared where
  id : TypeId
  declaration : TypeDeclaration
  context : Context

/-- What the first pass has produced so far. -/
structure DeclareState where
  table : TypeTable
  /-- The declarations, nested types before the type around them. -/
  declared : List Declared := []
  /-- The declared types, in the order of their first declaration. -/
  types : List TypeId := []

namespace DeclareState

/-- The type for a declaration: the one that another part of the source has declared
under the same name, or else a new one. -/
def enter (s : DeclareState) (context : Context) (containing : Option TypeId)
    (header : DeclarationHeader) : TypeId × DeclareState :=
  let arity := header.typeParameters.length
  let known :=
    match containing with
    | some outer => s.table.lookupNested outer header.name.name arity
    | none => s.table.lookupIn context.namespaceName header.name.name arity
  match known.filter (s.types.contains ·) with
  | some id => (id, s)
  | none =>
    let (id, table) := s.table.declare context.namespaceName header.name.name header.kind.typeKind
      (header.typeParameters.map (·.name)) containing
    (id, { s with table, types := s.types ++ [id] })

mutual

/-- Declares a type and the types nested in it. -/
def declareType (s : DeclareState) (context : Context) (containing : Option TypeId) :
    TypeDeclaration → DeclareState
  | .mk header members =>
    let (id, s) := s.enter context containing header
    let context := { context with enclosing := id :: context.enclosing }
    let s := s.declareNested context id members
    { s with declared := s.declared ++ [⟨id, .mk header members, context⟩] }

/-- Declares the types among the members of a type. -/
def declareNested (s : DeclareState) (context : Context) (outer : TypeId) :
    List Member → DeclareState
  | [] => s
  | .nested declaration :: members =>
    (s.declareType context (some outer) declaration).declareNested context outer members
  | .property _ :: members => s.declareNested context outer members
  | .constructor _ :: members => s.declareNested context outer members
  | .other _ :: members => s.declareNested context outer members

end

mutual

/-- Declares the types in a member of a source unit or namespace. -/
def declareMember (s : DeclareState) (context : Context) : UnitMember → DeclareState
  | .scope header members =>
    let name :=
      if context.namespaceName = "" then header.dottedName
      else context.namespaceName ++ "." ++ header.dottedName
    s.declareMembers ⟨name, ⟨name, header.usings⟩ :: context.scopes, []⟩ members
  | .type declaration => s.declareType context none declaration

/-- Declares the types in the members of a source unit or namespace. -/
def declareMembers (s : DeclareState) (context : Context) : List UnitMember → DeclareState
  | [] => s
  | member :: members => (s.declareMember context member).declareMembers context members

end

def declareUnit (s : DeclareState) (unit : SourceUnit) : DeclareState :=
  s.declareMembers ⟨"", [⟨"", unit.usings⟩], []⟩ unit.members

end DeclareState

/-! ### Binding -/

namespace Bind

/-- Binds one of the types after the colon. An interface is added; the first type can be
the base of a class. -/
def baseType (d : Declared) (isFirst : Bool) (expr : TypeExpr) : Bind Unit := do
  let id ← type d.context expr
  let kind := (← table).kind id
  let canDerive := isFirst && d.declaration.header.kind.typeKind = .classType
  if kind = .interfaceType then changeTable (·.addInterface d.id id)
  else if (kind = .classType || kind = .error) && canDerive then changeTable (·.setBase d.id id)

/-- The base of a type that names none. -/
def defaultBase (t : TypeTable) (kind : TypeKind) : Option TypeId :=
  match kind with
  | .classType => t.special? .object
  | .structType => t.lookupIn "System" "ValueType" 0
  | .enumType => t.lookupIn "System" "Enum" 0
  | _ => none

/-- Gives a type without a base the base of a type that names none. -/
def setDefaultBase (d : Declared) : Bind Unit := do
  let t ← table
  if (t.base d.id).isNone then
    match defaultBase t d.declaration.header.kind.typeKind with
    | some base => changeTable (·.setBase d.id base)
    | none => return

def baseTypes (d : Declared) : Bind Unit := do
  let header := d.declaration.header
  if header.kind ≠ .enumDecl then
    header.bases.zipIdx.forM (fun (expr, i) => baseType d (i = 0) expr)
  setDefaultBase d

def parameters (context : Context) (list : List Parameter) : Bind (List ParameterSymbol) :=
  list.mapM fun p => return { name := p.name.name, type := ← type context p.type }

def constructor (d : Declared) (list : List Parameter) : Bind Unit := do
  let symbols ← parameters d.context list
  changeTable (·.addConstructor d.id symbols)

def property (context : Context) (p : Property) : Bind PropertySymbol := do
  let id ← type context p.type
  let attributes ← p.ownAttributes.mapM (appliedAttribute context)
  return ⟨p.name.name, id, p.name.span, p.span, attributes⟩

def member (d : Declared) : Member → Bind Unit
  | .property p => do
    let symbol ← property d.context p
    changeTable (·.addProperty d.id symbol)
  | .constructor c => if c.isStatic then return else constructor d c.parameters
  | .nested _ => return
  | .other _ => return

def hasConstructor (declaration : TypeDeclaration) : Bool :=
  declaration.header.primaryParameters.isSome ||
    declaration.members.any fun member =>
      match member with
      | .constructor c => !c.isStatic
      | _ => false

/-- A class without an instance constructor, and every struct, has one without
parameters. -/
def implicitConstructor (d : Declared) : Bind Unit := do
  let implicit :=
    match d.declaration.header.kind.typeKind with
    | .classType => !hasConstructor d.declaration
    | .structType => true
    | _ => false
  if implicit && ((← table).constructors d.id).all (!·.parameters.isEmpty) then
    changeTable (·.addConstructor d.id [])

def members (d : Declared) : Bind Unit := do
  match d.declaration.header.primaryParameters with
  | some list => constructor d list
  | none => pure ()
  d.declaration.members.forM (member d)
  implicitConstructor d

def declaration (d : Declared) : Bind Unit := do
  baseTypes d
  members d

end Bind

/-! ### Models -/

/-- What the analysis sees of a source. -/
structure Model where
  /-- The completed type table. -/
  table : TypeTable
  /-- The types that the analysis visits, in source order. -/
  types : List TypeId
  /-- The names that did not resolve. -/
  diagnostics : List Diagnostic := []

namespace Model

/-- The model of a table made by hand. -/
def ofTable (table : TypeTable) (types : List TypeId) : Model :=
  { table := table.complete, types }

def ofUnit (unit : SourceUnit) : Model :=
  let declared := DeclareState.declareUnit { table := .withLibrary } unit
  let bound := (declared.declared.forM Bind.declaration { table := declared.table }).2
  { table := bound.table.complete, types := declared.types, diagnostics := bound.diagnostics }

/-- The declared type with the display form. -/
def typeNamed? (model : Model) (display : String) : Option TypeId :=
  model.types.find? (model.table.display · = display)

end Model

end SettingsLint
