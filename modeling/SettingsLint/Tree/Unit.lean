import SettingsLint.Tree.Declaration

/-! # Source units

What one source file declares: its `using` directives, namespaces and types.
-/

namespace SettingsLint

/-- What a `using` directive brings in. -/
inductive UsingKind where
  /-- The types of a namespace. -/
  | ofNamespace
  /-- The static members and nested types of a type. -/
  | ofStatic
  /-- A new name for a type or namespace. -/
  | ofAlias (name : Ident)
  deriving DecidableEq, Repr

structure UsingDirective where
  isGlobal : Bool
  kind : UsingKind
  target : TypeExpr
  span : Span
  deriving Repr

/-- All of a namespace declaration but its members. -/
structure NamespaceHeader where
  /-- The dotted name, part by part. -/
  name : List Ident
  /-- Does the namespace go on to the end of its block, without braces of its own? -/
  fileScoped : Bool
  usings : List UsingDirective
  span : Span
  deriving Repr

def NamespaceHeader.dottedName (header : NamespaceHeader) : String :=
  ".".intercalate (header.name.map (·.name))

/-- A member of a source unit or of a namespace. -/
inductive UnitMember where
  | scope (header : NamespaceHeader) (members : List UnitMember)
  | type (declaration : TypeDeclaration)
  deriving Repr

/-- What one source file declares. -/
structure SourceUnit where
  usings : List UsingDirective
  members : List UnitMember
  span : Span
  deriving Repr

mutual

/-- The types declared in a member, each before its nested types, in source order. -/
def UnitMember.declarations : UnitMember → List TypeDeclaration
  | .scope _ members => UnitMember.declarationsIn members
  | .type declaration => declaration.withNested

/-- The types declared in the members, in source order. -/
def UnitMember.declarationsIn : List UnitMember → List TypeDeclaration
  | [] => []
  | member :: members => member.declarations ++ UnitMember.declarationsIn members

end

namespace SourceUnit

/-- Every type declared in the unit, each before its nested types, in source order. -/
def declarations (unit : SourceUnit) : List TypeDeclaration :=
  UnitMember.declarationsIn unit.members

/-- Every property of every declared type, type by type. -/
def properties (unit : SourceUnit) : List Property :=
  unit.declarations.flatMap (·.properties)

/-- The property whose declaration covers the byte at `offset`. -/
def propertyAt? (unit : SourceUnit) (offset : Nat) : Option Property :=
  unit.properties.find? (·.span.containsOffset offset)

end SourceUnit

end SettingsLint
