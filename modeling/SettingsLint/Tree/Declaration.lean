import SettingsLint.Tree.Attribute

/-! # Declarations

The declarations that the analysis looks at: types with their members, and of the
members the properties, constructors and nested types. Executable code is not
modelled; a method or field is kept as the place it occupies.
-/

namespace SettingsLint

/-- A parameter of a constructor or of a record. -/
structure Parameter where
  modifiers : List Ident
  type : TypeExpr
  name : Ident
  /-- Is a default value given? -/
  hasDefault : Bool
  span : Span
  deriving Repr

structure Property where
  attributes : List AttributeList
  modifiers : List Ident
  type : TypeExpr
  name : Ident
  /-- From the first attribute list to the end of the accessors or initializer. -/
  span : Span
  deriving Repr

namespace Property

/-- Every attribute written before the property. -/
def allAttributes (property : Property) : List Attribute :=
  property.attributes.flatMap (·.attributes)

/-- The attributes that apply to the property itself. -/
def ownAttributes (property : Property) : List Attribute :=
  (property.attributes.filter (·.appliesToProperty)).flatMap (·.attributes)

end Property

structure Constructor where
  modifiers : List Ident
  name : Ident
  parameters : List Parameter
  span : Span
  deriving Repr

/-- Is this the initializer of the type itself? -/
def Constructor.isStatic (constructor : Constructor) : Bool :=
  constructor.modifiers.any (·.name = "static")

inductive DeclarationKind where
  | classDecl
  | structDecl
  | interfaceDecl
  | enumDecl
  | recordDecl
  | recordStructDecl
  deriving DecidableEq, Repr

/-- All of a type declaration but its members. -/
structure DeclarationHeader where
  attributes : List AttributeList
  modifiers : List Ident
  kind : DeclarationKind
  name : Ident
  typeParameters : List Ident
  /-- The parameters after the name of a record or class, if written. -/
  primaryParameters : Option (List Parameter)
  /-- The types after the colon. -/
  bases : List TypeExpr
  /-- The whole declaration, members included. -/
  span : Span
  deriving Repr

mutual

inductive TypeDeclaration where
  | mk (header : DeclarationHeader) (members : List Member)

inductive Member where
  | property (property : Property)
  | constructor (constructor : Constructor)
  | nested (declaration : TypeDeclaration)
  /-- A method, field, event or any other member. -/
  | other (span : Span)

end

deriving instance Repr for TypeDeclaration, Member

def Member.property? : Member → Option Property
  | property p => some p
  | _ => none

namespace TypeDeclaration

def header : TypeDeclaration → DeclarationHeader
  | mk header _ => header

def members : TypeDeclaration → List Member
  | mk _ members => members

def name (declaration : TypeDeclaration) : Ident := declaration.header.name

def properties (declaration : TypeDeclaration) : List Property :=
  declaration.members.filterMap (·.property?)

end TypeDeclaration

mutual

/-- The declaration itself, then the types nested in it, each before its own nested
types, in source order. -/
def TypeDeclaration.withNested : TypeDeclaration → List TypeDeclaration
  | .mk header members => .mk header members :: Member.nestedIn members

/-- The types declared among the members, each before its own nested types. -/
def Member.nestedIn : List Member → List TypeDeclaration
  | [] => []
  | .nested declaration :: members => declaration.withNested ++ Member.nestedIn members
  | .property _ :: members => Member.nestedIn members
  | .constructor _ :: members => Member.nestedIn members
  | .other _ :: members => Member.nestedIn members

end

end SettingsLint
