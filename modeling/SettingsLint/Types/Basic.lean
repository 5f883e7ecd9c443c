import SettingsLint.Text.Span

/-! # Types and symbols

The vocabulary of the type table: identifiers of types, their kinds, the types that
the language itself knows by keyword, and the symbols that a type owns (properties
with their attributes, constructors).
-/

namespace SettingsLint

/-- The identity of a type in a table: its place in the order of creation. -/
structure TypeId where
  index : Nat
  deriving DecidableEq, Repr, Inhabited

/-- The broad category of a type. -/
inductive TypeKind where
  | classType
  | structType
  | interfaceType
  | enumType
  | arrayType
  | typeParameter
  /-- A type that did not resolve. -/
  | error
  deriving DecidableEq, Repr, Inhabited

/-- The types that are built into the runtime. -/
inductive SpecialType where
  | object
  | boolean
  | char
  | sbyte
  | byte
  | int16
  | uint16
  | int32
  | uint32
  | int64
  | uint64
  | decimal
  | single
  | double
  | string
  | intPtr
  | uintPtr
  | dateTime
  deriving DecidableEq, Repr, Inhabited

namespace SpecialType

def all : List SpecialType :=
  [object, boolean, char, sbyte, byte, int16, uint16, int32, uint32, int64, uint64, decimal,
    single, double, string, intPtr, uintPtr, dateTime]

def keyword? : SpecialType → Option String
  | object => some "object"
  | boolean => some "bool"
  | char => some "char"
  | sbyte => some "sbyte"
  | byte => some "byte"
  | int16 => some "short"
  | uint16 => some "ushort"
  | int32 => some "int"
  | uint32 => some "uint"
  | int64 => some "long"
  | uint64 => some "ulong"
  | decimal => some "decimal"
  | single => some "float"
  | double => some "double"
  | string => some "string"
  | intPtr => some "nint"
  | uintPtr => some "nuint"
  | dateTime => none

/-- The type that a keyword names. -/
def ofKeyword? (word : String) : Option SpecialType :=
  all.find? (·.keyword? = some word)

end SpecialType

/-! ### Symbols -/

/-- The value of an attribute argument, as far as it is known. -/
inductive Constant where
  /-- `typeof` of a type that resolved. -/
  | type (id : TypeId)
  /-- A literal as written. -/
  | literal (text : String)
  /-- Anything else, a `typeof` that did not resolve included. -/
  | unknown
  deriving DecidableEq, Repr

def Constant.type? : Constant → Option TypeId
  | type id => some id
  | _ => none

/-- An attribute applied to a property. -/
structure AppliedAttribute where
  /-- The class of the attribute, if its name resolved. -/
  cls : Option TypeId
  /-- The last name of the attribute as written. -/
  name : String
  /-- The constructor arguments in the order of the parameters. -/
  arguments : List Constant
  /-- The arguments set by `Name = value`, in source order. -/
  named : List (String × Constant)
  span : Span
  deriving DecidableEq, Repr

/-- The first argument set under the name. -/
def AppliedAttribute.named? (a : AppliedAttribute) (name : String) : Option Constant :=
  a.named.lookup name

structure PropertySymbol where
  name : String
  type : TypeId
  /-- The place of the name. -/
  nameSpan : Span
  /-- The place of the whole declaration. -/
  span : Span
  attributes : List AppliedAttribute
  deriving DecidableEq, Repr

structure ParameterSymbol where
  name : String
  type : TypeId
  deriving DecidableEq, Repr

/-- The parameters of an instance constructor. -/
structure Signature where
  parameters : List ParameterSymbol
  deriving DecidableEq, Repr

end SettingsLint
