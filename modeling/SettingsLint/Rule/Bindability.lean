import SettingsLint.Types.Display
import SettingsLint.Types.Completion

/-! # Which types can be bound

How the framework can make a value of a type from the command line: directly, as a
collection of values under text keys, by a constructor that takes a text, or element
by element. Nullable types are looked through.
-/

namespace SettingsLint

/-- How a type is bound. -/
inductive Bindability where
  /-- A special type, made from text directly. -/
  | intrinsic
  /-- A map or lookup from keys of the given type. -/
  | keyed (key : TypeId)
  /-- Any other type. -/
  | opaqueType
  deriving DecidableEq, Repr

/-- Why a type cannot be bound. -/
inductive Unbindable where
  | keyNotText
  | valueTypeArray
  | nonIntrinsic
  deriving DecidableEq, Repr

namespace Unbindable

def code : Unbindable → String
  | keyNotText => "dictionary-key-not-text"
  | valueTypeArray => "value-type-array"
  | nonIntrinsic => "non-intrinsic"

def message : Unbindable → String
  | keyNotText => "Dictionary types must have a string type for their key"
  | valueTypeArray => "Arrays of structs are not supported"
  | nonIntrinsic => "Non-intrinsic types are not supported"

end Unbindable

/-- The display forms of the generic types that are keyed collections. -/
def keyedShapes : List String :=
  ["System.Collections.Generic.IDictionary<TKey, TValue>",
    "System.Linq.ILookup<TKey, TElement>",
    "System.Collections.Generic.IReadOnlyDictionary<TKey, TValue>"]

namespace TypeTable

/-- The type under a nullable one, or else the type itself. -/
def unwrapNullable (t : TypeTable) (id : TypeId) : TypeId :=
  (t.nullableUnderlying id).getD id

/-- Is this the type of texts? -/
def isText (t : TypeTable) (id : TypeId) : Bool :=
  t.specialOf id = some .string

/-- Is there a constructor that takes exactly one text? -/
def hasTextConstructor (t : TypeTable) (id : TypeId) : Bool :=
  (t.constructors id).any fun c =>
    match c.parameters with
    | [only] => t.isText only.type
    | _ => false

/-- Is the generic type behind this one a keyed collection? -/
def isKeyedShape (t : TypeTable) (id : TypeId) : Bool :=
  keyedShapes.contains (t.display (t.constructedFrom id))

/-- The key type, if the type or else one of its interfaces is a keyed collection. -/
def keyOf? (t : TypeTable) (id : TypeId) : Option TypeId :=
  ((id :: t.allInterfaces id).find? t.isKeyedShape).bind fun shape => (t.typeArguments shape).head?

def bindability (t : TypeTable) (id : TypeId) : Bindability :=
  let id := t.unwrapNullable id
  if (t.specialOf id).isSome then .intrinsic
  else
    match t.keyOf? id with
    | some key => .keyed key
    | none => .opaqueType

/-- Can values be bound without naming the type? -/
def bindsImplicitly (t : TypeTable) (id : TypeId) : Bool :=
  match t.bindability id with
  | .intrinsic => true
  | .keyed key => t.isText key
  | .opaqueType => false

/-- Why an array, or any other type that is not made from one text, cannot be bound. -/
def unbindableArray? (t : TypeTable) (id : TypeId) : Option Unbindable :=
  match t.arrayElement id with
  | none => some .nonIntrinsic
  | some element =>
    if t.bindability element = .intrinsic then none
    else if t.isValueType element then some .valueTypeArray
    else if t.hasTextConstructor element then none
    else some .nonIntrinsic

def unbindable? (t : TypeTable) (id : TypeId) : Option Unbindable :=
  let id := t.unwrapNullable id
  match t.bindability id with
  | .intrinsic => none
  | .keyed key =>
    if t.hasTextConstructor id || t.isText key then none else some .keyNotText
  | .opaqueType => if t.hasTextConstructor id then none else t.unbindableArray? id

end TypeTable

end SettingsLint
