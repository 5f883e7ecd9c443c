import SettingsLint.Types.Basic

/-! # The type table

Every type that an analysis meets has an entry in a table, and its place there is its
identity. An entry has

- a shape, fixed when the entry is made: a definition, a generic type with its
  arguments, an array, a type parameter, or an error that stands for a name that did
  not resolve;
- facts that are filled in later: base, interfaces, constructors, properties.

Generic types, arrays and errors are made once: asking again for the same structure
gives the same entry. Definitions are not shared; a later one with the same qualified
name hides the earlier one.

The identities inside a shape are older than the entry itself. Functions that go down
into shapes check this at every step, and so they end on any table.
-/

namespace SettingsLint

/-- What a type is, in terms of older types. -/
inductive Shape where
  /-- A declared type. `metadataName` is its unique name: namespace, containing types
  and number of type parameters. -/
  | definition (name namespaceName metadataName : String) (containing : Option TypeId)
      (kind : TypeKind) (typeParameters : List TypeId)
  /-- A generic type with arguments for its parameters. -/
  | constructed (definition : TypeId) (arguments : List TypeId)
  | array (element : TypeId) (rank : Nat)
  | typeParameter (name : String)
  /-- A name that did not resolve. -/
  | error (name : String)
  deriving DecidableEq, Repr

/-- Does the shape define a type with the unique name? -/
def Shape.defines (shape : Shape) (unique : String) : Bool :=
  match shape with
  | definition _ _ metadataName _ _ _ => metadataName = unique
  | _ => false

/-- A type with what is known about it. -/
structure Entry where
  shape : Shape
  /-- How many steps of completion it took to meet this type. -/
  depth : Nat := 0
  /-- Has completion filled in the facts that follow from the shape? -/
  instantiated : Bool := false
  special : Option SpecialType := none
  /-- The properties of a definition, in source order. -/
  properties : List PropertySymbol := []
  base : Option TypeId := none
  /-- The interfaces named in the declaration. -/
  interfaces : List TypeId := []
  /-- All interfaces, inherited ones included; known after completion. -/
  allInterfaces : List TypeId := []
  constructors : List Signature := []
  deriving DecidableEq, Repr

instance : Inhabited Entry := ⟨{ shape := .error "" }⟩

/-- A map to types from pairs of a type and something else. There is a list for each first
    type, by its place, with the second components and what they are mapped to. -/
structure TypeMap (κ : Type) where
  lists : Array (List (κ × TypeId)) := #[]
  deriving DecidableEq, Repr, Inhabited

namespace TypeMap

variable {κ : Type}

def find? [DecidableEq κ] (m : TypeMap κ) (first : TypeId) (second : κ) : Option TypeId :=
  (m.lists[first.index]?.getD []).lookup second

/-- The map with one more pair. There are lists up to that of its first component then. -/
def insert (m : TypeMap κ) (first : TypeId) (second : κ) (id : TypeId) : TypeMap κ :=
  let lists := m.lists ++ Array.replicate (first.index + 1 - m.lists.size) []
  ⟨lists.modify first.index ((second, id) :: ·)⟩

end TypeMap

/-- The types of an analysis. -/
structure TypeTable where
  /-- The entries, in the order of creation. -/
  entries : Array Entry := #[]
  /-- The generic types by definition and arguments. -/
  constructed : TypeMap (List TypeId) := {}
  /-- The arrays by element and rank. -/
  arrays : TypeMap Nat := {}
  /-- The errors by name, the latest first. -/
  errors : List (String × TypeId) := []
  /-- The types marked as special, the latest mark first. -/
  specials : List (SpecialType × TypeId) := []
  /-- The namespaces that hold some type or some such namespace. -/
  namespaces : List String := []
  deriving DecidableEq, Repr, Inhabited

/-! ### Names -/

/-- The mark for the number of type parameters. -/
def aritySuffix (arity : Nat) : String :=
  if arity = 0 then "" else "`" ++ arity.repr

/-- The unique name of a type in a namespace. -/
def metadataName (namespaceName name : String) (arity : Nat) : String :=
  (if namespaceName = "" then "" else namespaceName ++ ".") ++ name ++ aritySuffix arity

/-- The unique name of a type nested in the type with the unique name `outer`. -/
def nestedMetadataName (outer name : String) (arity : Nat) : String :=
  outer ++ "+" ++ name ++ aritySuffix arity

/-- The nonempty leading parts of a list, shortest first. -/
def leadingParts : List String → List (List String)
  | [] => []
  | a :: as => [a] :: (leadingParts as).map (a :: ·)

/-- The parts of a text between its dots; `part` is what has been read of the first one,
the last character first. -/
def dotParts (part : List Char) : List Char → List (List Char)
  | [] => [part.reverse]
  | c :: cs => if c = '.' then part.reverse :: dotParts [] cs else dotParts (c :: part) cs

/-- The namespaces that a dotted name lies in, itself included, the outermost first.
Empty parts of the name are left out. -/
def enclosingNamespaces (name : String) : List String :=
  let parts := (dotParts [] name.toList).filter (!·.isEmpty)
  (leadingParts (parts.map String.ofList)).map (".".intercalate ·)

namespace TypeTable

def empty : TypeTable := {}

/-! ### Entries -/

def size (t : TypeTable) : Nat := t.entries.size

/-- The identities of all types, in the order of creation. -/
def ids (t : TypeTable) : List TypeId := (List.range t.size).map TypeId.mk

def entry (t : TypeTable) (id : TypeId) : Entry := t.entries[id.index]?.getD default

def shape (t : TypeTable) (id : TypeId) : Shape := (t.entry id).shape

def update (t : TypeTable) (id : TypeId) (f : Entry → Entry) : TypeTable :=
  { t with entries := t.entries.modify id.index f }

/-- The table with one more type, and the identity of that type. A generic type, an array
    or an error is recorded in its map. -/
def push (t : TypeTable) (shape : Shape) (depth : Nat := 0) : TypeId × TypeTable :=
  let id : TypeId := ⟨t.size⟩
  (id, { t with
    entries := t.entries.push { shape, depth }
    constructed :=
      match shape with
      | .constructed definition arguments => t.constructed.insert definition arguments id
      | _ => t.constructed
    arrays :=
      match shape with
      | .array element rank => t.arrays.insert element rank id
      | _ => t.arrays
    errors :=
      match shape with
      | .error name => (name, id) :: t.errors
      | _ => t.errors })

/-- The type that is recorded for the shape. -/
def find? (t : TypeTable) : Shape → Option TypeId
  | .constructed definition arguments => t.constructed.find? definition arguments
  | .array element rank => t.arrays.find? element rank
  | .error name => t.errors.lookup name
  | _ => none

/-- The type with the shape: the one that is recorded, or else a new one. -/
def intern (t : TypeTable) (shape : Shape) (depth : Nat := 0) : TypeId × TypeTable :=
  match t.find? shape with
  | some id => (id, t)
  | none => t.push shape depth

/-! ### Looking up -/

def metadataName? (t : TypeTable) (id : TypeId) : Option String :=
  match t.shape id with
  | .definition _ _ name _ _ _ => some name
  | _ => none

/-- The namespace of a definition; other types have none. -/
def namespaceOf (t : TypeTable) (id : TypeId) : String :=
  match t.shape id with
  | .definition _ namespaceName _ _ _ _ => namespaceName
  | _ => ""

/-- The latest definition with the unique name. -/
def lookup (t : TypeTable) (metadataName : String) : Option TypeId :=
  (t.entries.toList.zipIdx.findRev? (·.1.shape.defines metadataName)).map (⟨·.2⟩)

/-- The type with the name and the number of type parameters in a namespace. -/
def lookupIn (t : TypeTable) (namespaceName name : String) (arity : Nat) : Option TypeId :=
  t.lookup (metadataName namespaceName name arity)

/-- The type with the name and the number of type parameters nested in another. -/
def lookupNested (t : TypeTable) (outer : TypeId) (name : String) (arity : Nat) :
    Option TypeId :=
  (t.metadataName? outer).bind fun outer => t.lookup (nestedMetadataName outer name arity)

/-- Does some type lie in the namespace, or in one inside it? -/
def isNamespace (t : TypeTable) (name : String) : Bool := t.namespaces.contains name

/-- The type marked last as this special type. -/
def special? (t : TypeTable) (special : SpecialType) : Option TypeId :=
  t.specials.lookup special

/-! ### Building -/

/-- The table with the namespace and those around it. -/
def addNamespace (t : TypeTable) (name : String) : TypeTable :=
  { t with
    namespaces := t.namespaces ++ (enclosingNamespaces name).filter (!t.namespaces.contains ·) }

/-- Makes a type parameter for each name. -/
def pushTypeParameters (t : TypeTable) : List String → List TypeId × TypeTable
  | [] => ([], t)
  | name :: names =>
    let (id, t) := t.push (.typeParameter name)
    let (ids, t) := t.pushTypeParameters names
    (id :: ids, t)

/-- Declares a type and its type parameters, which come before it. A nested type lies
in the namespace of the type around it. -/
def declare (t : TypeTable) (namespaceName name : String) (kind : TypeKind)
    (typeParameters : List String) (containing : Option TypeId) : TypeId × TypeTable :=
  let arity := typeParameters.length
  let (unique, namespaceName) :=
    match containing with
    | some outer =>
      (nestedMetadataName ((t.metadataName? outer).getD "") name arity, t.namespaceOf outer)
    | none => (metadataName namespaceName name arity, namespaceName)
  let (parameters, t) := (t.addNamespace namespaceName).pushTypeParameters typeParameters
  t.push (.definition name namespaceName unique containing kind parameters)

def isDefinition (t : TypeTable) (id : TypeId) : Bool := (t.metadataName? id).isSome

def setSpecial (t : TypeTable) (id : TypeId) (special : SpecialType) : TypeTable :=
  if t.isDefinition id then
    { t.update id ({ · with special := some special }) with
      specials := (special, id) :: t.specials }
  else t

def setBase (t : TypeTable) (id base : TypeId) : TypeTable :=
  t.update id ({ · with base := some base })

/-- Adds an interface to those named in the declaration, once. -/
def addInterface (t : TypeTable) (id interface : TypeId) : TypeTable :=
  t.update id fun e =>
    if e.interfaces.contains interface then e
    else { e with interfaces := e.interfaces ++ [interface] }

def addConstructor (t : TypeTable) (id : TypeId) (parameters : List ParameterSymbol) :
    TypeTable :=
  t.update id fun e => { e with constructors := e.constructors ++ [⟨parameters⟩] }

/-- Adds a property to a definition. -/
def addProperty (t : TypeTable) (id : TypeId) (property : PropertySymbol) : TypeTable :=
  if t.isDefinition id then
    t.update id fun e => { e with properties := e.properties ++ [property] }
  else t

/-- The generic type with the arguments, or the type itself without arguments. -/
def construct (t : TypeTable) (definition : TypeId) (arguments : List TypeId)
    (depth : Nat := 0) : TypeId × TypeTable :=
  if arguments.isEmpty then (definition, t)
  else t.intern (.constructed definition arguments) depth

/-- The array of the element type. A rank of 0 counts as 1. -/
def array (t : TypeTable) (element : TypeId) (rank : Nat) (depth : Nat := 0) :
    TypeId × TypeTable :=
  t.intern (.array element (max rank 1)) depth

/-- The unique name of the type of nullable values. -/
def nullableName : String := "System.Nullable`1"

/-- The unique name of the base of all arrays. -/
def arrayBaseName : String := "System.Array"

/-- The nullable form of a type, or the type itself if the table has no nullables. -/
def nullable (t : TypeTable) (underlying : TypeId) : TypeId × TypeTable :=
  match t.lookup nullableName with
  | some definition => t.construct definition [underlying]
  | none => (underlying, t)

/-- The error that stands for a name. -/
def error (t : TypeTable) (name : String) : TypeId × TypeTable :=
  t.intern (.error name)

/-! ### Asking -/

def kind (t : TypeTable) (id : TypeId) : TypeKind :=
  match t.shape id with
  | .definition _ _ _ _ kind _ => kind
  | .constructed definition _ =>
    if definition.index < id.index then t.kind definition else .error
  | .array _ _ => .arrayType
  | .typeParameter _ => .typeParameter
  | .error _ => .error
termination_by id.index

/-- The name of a type without its namespace and arguments. -/
def name (t : TypeTable) (id : TypeId) : String :=
  match t.shape id with
  | .definition name _ _ _ _ _ => name
  | .constructed definition _ => if definition.index < id.index then t.name definition else ""
  | .array element _ => if element.index < id.index then t.name element else ""
  | .typeParameter name => name
  | .error name => name
termination_by id.index

/-- The special type that a type is marked as. -/
def specialOf (t : TypeTable) (id : TypeId) : Option SpecialType :=
  (t.entry id).special

def base (t : TypeTable) (id : TypeId) : Option TypeId := (t.entry id).base

/-- The interfaces named in the declaration of a type. -/
def interfaces (t : TypeTable) (id : TypeId) : List TypeId := (t.entry id).interfaces

/-- All interfaces of a type, nearest first; known after completion. -/
def allInterfaces (t : TypeTable) (id : TypeId) : List TypeId := (t.entry id).allInterfaces

def constructors (t : TypeTable) (id : TypeId) : List Signature := (t.entry id).constructors

/-- The generic definition behind a type with arguments, or else the type itself. -/
def constructedFrom (t : TypeTable) (id : TypeId) : TypeId :=
  match t.shape id with
  | .constructed definition _ => definition
  | _ => id

def typeArguments (t : TypeTable) (id : TypeId) : List TypeId :=
  match t.shape id with
  | .constructed _ arguments => arguments
  | _ => []

def typeParameters (t : TypeTable) (id : TypeId) : List TypeId :=
  match t.shape id with
  | .definition _ _ _ _ _ parameters => parameters
  | _ => []

/-- The properties of the definition behind a type. -/
def properties (t : TypeTable) (id : TypeId) : List PropertySymbol :=
  (t.entry (t.constructedFrom id)).properties

def arrayElement (t : TypeTable) (id : TypeId) : Option TypeId :=
  match t.shape id with
  | .array element _ => some element
  | _ => none

/-- Is this a struct or an enumeration? -/
def isValueType (t : TypeTable) (id : TypeId) : Bool :=
  t.kind id = .structType || t.kind id = .enumType

/-- The type under a nullable one. -/
def nullableUnderlying (t : TypeTable) (id : TypeId) : Option TypeId :=
  match t.shape id with
  | .constructed definition arguments =>
    if t.metadataName? definition = some nullableName then arguments.head? else none
  | _ => none

/-- The type that a nested type is declared in. -/
def containing (t : TypeTable) (id : TypeId) : Option TypeId :=
  match t.shape id with
  | .definition _ _ _ containing _ _ => containing
  | _ => none

end TypeTable

end SettingsLint
