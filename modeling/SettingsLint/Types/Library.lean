import SettingsLint.Types.Completion

/-! # The library types

The types that a source can use without declaring them: the special types, common
values of `System`, collections, attributes for component models, and the settings
base and binding attributes of the command-line framework. They are in every table
before the types of the source.
-/

namespace SettingsLint

/-- A type in the signature of a library type, by its simple name. -/
inductive LibraryTypeExpr where
  | named (name : String) (arguments : List LibraryTypeExpr)
  | array (element : LibraryTypeExpr)

instance : Coe String LibraryTypeExpr := ⟨fun name => .named name []⟩

structure LibraryType where
  namespaceName : String
  name : String
  kind : TypeKind := .classType
  typeParameters : List String := []
  special : Option SpecialType := none
  base : Option LibraryTypeExpr := some "Object"
  interfaces : List LibraryTypeExpr := []
  /-- The parameters of each constructor, by name and type. -/
  constructors : List (List (String × LibraryTypeExpr)) := [[]]

namespace LibraryType

/-! ### Shorthands -/

/-- A generic type with arguments. -/
def of (name : String) (arguments : List LibraryTypeExpr) : LibraryTypeExpr :=
  .named name arguments

/-- A class that derives from `Object` and has a constructor without parameters. -/
def cls (namespaceName name : String) : LibraryType := { namespaceName, name }

/-- A struct that has a constructor without parameters. -/
def struct (namespaceName name : String) : LibraryType :=
  { namespaceName, name, kind := .structType, base := some "ValueType" }

def interface (namespaceName name : String) : LibraryType :=
  { namespaceName, name, kind := .interfaceType, base := none, constructors := [] }

/-- A struct of the namespace `System` that is a special type. -/
def specialStruct (name : String) (special : SpecialType) : LibraryType :=
  { struct "System" name with special := some special }

def generic (type : LibraryType) (typeParameters : List String) : LibraryType :=
  { type with typeParameters }

def basedOn (type : LibraryType) (base : LibraryTypeExpr) : LibraryType :=
  { type with base := some base }

def implementing (type : LibraryType) (interfaces : List LibraryTypeExpr) : LibraryType :=
  { type with interfaces }

/-- The type with these constructors only. -/
def built (type : LibraryType) (constructors : List (List (String × LibraryTypeExpr))) :
    LibraryType :=
  { type with constructors }

/-! ### The types -/

def systemTypes : List LibraryType := [
  { cls "System" "Object" with special := some .object, base := none },
  (cls "System" "ValueType").built [],
  ((cls "System" "Enum").basedOn "ValueType").built [],
  ((cls "System" "Array").implementing ["IList", "ICollection", "IEnumerable"]).built [],
  (cls "System" "Attribute").built [],
  (cls "System" "Type").built [],
  (struct "System" "Void").built [],
  interface "System" "IComparable",
  (interface "System" "IEquatable").generic ["T"],
  interface "System" "IFormattable",
  { ((cls "System" "String").implementing
      [of "IEnumerable" ["char"], "IComparable", of "IEquatable" ["string"]]).built
      [[("value", .array "char")]] with special := some .string },
  (specialStruct "Boolean" .boolean).implementing ["IComparable", of "IEquatable" ["bool"]],
  (specialStruct "Char" .char).implementing ["IComparable", of "IEquatable" ["char"]],
  (specialStruct "SByte" .sbyte).implementing ["IComparable", "IFormattable"],
  (specialStruct "Byte" .byte).implementing ["IComparable", "IFormattable"],
  (specialStruct "Int16" .int16).implementing ["IComparable", "IFormattable"],
  (specialStruct "UInt16" .uint16).implementing ["IComparable", "IFormattable"],
  (specialStruct "Int32" .int32).implementing
    ["IComparable", "IFormattable", of "IEquatable" ["int"]],
  (specialStruct "UInt32" .uint32).implementing ["IComparable", "IFormattable"],
  (specialStruct "Int64" .int64).implementing ["IComparable", "IFormattable"],
  (specialStruct "UInt64" .uint64).implementing ["IComparable", "IFormattable"],
  (specialStruct "Single" .single).implementing ["IComparable", "IFormattable"],
  (specialStruct "Double" .double).implementing ["IComparable", "IFormattable"],
  ((specialStruct "Decimal" .decimal).implementing ["IComparable", "IFormattable"]).built
    [[], [("value", "int")], [("value", "double")]],
  specialStruct "IntPtr" .intPtr,
  specialStruct "UIntPtr" .uintPtr,
  ((specialStruct "DateTime" .dateTime).implementing ["IComparable", "IFormattable"]).built
    [[], [("ticks", "long")]],
  (struct "System" "DateTimeOffset").built [[], [("dateTime", "DateTime")]],
  (struct "System" "TimeSpan").built [[], [("ticks", "long")]],
  (struct "System" "Guid").built [[], [("g", "string")], [("b", .array "byte")]],
  ((struct "System" "Nullable").generic ["T"]).built [[], [("value", "T")]],
  (cls "System" "Uri").built [[("uriString", "string")]],
  (cls "System" "Version").built [[], [("version", "string")]]]

def fileTypes : List LibraryType := [
  (cls "System.IO" "FileSystemInfo").built [],
  ((cls "System.IO" "FileInfo").basedOn "FileSystemInfo").built [[("fileName", "string")]],
  ((cls "System.IO" "DirectoryInfo").basedOn "FileSystemInfo").built [[("path", "string")]],
  (cls "System.IO" "Stream").built [],
  ((cls "System.IO" "MemoryStream").basedOn "Stream").built
    [[], [("capacity", "int")], [("buffer", .array "byte")]]]

/-- The types of the namespaces for collections and queries. -/
def collectionTypes : List LibraryType :=
  let keyed : List String := ["TKey", "TValue"]
  let pair := of "KeyValuePair" ["TKey", "TValue"]
  let dictionary := of "IDictionary" ["TKey", "TValue"]
  let dictionaries : List LibraryTypeExpr :=
    [dictionary, of "IReadOnlyDictionary" ["TKey", "TValue"], "IDictionary"]
  let generics := "System.Collections.Generic"
  let linq := "System.Linq"
  [interface "System.Collections" "IEnumerable",
    (interface "System.Collections" "ICollection").implementing ["IEnumerable"],
    (interface "System.Collections" "IList").implementing ["ICollection"],
    (interface "System.Collections" "IDictionary").implementing ["ICollection"],
    ((interface generics "IEnumerable").generic ["T"]).implementing ["IEnumerable"],
    ((interface generics "ICollection").generic ["T"]).implementing [of "IEnumerable" ["T"]],
    ((interface generics "IList").generic ["T"]).implementing [of "ICollection" ["T"]],
    ((interface generics "IReadOnlyCollection").generic ["T"]).implementing
      [of "IEnumerable" ["T"]],
    ((interface generics "IReadOnlyList").generic ["T"]).implementing
      [of "IReadOnlyCollection" ["T"]],
    ((interface generics "ISet").generic ["T"]).implementing [of "ICollection" ["T"]],
    ((struct generics "KeyValuePair").generic keyed).built
      [[("key", "TKey"), ("value", "TValue")]],
    ((interface generics "IDictionary").generic keyed).implementing [of "ICollection" [pair]],
    ((interface generics "IReadOnlyDictionary").generic keyed).implementing
      [of "IReadOnlyCollection" [pair]],
    (((cls generics "List").generic ["T"]).implementing
      [of "IList" ["T"], of "IReadOnlyList" ["T"], "IList"]).built
      [[], [("capacity", "int")], [("collection", of "IEnumerable" ["T"])]],
    (((cls generics "HashSet").generic ["T"]).implementing
      [of "ISet" ["T"], of "IReadOnlyCollection" ["T"]]).built
      [[], [("collection", of "IEnumerable" ["T"])]],
    (((cls generics "Dictionary").generic keyed).implementing dictionaries).built
      [[], [("capacity", "int")], [("dictionary", dictionary)]],
    (((cls generics "SortedDictionary").generic keyed).implementing dictionaries).built
      [[], [("dictionary", dictionary)]],
    ((interface linq "IGrouping").generic ["TKey", "TElement"]).implementing
      [of "IEnumerable" ["TElement"]],
    ((interface linq "ILookup").generic ["TKey", "TElement"]).implementing
      [of "IEnumerable" [of "IGrouping" ["TKey", "TElement"]]],
    (((cls linq "Lookup").generic ["TKey", "TElement"]).implementing
      [of "ILookup" ["TKey", "TElement"]]).built []]

def componentTypes : List LibraryType := [
  cls "System.ComponentModel" "TypeConverter",
  ((cls "System.ComponentModel" "TypeConverterAttribute").basedOn "Attribute").built
    [[], [("type", "Type")], [("typeName", "string")]],
  ((cls "System.ComponentModel" "DescriptionAttribute").basedOn "Attribute").built
    [[], [("description", "string")]],
  ((cls "System.ComponentModel" "DefaultValueAttribute").basedOn "Attribute").built
    [[("value", "object")]]]

/-- The types of the command-line framework. -/
def commandTypes : List LibraryType :=
  let cli := "Spectre.Console.Cli"
  [cls cli "CommandSettings",
    (cls cli "CommandContext").built [],
    (cls cli "ValidationResult").built [],
    interface cli "ICommand",
    interface cli "IRemainingArguments",
    interface cli "IFlagValue",
    ((cls cli "FlagValue").generic ["T"]).implementing ["IFlagValue"],
    ((cls cli "Command").generic ["TSettings"]).implementing ["ICommand"],
    ((cls cli "AsyncCommand").generic ["TSettings"]).implementing ["ICommand"],
    cls cli "CommandApp",
    ((cls cli "CommandOptionAttribute").basedOn "Attribute").built
      [[("template", "string")], [("template", "string"), ("optionType", "Type")]],
    ((cls cli "CommandArgumentAttribute").basedOn "Attribute").built
      [[("position", "int"), ("template", "string")],
        [("position", "int"), ("template", "string"), ("argumentType", "Type")]]]

/-- All library types, in the order of declaration. -/
def all : List LibraryType :=
  systemTypes ++ fileTypes ++ collectionTypes ++ componentTypes ++ commandTypes

/-! ### Putting them into a table -/

/-- The declared library types by simple name and number of type parameters. -/
abbrev Directory := List ((String × Nat) × TypeId)

/-- The type that a simple name with arguments stands for in the signature of `owner`:
a keyword, a type parameter of the owner, or a library type. -/
def resolveName (directory : Directory) (owner : TypeId) (name : String)
    (arguments : List TypeId) (t : TypeTable) : TypeId × TypeTable :=
  let keyword := (SpecialType.ofKeyword? name).bind t.special?
  let parameter := (t.typeParameters owner).find? (t.name · = name)
  match if arguments.isEmpty then keyword <|> parameter else none with
  | some id => (id, t)
  | none =>
    match directory.lookup (name, arguments.length) with
    | some definition => t.construct definition arguments
    | none => t.error name

mutual

/-- The type that an expression stands for in the signature of `owner`. -/
def resolve (directory : Directory) (owner : TypeId) :
    LibraryTypeExpr → TypeTable → TypeId × TypeTable
  | .named name arguments, t =>
    let (ids, t) := resolveAll directory owner arguments t
    resolveName directory owner name ids t
  | .array element, t =>
    let (id, t) := resolve directory owner element t
    t.array id 1

/-- The types that expressions stand for, from left to right. -/
def resolveAll (directory : Directory) (owner : TypeId) :
    List LibraryTypeExpr → TypeTable → List TypeId × TypeTable
  | [], t => ([], t)
  | e :: es, t =>
    let (id, t) := resolve directory owner e t
    let (ids, t) := resolveAll directory owner es t
    (id :: ids, t)

end

/-- Declares the type without its members. -/
def declareIn (type : LibraryType) (t : TypeTable) : TypeId × TypeTable :=
  let (id, t) := t.declare type.namespaceName type.name type.kind type.typeParameters none
  (id, match type.special with
    | some special => t.setSpecial id special
    | none => t)

/-- Declares the types without their members. -/
def declareAll : List LibraryType → TypeTable → Directory × TypeTable
  | [], t => ([], t)
  | type :: types, t =>
    let (id, t) := type.declareIn t
    let (directory, t) := declareAll types t
    (((type.name, type.typeParameters.length), id) :: directory, t)

/-- Adds base, interfaces and constructors of a declared type. -/
def addMembers (directory : Directory) (type : LibraryType) (id : TypeId) :
    StateM TypeTable Unit := do
  let base ← type.base.mapM (fun e => modifyGet (resolve directory id e))
  let interfaces ← type.interfaces.mapM (fun e => modifyGet (resolve directory id e))
  let constructors ← type.constructors.mapM (·.mapM fun (name, e) => do
    return ({ name, type := ← modifyGet (resolve directory id e) } : ParameterSymbol))
  modify fun t =>
    let t := base.elim t (t.setBase id ·)
    let t := interfaces.foldl (·.addInterface id ·) t
    constructors.foldl (·.addConstructor id ·) t

/-- Adds every library type to a table, without completing it. -/
def install (t : TypeTable) : TypeTable :=
  let (directory, t) := declareAll all t
  (all.zip directory).foldl
    (fun t (type, (_, id)) => (addMembers directory type id t).2) t

end LibraryType

/-- The completed table of the library types. -/
def TypeTable.withLibrary : TypeTable := (LibraryType.install .empty).complete

end SettingsLint
