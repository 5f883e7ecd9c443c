import SettingsLint.Config.Value

/-! # Filling tables

A table is filled by assignments to dotted keys and by headers. Both lead along a path
of keys through tables, and the tables that are missing on the path are made. A path
of a dotted key does not enter a table that has a header of its own or stands between
braces, and a table that is made for a dotted key can get no header afterwards.
-/

namespace SettingsLint.Config

/-- An assignment of a value to a key in the table that a path leads to. -/
structure Assignment where
  path : List String
  key : String
  value : Value

/-- Can a path enter a table of the origin? `implied` is the origin of the tables that
the path makes. -/
def Origin.isOpenTo (origin implied : Origin) : Bool :=
  match origin with
  | .braces => false
  | .header => implied ≠ .impliedByKey
  | .impliedByHeader | .impliedByKey => true

namespace Entries

/-- Changes the entries of the table that a path leads to. `change` is given the origin
of that table, too. A path through tables with equal headers leads through the last
one. -/
def descend (implied : Origin) (change : Origin → Entries → Option Entries) :
    List String → Origin → Entries → Option Entries
  | [], origin, entries => change origin entries
  | key :: path, _, entries =>
    match entries.lookup key with
    | none => do
      let inner ← descend implied change path implied []
      return entries.put key (.table implied inner)
    | some (.table origin inner) =>
      if origin.isOpenTo implied then do
        let inner ← descend implied change path origin inner
        return entries.put key (.table origin inner)
      else none
    | some (.tables elements) => do
      let last ← descend implied change path .header (elements.getLastD [])
      return entries.put key (.tables (elements.dropLast ++ [last]))
    | some _ => none

/-- The entries with an assignment done. A dotted key has to lead to a table that
dotted keys have made, and no key is assigned twice. -/
def assign (entries : Entries) (a : Assignment) : Option Entries :=
  descend .impliedByKey (fun origin inner =>
    if (origin = .impliedByKey) = a.path.isEmpty then none
    else if (inner.lookup a.key).isSome then none
    else some (inner.put a.key a.value)) a.path .header entries

/-- The entries with assignments done in order. -/
def assignAll (entries : Entries) (assignments : List Assignment) : Option Entries :=
  assignments.foldlM assign entries

/-- The entries with a table of the given assignments under a header. A table that was
only implied by other headers is extended, and no table gets two headers. -/
def addTable (entries : Entries) (path : List String) (key : String)
    (assignments : List Assignment) : Option Entries :=
  descend .impliedByHeader (fun _ inner =>
    match inner.lookup key with
    | none => do return inner.put key (.table .header (← assignAll [] assignments))
    | some (.table .impliedByHeader old) => do
      return inner.put key (.table .header (← assignAll old assignments))
    | some _ => none) path .header entries

/-- The entries with one more table of the given assignments under a header that
several tables can have. -/
def appendTable (entries : Entries) (path : List String) (key : String)
    (assignments : List Assignment) : Option Entries := do
  let added ← assignAll [] assignments
  descend .impliedByHeader (fun _ inner =>
    match inner.lookup key with
    | none => some (inner.put key (.tables [added]))
    | some (.tables elements) => some (inner.put key (.tables (elements ++ [added])))
    | some _ => none) path .header entries

end Entries

end SettingsLint.Config
