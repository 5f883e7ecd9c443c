import SettingsLint.Config.DateTime
import SettingsLint.Number.Shortest

/-! # Values of a configuration

A configuration is a table: it maps keys to values, some of which are tables
themselves. The entries of a table are kept in the order of their keys.
-/

namespace SettingsLint.Config

/-- How a table came into a configuration, which decides how it can be extended. -/
inductive Origin where
  /-- The table is written as a value, between braces. -/
  | braces
  /-- The table has a header of its own. -/
  | header
  /-- A header names the table on the way to another one. -/
  | impliedByHeader
  /-- A dotted key names the table on the way to a value. -/
  | impliedByKey
  deriving DecidableEq, Repr

inductive Value where
  | text (text : String)
  | boolean (value : Bool)
  | integer (value : Int)
  | binary (value : Binary)
  | dateTime (value : DateTime)
  | array (elements : List Value)
  /-- Tables with equal headers, in their order. -/
  | tables (elements : List (List (String × Value)))
  | table (origin : Origin) (entries : List (String × Value))
  deriving Inhabited

/-- The entries of a table, in the order of their keys. -/
abbrev Entries := List (String × Value)

namespace Entries

/-- The entries with one put in place of the entry with the same key, or else between
the smaller and the larger keys. -/
def put (key : String) (value : Value) : Entries → Entries
  | [] => [(key, value)]
  | (k, v) :: rest =>
    if key < k then (key, value) :: (k, v) :: rest
    else if k < key then (k, v) :: put key value rest
    else (key, value) :: rest

end Entries

/-- The text of a value that has one. Arrays, dates and tables have none. -/
def Value.scalar? : Value → Option String
  | .text s => some s
  | .boolean b => some (if b then "true" else "false")
  | .integer n => some (toString n)
  | .binary x => some x.text
  | _ => none

end SettingsLint.Config
