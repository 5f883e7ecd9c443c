import SettingsLint.Config.Numeral
import SettingsLint.Config.Quoted
import SettingsLint.Config.Table

/-! # Configuration documents

A configuration is written in TOML: lines that assign values to keys, under headers
that name the table of the lines after them. Values between brackets or braces can be
nested, but not without limit.
-/

namespace SettingsLint.Config

open Layout

/-- The number of parts that a dotted key has to stay below. -/
def keyLimit : Nat := 80

/-- The deepest nesting of values between brackets and braces. -/
def maxValueNesting : Nat := 79

/-- Reads a part of a dotted key: quoted, or letters, digits, dashes and underscores. -/
def keyPart : Scan String :=
  Quoted.marked <|> Quoted.literal <|>
    String.ofList <$> (Scan.run isBare).suchThat fun part => !part.isEmpty
where
  /-- May the character stand in a key that is not quoted? -/
  isBare (c : Char) : Bool := c.isAlphanum || c = '-' || c = '_'

/-- Reads a dotted key: the path to a table and the key in it. -/
def dottedKey : Scan (List String × String) := do
  let parts ← (Scan.separated "." (padded keyPart)).suchThat (·.length < keyLimit)
  match parts.getLast? with
  | none => Scan.refuse
  | some key => return (parts.dropLast, key)

/-- Reads a key, the equals sign and a value. -/
def assignment (value : Scan Value) : Scan Assignment := do
  let (path, key) ← dottedKey
  Scan.word "="
  blanks
  return ⟨path, key, ← value⟩

def array (value : Scan Value) : Scan Value := do
  Scan.word "["
  let elements ← Scan.optional do
    let elements ← Scan.separated "," (do gap; let v ← value; gap; return v)
    let _ ← Scan.optional (Scan.word ",")
    return elements
  gap
  Scan.word "]"
  return .array (elements.getD [])

/-- Reads a table between braces. It stands on one line, and no comma is left over. -/
def braces (value : Scan Value) : Scan Value := do
  Scan.word "\x7b"
  let assignments ← Scan.optional
    (Scan.separated "," (do let a ← assignment value; blanks; return a))
  blanks
  Scan.word "\x7d"
  match Entries.assignAll [] (assignments.getD []) with
  | some entries => return .table .braces entries
  | none => Scan.refuse

/-- Reads a value that is not put together from others. -/
def simpleValue : Scan Value :=
  .text <$> Quoted.text <|>
    .dateTime <$> DateTime.read <|>
    .binary <$> Numeral.binary <|>
    .integer <$> Numeral.integer <|>
    (do Scan.word "true"; return .boolean true) <|>
    (do Scan.word "false"; return .boolean false)

/-- Reads a value in which values can be nested to the given number of levels. -/
def value : Nat → Scan Value
  | 0 => simpleValue
  | levels + 1 => array (value levels) <|> braces (value levels) <|> simpleValue

def assignments : Scan (List Assignment) := Scan.many do
  let a ← assignment (value maxValueNesting)
  restOfLine
  emptyLines
  return a

/-- A header with the assignments under it. -/
structure Section where
  /-- Can several tables have this header? -/
  repeats : Bool
  path : List String
  key : String
  assignments : List Assignment

def header (left right : String) : Scan (List String × String) := do
  Scan.word left
  let name ← dottedKey
  Scan.word right
  restOfLine
  return name

def readSection : Scan Section := do
  let (repeats, path, key) ←
    (do return (true, ← header "[[" "]]")) <|> (do return (false, ← header "[" "]"))
  emptyLines
  return ⟨repeats, path, key, ← assignments⟩

/-- The entries with the tables of a section. -/
def Section.addTo (entries : Entries) (s : Section) : Option Entries :=
  if s.repeats then entries.appendTable s.path s.key s.assignments
  else entries.addTable s.path s.key s.assignments

/-- Reads a whole configuration. A byte order mark may stand in front. -/
def document : Scan Entries := do
  let _ ← Scan.optional (Scan.word "\uFEFF")
  emptyLines
  let first ← assignments
  let sections ← Scan.many readSection
  Scan.finish
  match Entries.assignAll [] first >>= sections.foldlM Section.addTo with
  | some entries => return entries
  | none => Scan.refuse

/-- The entries of a configuration, if the text is one. -/
def parse? (text : String) : Option Entries := (document text.toList).map (·.1)

end SettingsLint.Config
