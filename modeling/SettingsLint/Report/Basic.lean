import SettingsLint.Diagnostic.Catalog
import SettingsLint.Text.Position

/-! # Reports

A report is a problem together with the file it was found in. It can be written for
people, and as one line of JSON for programs.
-/

namespace SettingsLint

/-- A problem in a file. -/
structure Report where
  /-- The path of the file, as it was given. -/
  file : String
  /-- The text of the file. -/
  text : String
  diagnostic : Diagnostic

/-- What to write at the place of a problem. -/
def Severity.label (severity : Severity) : String := severity.name ++ " here"

namespace Json

/-- A character inside a JSON string. Only quotation marks, backslashes and control
characters are escaped. -/
def escape (c : Char) : List Char :=
  match c with
  | '"' => ['\\', '"']
  | '\\' => ['\\', '\\']
  | '\x08' => ['\\', 'b']
  | '\t' => ['\\', 't']
  | '\n' => ['\\', 'n']
  | '\x0c' => ['\\', 'f']
  | '\r' => ['\\', 'r']
  | c =>
    if c < ' ' then
      ['\\', 'u', '0', '0', Nat.digitChar (c.toNat / 16), Nat.digitChar (c.toNat % 16)]
    else [c]

/-- A text as JSON. -/
def text (s : String) : String := "\"" ++ String.ofList (s.toList.flatMap escape) ++ "\""

def number (n : Nat) : String := toString n

def text? : Option String → String
  | some s => text s
  | none => "null"

/-- Fields with values in JSON, as a JSON object. -/
def object (fields : List (String × String)) : String :=
  "\x7b" ++ ",".intercalate (fields.map fun (key, value) => text key ++ ":" ++ value) ++ "\x7d"

end Json

namespace Report

def position (r : Report) : Position :=
  .ofOffset r.text.toList r.diagnostic.span.start

def helpLink? (r : Report) : Option String :=
  (Descriptor.find? r.diagnostic.id).map (·.helpLink)

/-- The report as a line of JSON. -/
def json (r : Report) : String :=
  Json.object [
    ("file", Json.text r.file),
    ("id", Json.text r.diagnostic.id),
    ("severity", Json.text r.diagnostic.severity.name),
    ("message", Json.text r.diagnostic.message),
    ("line", Json.number r.position.line),
    ("column", Json.number r.position.column),
    ("span_start", Json.number r.diagnostic.span.start),
    ("span_end", Json.number r.diagnostic.span.stop),
    ("hint", Json.text? r.diagnostic.hint),
    ("help_link", Json.text? r.helpLink?)]

/-- The report for people. -/
def plain (r : Report) : String :=
  let d := r.diagnostic
  let place := s!"{r.file}:{r.position.line}:{r.position.column}"
  let more := d.hint.toList.map ("  help: " ++ ·) ++ r.helpLink?.toList.map ("  see: " ++ ·)
  "\n".intercalate
    (s!"{d.severity.name}[{d.id}]: {d.message}" :: s!"  {place}: {d.severity.label}" :: more)

end Report

end SettingsLint
