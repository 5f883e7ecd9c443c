import SettingsLint.Diagnostic.Basic
import SettingsLint.Text.LowerCase

/-! # The catalog of rule diagnostics

Every rule reports through a descriptor: a stable identifier with a title, a default
severity and the format of the message. A format has numbered places in braces that
are filled with the arguments of the diagnostic.
-/

namespace SettingsLint

/-! ### Message formats -/

namespace Format

/-- The number that a text of digits stands for, perhaps after a plus sign, if it fits
into a machine word. -/
def index? (text : List Char) : Option Nat :=
  let digits := if text.head? = some '+' then text.drop 1 else text
  let number := Nat.ofDigitChars 10 digits 0
  if !digits.isEmpty && digits.all Char.isDigit && number < UInt64.size then some number else none

/-- The argument for the place whose opening brace precedes the text, and the number of
characters up to and with its closing brace. -/
def place? (arguments : List String) (text : List Char) : Option (String × Nat) := do
  let body := text.takeWhile (· ≠ '\x7d')
  if body.length < text.length then
    let argument ← arguments[← index? body]?
    return (argument, body.length + 1)
  else none

/-- The format with every place filled that has an argument. Everything else stays as it
is, and arguments are not looked into. -/
def fill (arguments : List String) : List Char → List Char
  | [] => []
  | c :: rest =>
    match if c = '\x7b' then place? arguments rest else none with
    | some (argument, n) => argument.toList ++ fill arguments (rest.drop n)
    | none => c :: fill arguments rest
termination_by text => text.length
decreasing_by all_goals simp only [List.length_drop, List.length_cons]; omega

end Format

/-! ### Descriptors -/

/-- What is common to all diagnostics of one kind. -/
structure Descriptor where
  id : String
  title : String
  /-- The message with numbered places in braces. -/
  format : String
  category : String
  severity : Severity
  deriving DecidableEq, Repr

namespace Descriptor

def helpLink (d : Descriptor) : String :=
  "https://spectreconsole.net/analyzer/rules/" ++ Text.lowerCase d.id

def message (d : Descriptor) (arguments : List String) : String :=
  String.ofList (Format.fill arguments d.format.toList)

/-- A diagnostic of this kind. -/
def diagnostic (d : Descriptor) (span : Span) (arguments : List String) : Diagnostic where
  id := d.id
  severity := d.severity
  message := d.message arguments
  span := span
  arguments := arguments

/-- A binding attribute has to name the property's type and does not. -/
def missingType : Descriptor where
  id := "Spectre1050"
  title := "Types must be explicitly defined when using non-intrinsic properties while " ++
    "publishing in AOT."
  format := "Types must be explicitly defined on CommandArgument or CommandOption for " ++
    "'\x7b0\x7d' when using non-intrinsic properties while publishing in AOT."
  category := "Usage"
  severity := .warning

/-- A binding attribute names another type than the property's. -/
def mismatchedType : Descriptor where
  id := "Spectre1051"
  title := "Type must match the property type."
  format := "Type must match the property type. \x7b0\x7d expected \x7b1\x7d, found \x7b2\x7d"
  category := "Usage"
  severity := .warning

/-- The property's type cannot be bound at all. -/
def invalidType : Descriptor where
  id := "S1052"
  title := "Invalid property type for CommandArgument or CommandOption"
  format := "The property '\x7b0\x7d' of type '\x7b1\x7d' is not a valid option type for " ++
    "Spectre.Console commands. \x7b2\x7d"
  category := "Usage"
  severity := .error

/-- The descriptors of all rules. -/
def catalog : List Descriptor := [missingType, mismatchedType, invalidType]

def find? (id : String) : Option Descriptor := catalog.find? (·.id = id)

end Descriptor

end SettingsLint
