import SettingsLint.Config.Scan

/-! # Blanks, comments and line ends

In a configuration only spaces and tabs are blank. A line ends with a line feed, which
a carriage return may precede; a carriage return alone is no line end. A comment goes
from `#` to the end of its line and holds no control characters other than tabs.
-/

namespace SettingsLint.Config

/-- May the character stand in a text as it is? Control characters may not, apart from
the tab. -/
def isPlain (c : Char) : Bool :=
  c = '\t' || (' ' ≤ c && c ≤ '~') || '\u0080' ≤ c

namespace Layout

def isBlank (c : Char) : Bool := c = ' ' || c = '\t'

def blanks : Scan Unit := do
  let _ ← Scan.run isBlank

/-- Reads an item with the blanks around it. -/
def padded (item : Scan α) : Scan α := do
  blanks
  let a ← item
  blanks
  return a

def newline : Scan Unit := Scan.word "\n" <|> Scan.word "\r\n"

/-- Reads the end of a line, which the end of the text is, too. -/
def lineEnd : Scan Unit := newline <|> Scan.finish

def comment : Scan Unit := do
  Scan.word "#"
  let _ ← Scan.run isPlain

/-- Reads what may follow on a line, and the end of the line. -/
def restOfLine : Scan Unit := do
  blanks
  let _ ← Scan.optional comment
  lineEnd

/-- Reads blanks and line ends. -/
def space : Scan Unit := do
  let _ ← Scan.many (newline <|> discard (Scan.one isBlank))

/-- Reads blanks, line ends, and comments with the ends of their lines. -/
def gap : Scan Unit := do
  let _ ← Scan.many (newline <|> discard (Scan.one isBlank) <|> (do comment; newline))

/-- Reads lines that hold nothing but blanks and comments, and the blanks of the line
after them. -/
def emptyLines : Scan Unit := do
  blanks
  let _ ← Scan.many (do (newline <|> (do comment; lineEnd)); blanks)

end Layout

end SettingsLint.Config
