import SettingsLint.Config.Layout
import SettingsLint.Number.Decimal

/-! # Quoted texts

A text is quoted in four ways. Between quotation marks a backslash escapes the
character after it; between apostrophes every character stands for itself. Three marks
instead of one open a text of several lines: a line end right after them is left out,
the other line ends count as line feeds, and up to two marks may stand in the text, in
front of the closing ones, too.
-/

namespace SettingsLint.Config.Quoted

open Layout

/-- Reads a character by its number, written with `n` digits in the base sixteen. -/
def codePoint (n : Nat) : Scan Char := do
  let digits ← Scan.exactly isHexDigit n
  let value := digitsValue 16 digits
  if value.isValidChar then return Char.ofNat value else Scan.refuse
where
  /-- Is the character a digit in the base sixteen? -/
  isHexDigit (c : Char) : Bool := c.isDigit || ('a' ≤ c && c ≤ 'f') || ('A' ≤ c && c ≤ 'F')

def escape : Scan Char := do
  Scan.word "\\"
  match ← Scan.one fun _ => true with
  | 'b' => return '\x08'
  | 'f' => return '\x0c'
  | 'n' => return '\n'
  | 'r' => return '\r'
  | 't' => return '\t'
  | '"' => return '"'
  | '\\' => return '\\'
  | 'u' => codePoint 4
  | 'U' => codePoint 8
  | _ => Scan.refuse

/-- Reads a character between quotation marks. -/
def markedChar : Scan Char :=
  Scan.one (fun c => isPlain c && c ≠ '"' && c ≠ '\\') <|> escape

/-- Reads a character between apostrophes. -/
def literalChar : Scan Char := Scan.one fun c => isPlain c && c ≠ '\x27'

/-- Reads a text of one line between two marks. -/
def line (mark : String) (char : Scan Char) : Scan String := do
  Scan.word mark
  let text ← Scan.many char
  Scan.word mark
  return String.ofList text

/-- Reads a text of several lines. `piece` reads what may stand in it other than marks
and line ends. -/
def lines (mark : String) (piece : Scan (List Char)) : Scan String := do
  Scan.word (mark ++ mark ++ mark)
  let _ ← Scan.optional newline
  let body ← Scan.many (content <|> marked (mark ++ mark) <|> marked mark)
  let close ← closing (mark ++ mark) <|> closing mark <|> closing ""
  return String.ofList (body.flatten ++ close)
where
  /-- Reads one piece or line end. -/
  content : Scan (List Char) := piece <|> (do newline; return ['\n'])
  /-- Reads marks that belong to the text because more of it follows. -/
  marked (marks : String) : Scan (List Char) := do
    Scan.word marks
    return marks.toList ++ (← content)
  /-- Reads marks that belong to the text and the closing ones after them. -/
  closing (marks : String) : Scan (List Char) := do
    Scan.word (marks ++ mark ++ mark ++ mark)
    return marks.toList

/-- Reads a backslash at the end of a line, which joins the lines: it stands for
nothing, and neither do the blanks and line ends around it. -/
def lineJoin : Scan (List Char) := do
  Scan.word "\\"
  blanks
  newline
  space
  return []

/-- Reads a text of one line between quotation marks. -/
def marked : Scan String := line "\"" markedChar

/-- Reads a text of one line between apostrophes. -/
def literal : Scan String := line "'" literalChar

def text : Scan String :=
  lines "\"" (lineJoin <|> (List.singleton <$> markedChar)) <|> marked <|>
    lines "'" (List.singleton <$> literalChar) <|> literal

end SettingsLint.Config.Quoted
