import SettingsLint.Text.Alphabetic
import SettingsLint.Text.Blank
import SettingsLint.Text.Numeric
import SettingsLint.Token.Basic

/-! # Lexemes

How long the piece of text at the start of a list of characters is, and what kind
of token or trivia it makes. Every function here measures: it returns a number of
characters and leaves the cutting to its caller, so that no character is ever
dropped or read twice.

A piece that cannot be a token is `malformed`, never a failure. So there is a
lexeme at the start of every text that is not empty.
-/

namespace SettingsLint

/-- What kind of token a piece of text makes. -/
inductive LexemeClass where
  | name
  /-- A name written with a leading `@`, which is not part of the name. -/
  | verbatimName
  | integer
  | real
  | string
  | char
  /-- Punctuation, whose text is fixed by its kind. -/
  | mark (kind : TokenKind)
  | malformed
  deriving DecidableEq, Repr

/-- The kind of the token made of `text`. -/
def LexemeClass.kind (cls : LexemeClass) (text : List Char) : TokenKind :=
  match cls with
  | name => .identifier (String.ofList text)
  | verbatimName => .identifier (String.ofList text.tail)
  | integer => .integer (String.ofList text)
  | real => .real (String.ofList text)
  | string => .string (String.ofList text)
  | char => .char (String.ofList text)
  | mark kind => kind
  | malformed => .error (String.ofList text)

/-- The class of the first token of a text and its number of characters. -/
structure Lexeme where
  cls : LexemeClass
  length : Nat
  deriving DecidableEq, Repr

namespace Lexeme

/-- The length of the longest leading run of characters that satisfy `p`. -/
def runLength (p : Char → Bool) (cs : List Char) : Nat :=
  (cs.takeWhile p).length

/-! ### Names -/

/-- Can a name start with this character? -/
def isNameStart (c : Char) : Bool := c = '_' || Text.isAlphabetic c

/-- Can a name go on with this character? -/
def isNamePart (c : Char) : Bool := c = '_' || Text.isAlphabetic c || Text.isNumeric c

/-! ### Numbers -/

/-- A decimal digit or the digit separator. -/
def isDigitPart (c : Char) : Bool := c.isDigit || c = '_'

/-- A hexadecimal digit or the digit separator. -/
def isHexDigitPart (c : Char) : Bool :=
  c.isDigit || ('a' ≤ c && c ≤ 'f') || ('A' ≤ c && c ≤ 'F') || c = '_'

/-- A suffix letter that makes a number real. -/
def isRealSuffix (c : Char) : Bool :=
  c = 'f' || c = 'F' || c = 'd' || c = 'D' || c = 'm' || c = 'M'

/-- Any letter that may follow a number as a suffix. -/
def isNumberSuffix (c : Char) : Bool :=
  c = 'u' || c = 'U' || c = 'l' || c = 'L' || isRealSuffix c

/-- The length of a leading fraction, a point with a digit after it; 0 without one. -/
def fractionLength : List Char → Nat
  | '.' :: d :: cs => if d.isDigit then 1 + runLength isDigitPart (d :: cs) else 0
  | _ => 0

/-- The length of a leading exponent, which needs a digit; 0 without one. -/
def exponentLength : List Char → Nat
  | e :: d :: cs =>
    if e = 'e' || e = 'E' then
      if d.isDigit then 1 + runLength Char.isDigit (d :: cs)
      else if (d = '+' || d = '-') && 0 < runLength Char.isDigit cs then
        2 + runLength Char.isDigit cs
      else 0
    else 0
  | _ => 0

/-- Does the text start with `0x` or `0b`, in either case? -/
def startsRadix : List Char → Bool
  | '0' :: x :: _ => x = 'x' || x = 'X' || x = 'b' || x = 'B'
  | _ => false

/-- The length of a number without its suffix, and whether it has a fraction or an
exponent. -/
def numberBody (cs : List Char) : Nat × Bool :=
  if startsRadix cs then (2 + runLength isHexDigitPart (cs.drop 2), false)
  else
    let whole := runLength isDigitPart cs
    let fraction := fractionLength (cs.drop whole)
    let exponent := exponentLength (cs.drop (whole + fraction))
    (whole + fraction + exponent, 0 < fraction || 0 < exponent)

/-- A number: its digits and any run of suffix letters. -/
def number (cs : List Char) : Lexeme :=
  let (body, hasPoint) := numberBody cs
  let rest := cs.drop body
  ⟨if hasPoint || rest.head?.any isRealSuffix then .real else .integer,
    body + runLength isNumberSuffix rest⟩

/-! ### Strings and characters -/

/-- How the inside of a string is read. -/
structure StringStyle where
  /-- Backslashes are ordinary, line breaks are allowed, quotes are doubled. -/
  verbatim : Bool
  /-- Braces enclose holes, in which quotes do not end the string. -/
  interpolated : Bool
  deriving DecidableEq, Repr

/-- The number of characters up to the end of a literal, and whether it is closed.
An unclosed literal goes up to the point where the fault shows. -/
structure Extent where
  length : Nat
  closed : Bool
  deriving DecidableEq, Repr

/-- The extent that starts `n` characters earlier. -/
def Extent.after (n : Nat) (e : Extent) : Extent := { e with length := n + e.length }

/-- The lexeme of a literal with that extent. -/
def Extent.lexeme (e : Extent) (cls : LexemeClass) : Lexeme :=
  ⟨if e.closed then cls else .malformed, e.length⟩

/-- The rest of a string after its opening quote; `depth` counts the open braces of
the hole the text stands in. -/
def stringTail (style : StringStyle) (depth : Nat) : List Char → Extent
  | [] => ⟨0, false⟩
  | c :: cs =>
    if c = '\n' && !style.verbatim && depth = 0 then ⟨1, false⟩
    else if c = '\\' && !style.verbatim then
      match cs with
      | [] => ⟨1, false⟩
      | _ :: cs => (stringTail style depth cs).after 2
    else if c = '\x7b' && style.interpolated then
      match cs with
      | [] => ⟨1, false⟩
      | d :: ds =>
        if depth = 0 && d = '\x7b' then (stringTail style depth ds).after 2
        else (stringTail style (depth + 1) (d :: ds)).after 1
    else if c = '\x7d' && style.interpolated && 0 < depth then
      (stringTail style (depth - 1) cs).after 1
    else if c = '"' && depth = 0 then
      match cs with
      | [] => ⟨1, true⟩
      | d :: ds =>
        if style.verbatim && d = '"' then (stringTail style depth ds).after 2 else ⟨1, true⟩
    else (stringTail style depth cs).after 1

/-- The rest of a raw string after its opening quotes: it ends with as many quotes
in a row. `seen` counts the quotes just before the text. -/
def rawStringTail (quotes seen : Nat) : List Char → Extent
  | [] => ⟨0, false⟩
  | c :: cs =>
    if c = '"' then
      if seen + 1 = quotes then ⟨1, true⟩ else (rawStringTail quotes (seen + 1) cs).after 1
    else (rawStringTail quotes 0 cs).after 1

/-- A string from its opening quote on. Three or more quotes open a raw string. -/
def quoted (style : StringStyle) (cs : List Char) : Extent :=
  let quotes := runLength (· = '"') cs
  if 3 ≤ quotes then (rawStringTail quotes 0 (cs.drop quotes)).after quotes
  else (stringTail style 0 (cs.drop 1)).after 1

/-- Is this one of the marks written before the opening quote of a string? -/
def isStringMark (c : Char) : Bool := c = '@' || c = '$'

/-- A string with marks before its opening quote. Marks without a string are
malformed. -/
def markedString (cs : List Char) : Lexeme :=
  let marks := cs.takeWhile isStringMark
  let rest := cs.drop marks.length
  if rest.head? = some '"' then
    ((quoted ⟨marks.contains '@', marks.contains '$'⟩ rest).after marks.length).lexeme .string
  else ⟨.malformed, marks.length⟩

/-- The rest of a character literal after its opening quote. -/
def charTail : List Char → Extent
  | [] => ⟨0, false⟩
  | c :: cs =>
    if c = '\n' then ⟨1, false⟩
    else if c = '\\' then
      match cs with
      | [] => ⟨1, false⟩
      | _ :: cs => (charTail cs).after 2
    else if c = '\x27' then ⟨1, true⟩
    else (charTail cs).after 1

/-! ### Punctuation -/

/-- Punctuation that starts with `c`, with `cs` after it. -/
def punctuation (c : Char) (cs : List Char) : Lexeme :=
  let one (kind : TokenKind) : Lexeme := ⟨.mark kind, 1⟩
  match c with
  | '(' => one .leftParen
  | ')' => one .rightParen
  | '[' => one .leftBracket
  | ']' => one .rightBracket
  | '\x7b' => one .leftBrace
  | '\x7d' => one .rightBrace
  | '<' => one .less
  | '>' => one .greater
  | ',' => one .comma
  | ';' => one .semicolon
  | '.' => one .dot
  | '?' => one .question
  | ':' => if cs.head? = some ':' then ⟨.mark .colonColon, 2⟩ else one .colon
  | '=' => if cs.head? = some '>' then ⟨.mark .fatArrow, 2⟩ else one .equals
  | c =>
    if ['+', '-', '*', '/', '%', '&', '|', '^', '!', '~', '#'].contains c then
      one (.operator c)
    else ⟨.malformed, 1⟩

/-! ### The lexeme at a place -/

/-- The first token of the text `c :: cs`, which does not start with trivia. -/
def ofText (c : Char) (cs : List Char) : Lexeme :=
  if isNameStart c then ⟨.name, 1 + runLength isNamePart cs⟩
  else if c = '@' && cs.head?.any isNameStart then ⟨.verbatimName, 1 + runLength isNamePart cs⟩
  else if isStringMark c then markedString (c :: cs)
  else if c = '"' then (quoted ⟨false, false⟩ (c :: cs)).lexeme .string
  else if c = '\x27' then ((charTail cs).after 1).lexeme .char
  else if c.isDigit || (c = '.' && cs.head?.any Char.isDigit) then number (c :: cs)
  else punctuation c cs

/-- The rest of a block comment after its opening mark: up to its closing mark, or
to the end of the text without one. -/
def blockCommentTail : List Char → Nat
  | [] => 0
  | c :: cs =>
    if c = '*' && cs.head? = some '/' then 2 else 1 + blockCommentTail cs

def isDocComment (text : List Char) : Bool :=
  ['/', '/', '/'].isPrefixOf text && !(['/', '/', '/', '/'].isPrefixOf text)

/-- The length of a line from a character on, with `cs` after it. The line end is left
out. -/
def lineLength (cs : List Char) : Nat := 1 + runLength (· ≠ '\n') cs

/-- The trivia at the start of the text `c :: cs`, if there is some. A preprocessor
line counts only when nothing but spaces and tabs precede it on its line. -/
def triviaOfText (lineStart : Bool) (c : Char) (cs : List Char) : Option (TriviaKind × Nat) :=
  if Text.isBlank c then some (.whitespace, 1 + runLength Text.isBlank cs)
  else if c = '/' && cs.head? = some '/' then
    some (if isDocComment (c :: cs) then .docComment else .lineComment, lineLength cs)
  else if c = '/' && cs.head? = some '*' then
    some (.blockComment, 2 + blockCommentTail (cs.drop 1))
  else if c = '#' && lineStart then some (.directive, lineLength cs)
  else none

end Lexeme

end SettingsLint
