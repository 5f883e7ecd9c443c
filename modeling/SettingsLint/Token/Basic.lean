import SettingsLint.Text.Span

/-! # Tokens

A C# source text is read as a list of tokens. A token has

- a kind, which carries the text of a name, literal or malformed piece;
- a span, the bytes it occupies;
- the trivia before it: blanks, comments and preprocessor lines. Trivia has no
  meaning for the analysis, but nothing of the source is lost.

Keywords are not told apart from names here. Only a handful of words matter, each
in its own place, so `record` or `required` stay usable as names.
-/

namespace SettingsLint

/-- What a token is, apart from where it stands. -/
inductive TokenKind where
  /-- A name or a keyword. A leading `@` is not part of the name. -/
  | identifier (name : String)
  /-- An integer literal with its suffixes. -/
  | integer (text : String)
  /-- A literal with a fraction, an exponent or a real suffix. -/
  | real (text : String)
  /-- A string literal of any form, with its quotes and marks. -/
  | string (text : String)
  /-- A character literal with its quotes. -/
  | char (text : String)
  | leftParen
  | rightParen
  | leftBracket
  | rightBracket
  | leftBrace
  | rightBrace
  | less
  | greater
  | comma
  | semicolon
  | colon
  | colonColon
  | dot
  | equals
  /-- The arrow `=>` before an expression body. -/
  | fatArrow
  | question
  /-- One of the remaining operator characters. -/
  | operator (symbol : Char)
  /-- The end of the source. -/
  | eof
  /-- A piece of text that is no token. -/
  | error (text : String)
  deriving DecidableEq, Repr, Inhabited

namespace TokenKind

def name? : TokenKind → Option String
  | identifier name => some name
  | _ => none

def isWord (kind : TokenKind) (word : String) : Bool :=
  kind.name? = some word

def isLiteral : TokenKind → Bool
  | integer _ | real _ | string _ | char _ => true
  | _ => false

def isEof : TokenKind → Bool
  | eof => true
  | _ => false

/-- How the token is shown in messages. -/
def text : TokenKind → String
  | identifier s | integer s | real s | string s | char s => s
  | leftParen => "("
  | rightParen => ")"
  | leftBracket => "["
  | rightBracket => "]"
  | leftBrace => "\x7b"
  | rightBrace => "\x7d"
  | less => "<"
  | greater => ">"
  | comma => ","
  | semicolon => ";"
  | colon => ":"
  | colonColon => "::"
  | dot => "."
  | equals => "="
  | fatArrow => "=>"
  | question => "?"
  | operator c => String.ofList [c]
  | eof => "<eof>"
  | error s => "<error: " ++ s ++ ">"

end TokenKind

/-- The kinds of text between tokens. -/
inductive TriviaKind where
  | whitespace
  /-- From `//` to the end of the line. -/
  | lineComment
  | blockComment
  /-- From exactly three slashes to the end of the line. -/
  | docComment
  /-- A preprocessor line, from its `#` on. -/
  | directive
  deriving DecidableEq, Repr, Inhabited

def TriviaKind.isComment : TriviaKind → Bool
  | lineComment | blockComment | docComment => true
  | whitespace | directive => false

/-- A piece of text between tokens. -/
structure Trivia where
  kind : TriviaKind
  text : String
  deriving DecidableEq, Repr, Inhabited

structure Token where
  kind : TokenKind
  /-- The bytes of the token itself, without its trivia. -/
  span : Span
  /-- The trivia between the previous token and this one. -/
  trivia : List Trivia := []
  deriving DecidableEq, Repr, Inhabited

end SettingsLint
