import SettingsLint.Diagnostic.Basic

/-! # Syntax errors

What can be wrong with the shape of a source text. Reading goes on after an error,
so a text can have any number of them.
-/

namespace SettingsLint

/-- What is wrong. -/
inductive SyntaxFault where
  /-- Something else was expected where `found` stands. -/
  | expected (what found : String)
  /-- A string or character literal does not end. -/
  | unterminatedLiteral (text : String)
  /-- A piece of text is no token. -/
  | unexpectedCharacter (text : String)
  /-- An opening bracket is never closed. -/
  | unclosed (opener : Char)
  /-- Types or namespaces are nested deeper than `limit`. -/
  | nestingTooDeep (limit : Nat)
  deriving DecidableEq, Repr

def SyntaxFault.message : SyntaxFault → String
  | expected what found => "expected " ++ what ++ ", found `" ++ found ++ "`"
  | unterminatedLiteral text => "unterminated literal `" ++ text ++ "`"
  | unexpectedCharacter text => "unexpected character `" ++ text ++ "`"
  | unclosed opener => "unclosed `" ++ String.ofList [opener] ++ "`"
  | nestingTooDeep limit => "nesting is too deep (maximum " ++ limit.repr ++ " levels)"

/-- A fault and its place. -/
structure SyntaxError where
  fault : SyntaxFault
  span : Span
  deriving DecidableEq, Repr

def SyntaxError.diagnostic (e : SyntaxError) : Diagnostic where
  id := Diagnostic.syntaxErrorId
  severity := .error
  message := e.fault.message
  span := e.span

end SettingsLint
