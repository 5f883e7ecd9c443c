import SettingsLint.Reading.Cursor

/-! # Skipping

Executable code is not modelled. It is skipped, group by bracketed group, up to a
token that ends the member or argument it belongs to. The same skipping brings the
reader back on track after an error.
-/

namespace SettingsLint

namespace TokenKind

/-- Does the token open a bracketed group? -/
def isOpener : TokenKind → Bool
  | leftParen | leftBracket | leftBrace => true
  | _ => false

/-- Does the token close a bracketed group? -/
def isCloser : TokenKind → Bool
  | rightParen | rightBracket | rightBrace => true
  | _ => false

def openerChar : TokenKind → Char
  | leftParen => '('
  | leftBracket => '['
  | _ => '\x7b'

end TokenKind

/-! ### Groups -/

/-- The number of tokens up to the end of the group that the list starts in, when
`depth` groups are already open. A group ends where the brackets balance, of whatever
kind they are, or before an `eof`. A token that opens no group counts alone. -/
def groupLength (depth : Nat) : List Token → Nat
  | [] => 0
  | token :: rest =>
    if token.kind.isEof then 0
    else
      let depth :=
        if token.kind.isOpener then depth + 1
        else if token.kind.isCloser then depth - 1
        else depth
      if depth = 0 then 1 else 1 + groupLength depth rest

/-- The offset of the first token after the group that starts `offset` tokens ahead. -/
def Cursor.offsetAfterGroup (s : Cursor) (offset : Nat) : Nat :=
  offset + groupLength 0 (s.tokens.drop offset)

namespace Read

/-- Reads up to the end of the innermost group such that all of `opened` are closed.
The open groups are listed with the innermost first. If the source ends before, the
outermost one is reported. -/
def skipOpened (opened : List (TokenKind × Span)) (s : Cursor) : Cursor :=
  if s.atEnd then
    match opened.getLast? with
    | some (kind, span) => s.report (.unclosed kind.openerChar) span
    | none => s
  else
    let opened :=
      if s.kind.isOpener then (s.kind, s.span) :: opened
      else if s.kind.isCloser then opened.tail
      else opened
    let next := s.advance
    if opened.isEmpty then next
    else if next.size < s.size then skipOpened opened next
    else next
termination_by s.size

/-- Reads the bracketed group at the cursor. Groups inside it are read as a unit, of
whatever kind of bracket they are. -/
def skipGroup : Read Unit := modify (skipOpened [])

/-- Reads the group at the cursor, or else a single token. -/
abbrev skipGroupOrToken : Read Unit := do
  if (← get).kind.isOpener then skipGroup else let _ ← advance

/-! ### Up to the end of a statement, member or argument -/

/-- Reads through the next semicolon, stepping over groups. Stops before a brace that
closes the block around it. -/
abbrev skipThroughSemicolon : Read Unit := do
  whileDo (fun s => !s.atEnd && s.kind ≠ .semicolon && s.kind ≠ .rightBrace) skipGroupOrToken
  let _ ← eat .semicolon

/-- Reads through the rest of a member after an error: to a semicolon, or through a
block in braces and a semicolon after it. Stops before a brace that closes the type. -/
abbrev recoverMember : Read Unit := do
  whileDo
    (fun s => !s.atEnd && s.kind ≠ .semicolon && s.kind ≠ .rightBrace && s.kind ≠ .leftBrace)
    skipGroupOrToken
  if (← get).kind = .leftBrace then skipGroup
  let _ ← eat .semicolon

/-- Reads through the rest of a member without errors: parameter lists and initializers,
then a block, an expression body or a semicolon. -/
def skipBody : Read Unit := do
  whileDo
    (fun s => !s.atEnd && s.kind ≠ .leftBrace && s.kind ≠ .fatArrow && s.kind ≠ .semicolon
      && s.kind ≠ .rightBrace)
    skipGroupOrToken
  match (← get).kind with
  | .leftBrace => skipGroup
  | .fatArrow => skipThroughSemicolon
  | .semicolon => let _ ← advance
  | _ => return

/-- Reads through the brace that closes the block around the cursor. -/
abbrev skipToBlockEnd : Read Unit := do
  whileDo (fun s => !s.atEnd && s.kind ≠ .rightBrace) skipGroupOrToken
  let _ ← eat .rightBrace

end Read

namespace Cursor

/-- Is the cursor where an argument can end? -/
def atArgumentEnd (s : Cursor) : Bool :=
  s.kind = .comma || s.kind = .rightParen || s.kind = .rightBracket || s.atEnd

end Cursor

namespace Read

/-- Reads up to the end of the argument, which is not read. A semicolon or a brace ends
it, too. -/
abbrev skipArgument : Read Unit :=
  whileDo
    (fun s => !s.atArgumentEnd && s.kind ≠ .semicolon && s.kind ≠ .leftBrace
      && s.kind ≠ .rightBrace)
    skipGroupOrToken

end Read

end SettingsLint
