import SettingsLint.Reading.TypeExpr
import SettingsLint.Tree.Attribute

/-! # Reading attribute lists
-/

namespace SettingsLint

/-- The literal that a single token is. -/
def TokenKind.literal? : TokenKind → Option (LiteralKind × String)
  | integer text => some (.integer, text)
  | real text => some (.real, text)
  | string text => some (.string, text)
  | char text => some (.char, text)
  | identifier word =>
    if word = "true" || word = "false" then some (.boolean, word)
    else if word = "null" then some (.null, word)
    else none
  | _ => none

/-- The literal at the cursor: one token, or a minus sign and a number. -/
def Cursor.literal? (s : Cursor) : Option (LiteralKind × String) :=
  if s.kind = .operator '-' then
    match (s.peek 1).literal? with
    | some (.integer, text) => some (.integer, "-" ++ text)
    | some (.real, text) => some (.real, "-" ++ text)
    | _ => none
  else s.kind.literal?

/-- The mark after the name of an argument that a single token is. -/
def TokenKind.argumentMark? : TokenKind → Option ArgumentMark
  | colon => some .colon
  | equals => some .equals
  | _ => none

namespace Read

/-- The name before an argument's value, with the mark after it. -/
def argumentName : Read (Option ArgumentName) := do
  let s ← get
  match (s.peek 1).argumentMark? with
  | some mark =>
    if s.atName then
      match ← ident "an argument name" with
      | some name =>
        let _ ← advance
        return some ⟨name, mark⟩
      | none => return none
    else return none
  | none => return none

/-- The value of an argument that starts with `typeof` and a parenthesis. If more than
the type stands there, it is some other expression. -/
def typeOfValue (first : Span) : Read Expr := do
  let _ ← advance
  let _ ← advance
  let type ← typeExpr
  let closed := (← expect .rightParen "`)`").isSome
  if closed && (← get).atArgumentEnd then return .typeOf type (← spanFrom first)
  else
    skipArgument
    return .other (← spanFrom first)

abbrev otherValue (first : Span) : Read Expr := do
  let s ← get
  if s.atArgumentEnd && s.span = first then
    expected "an expression"
    return .other (Span.point first.start)
  else
    skipArgument
    return .other (← spanFrom first)

/-- The value of an argument that starts with a literal. If more than the literal
stands there, it is some other expression. -/
def literalValue (first : Span) (kind : LiteralKind) (text : String) : Read Expr := do
  let _ ← advance
  if text.toList.head? = some '-' then
    let _ ← advance
  if (← get).atArgumentEnd then return .literal kind text (← spanFrom first)
  else otherValue first

def argumentValue : Read Expr := do
  let s ← get
  if s.atWord "typeof" && s.peek 1 = .leftParen then typeOfValue s.span
  else
    match s.literal? with
    | some (kind, text) => literalValue s.span kind text
    | none => otherValue s.span

/-- One item of a list, and whether a comma follows it. There is none before the token
that closes the list, and none after one that could not be read. -/
def listItem (closing : TokenKind) (item : Read (Option α)) : Read (Option α × Bool) := do
  let s ← get
  if s.kind = closing || s.atEnd then return (none, false)
  else
    match ← item with
    | some a => return (some a, (← eat .comma).isSome)
    | none => return (none, false)

abbrev argument : Read Argument := do
  let first ← span
  let name ← argumentName
  let value ← argumentValue
  return ⟨name, value, ← spanFrom first⟩

def argumentList : Read ArgumentList := do
  let opening ← advance
  let arguments ← gather (listItem .rightParen (some <$> argument))
  match ← expect .rightParen "`)`" with
  | some closing => return ⟨opening, closing, arguments⟩
  | none => return ⟨opening, Span.point (← get).previousStop, arguments⟩

/-- One attribute, whose name is at the cursor. -/
def namedAttribute : Read Attribute := do
  let first ← span
  let name ← qualifiedName typeExpr
  let arguments ←
    if (← kind) = .leftParen then some <$> argumentList else pure none
  return ⟨name, arguments, ← spanFrom first⟩

/-- One attribute. Without a name it is reported and left out. -/
abbrev attributeItem : Read (Option Attribute) := do
  if (← get).atName then some <$> namedAttribute
  else
    expected "an attribute name"
    return none

/-- What the attributes of a list apply to, if that is written. -/
abbrev attributeTarget : Read (Option Ident) := do
  let s ← get
  if s.atName && s.peek 1 = .colon then
    let target ← ident "an attribute target"
    let _ ← advance
    return target
  else return none

/-- The attributes in one pair of brackets. -/
def attributeList : Read AttributeList := do
  let first ← advance
  let target ← attributeTarget
  let attributes ← gather (listItem .rightBracket attributeItem)
  if (← expect .rightBracket "`]`").isNone then
    whileDo
      (fun s => !s.atEnd && s.kind ≠ .rightBracket && s.kind ≠ .leftBrace && s.kind ≠ .semicolon)
      (do if (← kind) = .leftParen then skipGroup else let _ ← advance)
    let _ ← eat .rightBracket
  return ⟨target, attributes, ← spanFrom first⟩

def attributeLists : Read (List AttributeList) :=
  gatherWhile (fun s => s.kind = .leftBracket) (some <$> attributeList)

end Read

end SettingsLint
