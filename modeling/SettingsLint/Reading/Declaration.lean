import SettingsLint.Reading.Attribute
import SettingsLint.Tree.Declaration

/-! # Reading declarations

Type declarations and their members. A nested type is one level of nesting deeper
than the type around it, and the limit on nesting bounds the recursion.
-/

namespace SettingsLint

/-- The words that may stand before a type or member. -/
def modifierWords : List String :=
  ["public", "private", "protected", "internal", "file", "static", "sealed", "abstract",
    "virtual", "override", "readonly", "partial", "new", "extern", "unsafe", "volatile",
    "async", "required", "const", "fixed", "ref"]

/-- The words that may stand before a parameter. -/
def parameterModifierWords : List String :=
  ["this", "ref", "out", "in", "params", "scoped", "readonly"]

/-- Is the token one of the words? -/
def TokenKind.isOneOf (kind : TokenKind) (words : List String) : Bool :=
  kind.name?.any (words.contains ·)

/-- The number of tokens of the attribute lists that the list starts with. -/
def attributesLength : List Token → Nat
  | [] => 0
  | token :: rest =>
    if token.kind = .leftBracket then
      let group := groupLength 0 (token :: rest)
      group + attributesLength (rest.drop (group - 1))
    else 0
termination_by tokens => tokens.length
decreasing_by simp only [List.length_drop, List.length_cons]; omega

namespace Cursor

/-- Does a type declaration's keyword stand `n` tokens ahead? The word `record` is one
only before another word. -/
def typeKeywordAt (s : Cursor) (n : Nat) : Bool :=
  (s.peek n).isOneOf ["class", "struct", "interface", "enum"]
    || ((s.peek n).isWord "record" && (s.peek (n + 1)).name?.isSome)

/-- Does a type declaration start here, after attribute lists and modifiers? -/
def atTypeDeclaration (s : Cursor) : Bool :=
  let start := attributesLength s.tokens
  let modifiers := (s.tokens.drop start).takeWhile (·.kind.isOneOf modifierWords)
  s.typeKeywordAt (start + modifiers.length)

end Cursor

/-- A reader of type declarations after their attributes and modifiers. -/
abbrev TypeReader := Span → List AttributeList → List Ident → Read (Option TypeDeclaration)

namespace Read

/-! ### Parts of declarations -/

/-- The words of the list at the cursor. -/
abbrev words (list : List String) (what : String) : Read (List Ident) :=
  gatherWhile (·.kind.isOneOf list) (ident what)

abbrev modifiers : Read (List Ident) := words modifierWords "a modifier"

/-- A parameter after its type, with its default value. Without a name it is reported
and left out. -/
def parameterRest (first : Span) (modifiers : List Ident) (type : TypeExpr) :
    Read (Option Parameter) := do
  match ← ident "a parameter name" with
  | some name =>
    let hasDefault := (← eat .equals).isSome
    if hasDefault then skipArgument
    return some ⟨modifiers, type, name, hasDefault, ← spanFrom first⟩
  | none =>
    skipArgument
    return none

abbrev parameter : Read (Option Parameter) := do
  let first ← span
  let _ ← attributeLists
  let modifiers ← words parameterModifierWords "a parameter modifier"
  let type ← typeExpr
  parameterRest first modifiers type

def parameterList : Read (List Parameter) := do
  if (← expect .leftParen "`(`").isNone then return []
  else if (← eat .rightParen).isSome then return []
  else
    let parameters ← gather do
      let item ← parameter
      return (item, (← eat .comma).isSome)
    if (← expect .rightParen "`)`").isNone then
      skipArgument
      let _ ← eat .rightParen
    return parameters

/-- The name of a type parameter, and whether a comma follows it. -/
def typeParameterName : Read (Option Ident × Bool) := do
  match ← ident "a type parameter name" with
  | some name => return (some name, (← eat .comma).isSome)
  | none => return (none, false)

/-- One type parameter, and whether a comma follows it. -/
abbrev typeParameter : Read (Option Ident × Bool) := do
  let _ ← attributeLists
  let s ← get
  if s.atWord "in" || s.atWord "out" then
    let _ ← advance
  typeParameterName

/-- The type parameters after the name of a type, if it has any. -/
def typeParameters : Read (List Ident) := do
  if (← eat .less).isNone then return []
  else
    let parameters ← gather typeParameter
    if (← expect .greater "`>`").isNone then
      whileDo (fun s => !s.atEnd && s.kind ≠ .greater && s.kind ≠ .leftBrace && s.kind ≠ .semicolon)
        (do let _ ← advance)
      let _ ← eat .greater
    return parameters

/-- The types after the colon. Arguments for the constructor of a base are skipped. -/
def baseTypes : Read (List TypeExpr) := do
  if (← eat .colon).isNone then return []
  else
    gather do
      let type ← typeExpr
      if (← kind) = .leftParen then skipGroup
      return (some type, (← eat .comma).isSome)

def skipConstraints : Read Unit :=
  whileDo (·.atWord "where") do
    let _ ← advance
    whileDo
      (fun s => !s.atEnd && !s.atWord "where" && s.kind ≠ .leftBrace && s.kind ≠ .semicolon
        && s.kind ≠ .fatArrow)
      (do if (← kind) = .leftParen then skipGroup else let _ ← advance)

abbrev skipEnumMembers : Read Unit :=
  whileDo (fun s => !s.atEnd && s.kind ≠ .rightBrace) skipGroupOrToken

/-- The keyword of a type declaration. -/
def declarationKind : Read (Option DeclarationKind) := do
  if ← eatWord "class" then return some .classDecl
  else if ← eatWord "struct" then return some .structDecl
  else if ← eatWord "interface" then return some .interfaceDecl
  else if ← eatWord "enum" then return some .enumDecl
  else if ← eatWord "record" then
    if ← eatWord "struct" then return some .recordStructDecl
    else
      let _ ← eatWord "class"
      return some .recordDecl
  else return none

/-! ### Members -/

/-- Skips the type argument of an interface that qualifies the name of a member. -/
def skipQualifierArgument : Read Unit := do
  let s ← get
  if s.kind = .less && s.peek 2 = .greater && s.peek 3 = .dot then
    let _ ← advance
    let _ ← advance
    let _ ← advance

/-- The name of a member. Of a name qualified by an interface the last part counts. -/
def memberName : Read (Option Ident) := do
  match ← ident "a member name" with
  | none => return none
  | some name =>
    skipQualifierArgument
    let parts ← gatherWhile (fun s => s.kind = .dot && (s.peek 1).name?.isSome) do
      let _ ← advance
      ident "a member name"
    return some (parts.getLastD name)

/-- A member of which only the place is kept. -/
abbrev otherMember (first : Span) : Read Member := return .other (← spanFrom first)

/-- A constructor, whose name is at the cursor. -/
def constructor (first : Span) (modifiers : List Ident) (typeName : String) :
    Read Constructor := do
  let name := (← ident "a constructor name").getD ⟨typeName, first⟩
  let parameters ← parameterList
  skipBody
  return ⟨modifiers, name, parameters, ← spanFrom first⟩

/-- Reads the rest of a member after its type and name, and tells whether the member is
a property. -/
def skipMemberRest : Read Bool := do
  match (← get).kind with
  | .leftBrace =>
    skipGroup
    if (← eat .equals).isSome then skipThroughSemicolon
    return true
  | .fatArrow =>
    skipThroughSemicolon
    return true
  | .leftParen | .less =>
    skipBody
    return false
  | .equals | .semicolon | .comma =>
    skipThroughSemicolon
    return false
  | _ =>
    expected "`\x7b`, `(`, `;` or `=`"
    recoverMember
    return false

/-- A member after its type and name: a property, or one that is not modelled. -/
abbrev memberBody (first : Span) (attributes : List AttributeList) (modifiers : List Ident)
    (type : TypeExpr) (name : Ident) : Read Member := do
  if ← skipMemberRest then
    return .property ⟨attributes, modifiers, type, name, ← spanFrom first⟩
  else otherMember first

/-- A member after its type, which should be followed by a name. -/
def namedMember (first : Span) (attributes : List AttributeList) (modifiers : List Ident)
    (type : TypeExpr) : Read Member := do
  match ← memberName with
  | none =>
    recoverMember
    otherMember first
  | some name => memberBody first attributes modifiers type name

/-- A member after its type. Operators, indexers and conversions have no name. -/
def memberRest (first : Span) (attributes : List AttributeList) (modifiers : List Ident)
    (type : TypeExpr) : Read Member := do
  let s ← get
  if type.isMissing then
    recoverMember
    otherMember first
  else if s.atWord "operator" || s.atWord "this" then
    skipBody
    otherMember first
  else if type.simpleName? = some "implicit" || type.simpleName? = some "explicit" then
    skipBody
    otherMember first
  else namedMember first attributes modifiers type

abbrev typedMember (first : Span) (attributes : List AttributeList) (modifiers : List Ident) :
    Read Member := do
  let type ← typeExpr
  memberRest first attributes modifiers type

/-- A member of the type `typeName`; `nestedType` reads a type declaration after its
attributes and modifiers. -/
def member (nestedType : TypeReader) (typeName : String) : Read (Option Member) := do
  let first ← span
  let attributes ← attributeLists
  let modifiers ← modifiers
  let s ← get
  if s.typeKeywordAt 0 then
    return (← nestedType first attributes modifiers).map .nested
  else if s.atWord "event" || s.atWord "delegate" || s.kind = .operator '~' then
    skipBody
    otherMember first
  else if s.atWord typeName && s.peek 1 = .leftParen then
    return some (.constructor (← constructor first modifiers typeName))
  else typedMember first attributes modifiers

/-- The members up to the closing brace of the type. A member that reads nothing is
stepped over. -/
def members (nestedType : TypeReader) (typeName : String) : Read (List Member) :=
  gatherWhile (fun s => !s.atEnd && s.kind ≠ .rightBrace) do
    if (← eat .semicolon).isSome then return none
    else
      let start ← span
      let item ← member nestedType typeName
      let s ← get
      if s.span = start && !s.atEnd then
        let _ ← advance
      return item

/-! ### Types -/

/-- The members in their braces, or none before a semicolon. -/
def typeBody (nestedType : TypeReader) (kind : DeclarationKind) (typeName : String) :
    Read (List Member) := do
  match ← eat .leftBrace with
  | some opening =>
    let items ←
      if kind = .enumDecl then do
        skipEnumMembers
        pure []
      else members nestedType typeName
    if (← eat .rightBrace).isNone then report (.unclosed '\x7b') opening
    return items
  | none =>
    if (← Read.kind) ≠ .semicolon then
      expected "`\x7b`"
      recoverMember
    return []

/-- The header of a type declaration after its attributes and modifiers, up to the body. -/
def typeHeader (first : Span) (attributes : List AttributeList) (modifiers : List Ident) :
    Read (Option DeclarationHeader) := do
  match ← declarationKind with
  | none =>
    expected "a type declaration"
    recoverMember
    return none
  | some kind =>
    match ← ident "a type name" with
    | none =>
      recoverMember
      return none
    | some name =>
      let typeParameters ← typeParameters
      let primaryParameters ←
        if (← Read.kind) = .leftParen then some <$> parameterList else pure none
      let bases ← baseTypes
      skipConstraints
      return some
        ⟨attributes, modifiers, kind, name, typeParameters, primaryParameters, bases, first⟩

/-- A type declaration after its attributes and modifiers. -/
def typeRest (nestedType : TypeReader) (first : Span) (attributes : List AttributeList)
    (modifiers : List Ident) : Read (Option TypeDeclaration) := do
  match ← typeHeader first attributes modifiers with
  | none => return none
  | some header =>
    let items ← typeBody nestedType header.kind header.name.name
    let _ ← eat .semicolon
    return some (.mk { header with span := ← spanFrom first } items)

/-- What is read in place of a declaration that is nested too deep. -/
abbrev skippedDeclaration : Read (Option TypeDeclaration) := do
  recoverMember
  return none

/-- A type declaration with at most `levels` levels of nested types, after its
attributes and modifiers. -/
def typeRestWithin : (levels : Nat) → TypeReader
  | 0, _, _, _ => refuse skippedDeclaration
  | levels + 1, first, attributes, modifiers =>
    nested (typeRest (typeRestWithin levels) first attributes modifiers) skippedDeclaration

abbrev typeDeclaration : Read (Option TypeDeclaration) := do
  let first ← span
  let attributes ← attributeLists
  let modifiers ← modifiers
  typeRestWithin maxNesting first attributes modifiers

end Read

end SettingsLint
