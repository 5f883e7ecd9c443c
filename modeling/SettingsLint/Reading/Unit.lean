import SettingsLint.Reading.Declaration
import SettingsLint.Token.Lexer
import SettingsLint.Tree.Unit

/-! # Reading source units

A source unit is a list of items: `using` directives, namespaces and types. A
file-scoped namespace is an item of its own: it takes in all items after it, up to
the end of the block it stands in. So items are first read one after the other, and
`assemble` then puts them where they belong.

`Source.parse` reads a text from end to end. It always gives a unit, with the errors
found on the way.
-/

namespace SettingsLint

/-- One item of a source unit or of a namespace block. -/
inductive UnitItem where
  | using (directive : UsingDirective)
  | member (member : UnitMember)
  /-- The head of a file-scoped namespace, which starts at `first`. -/
  | fileScope (name : List Ident) (first : Span)

/-- The directives and members of a list of items that ends at the byte `stop`. -/
def UnitItem.assemble (stop : Nat) : List UnitItem → List UsingDirective × List UnitMember
  | [] => ([], [])
  | .using directive :: items =>
    let (usings, members) := assemble stop items
    (directive :: usings, members)
  | .member one :: items =>
    let (usings, members) := assemble stop items
    (usings, one :: members)
  | .fileScope name first :: items =>
    let (usings, members) := assemble stop items
    ([], [.scope ⟨name, true, usings, ⟨first.start, max stop first.start⟩⟩ members])

namespace Cursor

/-- Does a `using` directive start here? Before a parenthesis or a declaration of a
variable, the word starts a statement. -/
def atUsing (s : Cursor) : Bool :=
  let offset := if s.atWord "global" then 1 else 0
  let next := s.peek (offset + 1)
  (s.peek offset).isWord "using" && next ≠ .leftParen && !next.isWord "var"
    && !next.isWord "await"

/-- Does an attribute list for the whole assembly start here? -/
def atAssemblyAttribute (s : Cursor) : Bool :=
  s.kind = .leftBracket && ((s.peek 1).isWord "assembly" || (s.peek 1).isWord "module")
    && s.peek 2 = .colon

end Cursor

namespace Read

/-- The new name that a `using` directive gives, if it does. -/
def usingAlias : Read UsingKind := do
  let s ← get
  if s.atName && s.peek 1 = .equals then
    match ← ident "an alias name" with
    | some name =>
      let _ ← advance
      return .ofAlias name
    | none => return .ofNamespace
  else return .ofNamespace

abbrev usingKind : Read UsingKind := do
  if ← eatWord "static" then return .ofStatic else usingAlias

def usingDirective : Read UsingDirective := do
  let first ← span
  let isGlobal ← eatWord "global"
  let _ ← eatWord "using"
  let kind ← usingKind
  let target ← typeExpr
  if (← expect .semicolon "`;`").isNone then skipThroughSemicolon
  return ⟨isGlobal, kind, target, ← spanFrom first⟩

/-- The dotted name of a namespace, or nothing if a part is missing. -/
def namespaceName : Read (Option (List Ident)) := do
  match ← ident "a namespace name" with
  | none => return none
  | some first =>
    let parts ← gather do
      if (← eat .dot).isSome then
        let part ← ident "a namespace name"
        return (some part, part.isSome)
      else return (none, false)
    if parts.all (·.isSome) then return some (first :: parts.filterMap id) else return none

/-- A top-level statement or local function. -/
abbrev skipStatement : Read Unit := do
  let s ← get
  if s.kind = .leftBrace then skipGroup else skipThroughSemicolon
  if (← get).size = s.size then
    let _ ← advance

/-- A namespace, given the reader of the items in its block. -/
def namespaceItem (block : Read (Option (List UnitItem))) : Read (Option UnitItem) := do
  let first ← advance
  match ← namespaceName with
  | none => return none
  | some name =>
    if (← eat .semicolon).isSome then return some (.fileScope name first)
    else if (← expect .leftBrace "`\x7b` or `;`").isNone then
      recoverMember
      return none
    else
      match ← block with
      | none => return none
      | some items =>
        let (usings, members) := UnitItem.assemble (← get).previousStop items
        if (← expect .rightBrace "`\x7d`").isNone then report (.unclosed '\x7b') first
        let _ ← eat .semicolon
        let whole ← spanFrom first
        return some (.member (.scope ⟨name, false, usings, whole⟩ members))

/-- The next item of a block, given the reader of the items in a nested block. -/
abbrev unitItem (block : Read (Option (List UnitItem))) : Read (Option UnitItem) := do
  let s ← get
  if (← eat .semicolon).isSome then return none
  else if s.atUsing then return some (.using (← usingDirective))
  else if s.atWord "extern" && (s.peek 1).isWord "alias" then
    skipThroughSemicolon
    return none
  else if s.atWord "namespace" then namespaceItem block
  else if s.atAssemblyAttribute then
    skipGroup
    return none
  else if s.atTypeDeclaration then
    return (← typeDeclaration).map (fun declaration => .member (.type declaration))
  else
    skipStatement
    return none

/-- The items up to a closing brace or the end of the source, given the reader of the
items in a nested block. -/
abbrev unitItems (block : Read (Option (List UnitItem))) : Read (List UnitItem) :=
  gatherWhile (fun s => !s.atEnd && s.kind ≠ .rightBrace) (unitItem block)

/-- What is read in place of a block that is nested too deep. -/
abbrev skippedBlock : Read (Option (List UnitItem)) := do
  skipToBlockEnd
  return none

/-- The items of a namespace block with at most `levels` levels of blocks in it. -/
def blockWithin : (levels : Nat) → Read (Option (List UnitItem))
  | 0 => refuse skippedBlock
  | levels + 1 => nested (some <$> unitItems (blockWithin levels)) skippedBlock

/-- The directives and members up to a closing brace or the end of the source. -/
def unitBody : Read (List UsingDirective × List UnitMember) := do
  let items ← unitItems (blockWithin maxNesting)
  return UnitItem.assemble (← get).previousStop items

/-- A whole source unit. A closing brace that closes nothing is reported, and the unit
goes on after it. -/
def sourceUnit : Read SourceUnit := do
  let first ← span
  let body ← unitBody
  let more ← gatherWhile (!·.atEnd) do
    let stray ← advance
    report (.expected "a declaration" "\x7d") stray
    return some (← unitBody)
  let parts := body :: more
  return ⟨parts.flatMap (·.1), parts.flatMap (·.2), ⟨first.start, (← span).stop⟩⟩

end Read

/-- The unit that a list of tokens makes, and the cursor where reading ends. -/
def SourceUnit.read (tokens : List Token) : SourceUnit × Cursor :=
  Read.sourceUnit (.ofTokens tokens)

/-- The unit that a list of tokens makes, with the errors in it. -/
def SourceUnit.ofTokens (tokens : List Token) : SourceUnit × List SyntaxError :=
  let (unit, last) := SourceUnit.read tokens
  (unit, last.errors)

/-- A source text and what is read from it. -/
structure Source where
  text : String
  unit : SourceUnit
  errors : List SyntaxError
  deriving Repr

namespace Source

def parse (text : String) : Source :=
  let (unit, errors) := SourceUnit.ofTokens (Token.lexToEnd text)
  ⟨text, unit, errors⟩

def diagnostics (source : Source) : List Diagnostic :=
  source.errors.map (·.diagnostic)

/-- The text at a place, or no text if the span is not a valid range. -/
def slice (source : Source) (span : Span) : String :=
  String.ofList (span.slice source.text.toList)

end Source

end SettingsLint
