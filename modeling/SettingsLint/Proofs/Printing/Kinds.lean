import SettingsLint.Main

/-! # Printing settings classes

How a class that holds settings is printed: the kinds of the tokens it is made of, from the
types in it up to the whole class. Blanks and comments may stand between the tokens, so a
printed text is any text with tokens of these kinds.

The accessors of a property are not part of the tree. They are printed as any tokens in braces
whose brackets match.

`isWritten` says which trees have a printed form, with a bound on how deep type arguments are
nested. `levels` counts the levels of nesting.
-/

namespace SettingsLint

/-! ## Types -/

mutual

/-- The tokens of the type. -/
def TypeExpr.kinds : TypeExpr → List TokenKind
  | .named isGlobal segments _ =>
    (if isGlobal then [.identifier "global", .colonColon] else []) ++
      [.dot].intercalate (NameSegment.kindsOfAll segments)
  | .array element rank _ =>
    element.kinds ++ .leftBracket :: (List.replicate (rank - 1) .comma ++ [.rightBracket])
  | .nullable inner _ => inner.kinds ++ [.question]
  | .unsupported _ => []

def NameSegment.kinds : NameSegment → List TokenKind
  | .mk name arguments =>
    .identifier name.name ::
      if arguments.isEmpty then []
      else .less :: ([.comma].intercalate (TypeExpr.kindsOfAll arguments) ++ [.greater])

def TypeExpr.kindsOfAll : List TypeExpr → List (List TokenKind)
  | [] => []
  | type :: types => type.kinds :: TypeExpr.kindsOfAll types

def NameSegment.kindsOfAll : List NameSegment → List (List TokenKind)
  | [] => []
  | segment :: segments => segment.kinds :: NameSegment.kindsOfAll segments

end

mutual

/-- How deep type arguments are nested in the type. -/
def TypeExpr.levels : TypeExpr → Nat
  | .named _ segments _ => NameSegment.levelsOfAll segments
  | .array element _ _ => element.levels
  | .nullable inner _ => inner.levels
  | .unsupported _ => 0

def NameSegment.levels : NameSegment → Nat
  | .mk _ arguments => TypeExpr.levelsOfAll arguments

/-- How deep type arguments are nested if these types are type arguments. -/
def TypeExpr.levelsOfAll : List TypeExpr → Nat
  | [] => 0
  | type :: types => max (type.levels + 1) (TypeExpr.levelsOfAll types)

/-- How deep type arguments are nested in one of the segments. -/
def NameSegment.levelsOfAll : List NameSegment → Nat
  | [] => 0
  | segment :: segments => max segment.levels (NameSegment.levelsOfAll segments)

end

mutual

/-- Has the type a printed form? -/
def TypeExpr.isWritten : TypeExpr → Bool
  | .named _ segments _ => !segments.isEmpty && NameSegment.areWritten segments
  | .array element rank _ => element.isWritten && 1 ≤ rank && rank ≤ 255
  | .nullable inner _ => inner.isWritten
  | .unsupported _ => false

def NameSegment.isWritten : NameSegment → Bool
  | .mk _ arguments => TypeExpr.areWritten arguments

def TypeExpr.areWritten : List TypeExpr → Bool
  | [] => true
  | type :: types => type.isWritten && TypeExpr.areWritten types

def NameSegment.areWritten : List NameSegment → Bool
  | [] => true
  | segment :: segments => segment.isWritten && NameSegment.areWritten segments

end

namespace TypeExpr

def isNamed : TypeExpr → Bool
  | named .. => true
  | _ => false

/-- Is the first token of the type one of the words? -/
def startsWithOneOf (type : TypeExpr) (words : List String) : Bool :=
  type.kinds.head?.any (·.isOneOf words)

end TypeExpr

/-! ## Attributes -/

/-- A number, after its sign if it has one. -/
def signedKinds (number : String → TokenKind) (text : String) : List TokenKind :=
  match text.toList with
  | '-' :: digits => [.operator '-', number (String.ofList digits)]
  | _ => [number text]

def LiteralKind.kinds (text : String) : LiteralKind → List TokenKind
  | integer => signedKinds .integer text
  | real => signedKinds .real text
  | string => [.string text]
  | char => [.char text]
  | boolean | null => [.identifier text]

namespace Expr

def kinds : Expr → List TokenKind
  | typeOf type _ => .identifier "typeof" :: .leftParen :: (type.kinds ++ [.rightParen])
  | literal kind text _ => kind.kinds text
  | other _ => []

/-- Has the value a printed form, with at most `levels` levels of type arguments? -/
def isWritten (levels : Nat) : Expr → Bool
  | typeOf type _ => type.isWritten && type.levels ≤ levels
  | literal .boolean text _ => text = "true" || text = "false"
  | literal .null text _ => text = "null"
  | literal .. => true
  | other _ => false

end Expr

def ArgumentMark.tokenKind : ArgumentMark → TokenKind
  | colon => .colon
  | equals => .equals

def ArgumentName.kinds (name : ArgumentName) : List TokenKind :=
  [.identifier name.name.name, name.mark.tokenKind]

def Argument.kinds (argument : Argument) : List TokenKind :=
  argument.name.elim [] ArgumentName.kinds ++ argument.value.kinds

def ArgumentList.kinds (list : ArgumentList) : List TokenKind :=
  .leftParen :: ([.comma].intercalate (list.arguments.map (·.kinds)) ++ [.rightParen])

namespace Attribute

def kinds (a : Attribute) : List TokenKind :=
  a.name.kinds ++ a.arguments.elim [] ArgumentList.kinds

/-- Has the attribute a printed form? A type argument of its name stands one level higher than
one of another type. -/
def isWritten (levels : Nat) (a : Attribute) : Bool :=
  a.name.isNamed && a.name.isWritten && a.name.levels ≤ levels + 1 &&
    a.arguments.all fun list => list.arguments.all (·.value.isWritten levels)

end Attribute

def AttributeList.kinds (list : AttributeList) : List TokenKind :=
  .leftBracket :: (list.target.elim [] (fun target => [.identifier target.name, .colon]) ++
    [.comma].intercalate (list.attributes.map (·.kinds)) ++ [.rightBracket])

def AttributeList.isWritten (levels : Nat) (list : AttributeList) : Bool :=
  list.attributes.all (·.isWritten levels)

/-! ## Properties and classes -/

/-- The bracket that closes the group which the token opens. -/
def TokenKind.closer? : TokenKind → Option TokenKind
  | leftParen => some .rightParen
  | leftBracket => some .rightBracket
  | leftBrace => some .rightBrace
  | _ => none

def TokenKind.isError : TokenKind → Bool
  | error _ => true
  | _ => false

/-- Do the brackets among the tokens match by kind, when `closers` are still to come, and is no
token malformed? -/
def balanced : (closers kinds : List TokenKind) → Bool
  | closers, [] => closers.isEmpty
  | closers, kind :: kinds =>
    match kind.closer? with
    | some closer => balanced (closer :: closers) kinds
    | none =>
      if kind.isCloser then
        closers.head? = some kind && balanced closers.tail kinds
      else !kind.isEof && !kind.isError && balanced closers kinds

/-- The words that no type of a property starts with. After them, or after a modifier, another
form of member is read. -/
def memberWords : List String :=
  ["class", "struct", "interface", "enum", "record", "event", "delegate"]

/-- A property with the tokens in its braces. -/
structure PrintedProperty where
  tree : Property
  block : List TokenKind

namespace PrintedProperty

def kinds (p : PrintedProperty) : List TokenKind :=
  p.tree.attributes.flatMap (·.kinds) ++ p.tree.modifiers.map (.identifier ·.name) ++
    p.tree.type.kinds ++
    .identifier p.tree.name.name :: .leftBrace :: (p.block ++ [.rightBrace])

/-- Has the property a printed form, with at most `levels` levels of type arguments, that is
read as a property? -/
def isWritten (levels : Nat) (p : PrintedProperty) : Bool :=
  p.tree.attributes.all (·.isWritten levels) &&
    p.tree.modifiers.all (modifierWords.contains ·.name) &&
    p.tree.type.isWritten && p.tree.type.levels ≤ levels &&
    !p.tree.type.startsWithOneOf (modifierWords ++ memberWords) &&
    p.tree.type.simpleName? ≠ some "implicit" && p.tree.type.simpleName? ≠ some "explicit" &&
    p.tree.name.name ≠ "this" && p.tree.name.name ≠ "operator" && balanced [] p.block

end PrintedProperty

/-- A class with a base and properties only. -/
structure SettingsClass where
  name : Ident
  base : TypeExpr
  properties : List PrintedProperty

namespace SettingsClass

def kinds (c : SettingsClass) : List TokenKind :=
  .identifier "class" :: .identifier c.name.name :: .colon :: (c.base.kinds ++
    .leftBrace :: (c.properties.flatMap (·.kinds) ++ [.rightBrace]))

/-- Has the class a printed form, with at most `levels` levels of type arguments? -/
def isWritten (levels : Nat) (c : SettingsClass) : Bool :=
  c.base.isWritten && c.base.levels ≤ levels && c.properties.all (·.isWritten levels)

def declaration (c : SettingsClass) : TypeDeclaration :=
  .mk ⟨[], [], .classDecl, c.name, [], none, [c.base], default⟩
    (c.properties.map (.property ·.tree))

def unit (c : SettingsClass) : SourceUnit := ⟨[], [.type c.declaration], default⟩

end SettingsClass

end SettingsLint
