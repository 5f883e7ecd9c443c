import SettingsLint.Reading.Skipping
import SettingsLint.Tree.TypeExpr

/-! # Reading types

A type is a qualified name, whose segments may have type arguments, followed by any
number of suffixes. Type arguments are types again, so the reader of types calls
itself; every such call is one level of nesting deeper, and the limit on nesting is
what bounds it.
-/

namespace SettingsLint.Read

/-- What `item` makes of each of the commas at the cursor. -/
def commas (item : Span → α) : Read (List α) :=
  gather do
    match ← eat .comma with
    | some comma => return (some (item comma), true)
    | none => return (none, false)

/-- The type arguments in angle brackets, read by `argument`. Without types between
them, commas stand for the arguments of an unbound generic type. -/
abbrev typeArguments (argument : Read TypeExpr) : Read (List TypeExpr) := do
  let opening ← advance
  let arguments ←
    if (← kind) = .comma || (← kind) = .greater then do
      let more ← commas fun comma => TypeExpr.unsupported (Span.point comma.stop)
      pure (TypeExpr.unsupported (Span.point opening.stop) :: more)
    else
      gather do
        let type ← argument
        return (some type, (← eat .comma).isSome)
  if (← expect .greater "`>`").isNone then report (.unclosed '<') opening
  return arguments

/-- The type arguments of a segment of a name, if it has any. -/
def segmentArguments (argument : Read TypeExpr) : Read (List TypeExpr) := do
  if (← kind) = .less then typeArguments argument else return []

/-- The separator before another segment of a name, if there is one. -/
def separator : Read Bool := do
  let s ← get
  if (s.kind = .dot || s.kind = .colonColon) && (s.peek 1).name?.isSome then
    let _ ← advance
    return true
  else return false

/-- One segment of a qualified name, and whether another one follows. The separator
before the next segment is read, too. -/
def nameSegment (argument : Read TypeExpr) : Read (Option NameSegment × Bool) := do
  match ← ident "a type name" with
  | none => return (none, false)
  | some name =>
    let arguments ← segmentArguments argument
    return (some (.mk name arguments), ← separator)

/-- A qualified name, perhaps after `global::`. The qualifier before a double colon is
kept as a segment. -/
def qualifiedName (argument : Read TypeExpr) : Read TypeExpr := do
  let first ← span
  let s ← get
  let isGlobal := s.atWord "global" && s.peek 1 = .colonColon
  if isGlobal then
    let _ ← advance
    let _ ← advance
  let segments ← gather (nameSegment argument)
  return .named isGlobal segments (← spanFrom first)

/-- The suffixes after a type that starts at `first`. -/
def typeSuffixes (first : Span) (type : TypeExpr) (s : Cursor) : TypeExpr × Cursor :=
  let (suffixed, next) := oneSuffix s
  match suffixed with
  | some type => if next.size < s.size then typeSuffixes first type next else (type, next)
  | none => (type, next)
termination_by s.size
where
  /-- The type with the suffix at the cursor, if there is one. -/
  oneSuffix : Read (Option TypeExpr) := do
    let s ← get
    if (← eat .question).isSome then return some (.nullable type (← spanFrom first))
    else if s.kind = .leftBracket && (s.peek 1 = .rightBracket || s.peek 1 = .comma) then
      let _ ← advance
      let commas ← commas id
      let _ ← expect .rightBracket "`]`"
      return some (.array type (min 255 (1 + commas.length)) (← spanFrom first))
    else if s.kind = .operator '*' then
      let _ ← advance
      return some (.unsupported (← spanFrom first))
    else return none

/-- A type, given the reader of its type arguments. Where no type starts, that is
reported, nothing is read, and the result is an empty unsupported type. -/
def typeExprWith (argument : Read TypeExpr) (first : Span) : Read TypeExpr := do
  let s ← get
  if s.kind = .leftParen then
    skipGroup
    let whole ← spanFrom first
    typeSuffixes first (.unsupported whole)
  else if s.atName then
    let name ← qualifiedName argument
    typeSuffixes first name
  else
    expected "a type"
    return .unsupported (Span.point first.start)

/-- What is read in place of a type that is nested too deep. -/
abbrev skippedType (first : Span) : Read TypeExpr := do
  skipArgument
  return .unsupported (← spanFrom first)

/-- A type with at most `levels` levels of type arguments. -/
def typeExprWithin : (levels : Nat) → Read TypeExpr
  | 0 => do
    let first ← span
    refuse (skippedType first)
  | levels + 1 => do
    let first ← span
    nested (typeExprWith (typeExprWithin levels) first) (skippedType first)

def typeExpr : Read TypeExpr := typeExprWithin maxNesting

end SettingsLint.Read
