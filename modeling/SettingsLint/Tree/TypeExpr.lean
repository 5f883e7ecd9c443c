import SettingsLint.Text.Span

/-! # Written types

A type as it stands in the source: a qualified name with type arguments, and the
array and nullable suffixes around it. Everything else that can be written where a
type is expected (tuples, pointers) is kept as `unsupported`.
-/

namespace SettingsLint

/-- A name and the place where it is written. -/
structure Ident where
  name : String
  span : Span
  deriving DecidableEq, Repr, Inhabited

mutual

/-- A type as written. -/
inductive TypeExpr where
  /-- A qualified name; `isGlobal` if it starts with `global::`. -/
  | named (isGlobal : Bool) (segments : List NameSegment) (span : Span)
  /-- An array of `rank` dimensions. -/
  | array (element : TypeExpr) (rank : Nat) (span : Span)
  /-- A type followed by a question mark. -/
  | nullable (inner : TypeExpr) (span : Span)
  /-- A form of type that the analysis does not model. -/
  | unsupported (span : Span)

/-- One segment of a qualified name, with its type arguments. -/
inductive NameSegment where
  | mk (name : Ident) (arguments : List TypeExpr)

end

deriving instance Repr for TypeExpr, NameSegment

instance : Inhabited TypeExpr := ⟨.unsupported default⟩

namespace NameSegment

def name : NameSegment → Ident
  | mk name _ => name

def arguments : NameSegment → List TypeExpr
  | mk _ arguments => arguments

end NameSegment

namespace TypeExpr

def span : TypeExpr → Span
  | named _ _ s | array _ _ s | nullable _ s | unsupported s => s

/-- The last name of a qualified name. -/
def simpleName? : TypeExpr → Option String
  | named _ segments _ => segments.getLast?.map (·.name.name)
  | _ => none

/-- Is this what stands for a type where none is written? -/
def isMissing : TypeExpr → Bool
  | unsupported s => s.isEmpty
  | _ => false

end TypeExpr

end SettingsLint
