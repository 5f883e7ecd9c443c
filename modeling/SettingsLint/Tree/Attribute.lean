import SettingsLint.Tree.TypeExpr

/-! # Attribute lists

Attributes in brackets before a declaration, with their arguments. An argument is a
`typeof`, a single literal, or some other expression of which only the place is kept.
-/

namespace SettingsLint

inductive LiteralKind where
  | integer
  | real
  | string
  | char
  | boolean
  | null
  deriving DecidableEq, Repr

/-- The value of an attribute argument. -/
inductive Expr where
  /-- `typeof` of a type. -/
  | typeOf (type : TypeExpr) (span : Span)
  /-- A single literal, with the sign of a negative number. -/
  | literal (kind : LiteralKind) (text : String) (span : Span)
  /-- Any other expression. -/
  | other (span : Span)
  deriving Repr

namespace Expr

def span : Expr → Span
  | typeOf _ s | literal _ _ s | other s => s

def isTypeOf : Expr → Bool
  | typeOf _ _ => true
  | _ => false

end Expr

/-- What stands between the name of an argument and its value. -/
inductive ArgumentMark where
  /-- A colon: the name is that of a constructor parameter. -/
  | colon
  /-- An equals sign: the name is that of a property of the attribute. -/
  | equals
  deriving DecidableEq, Repr

structure ArgumentName where
  name : Ident
  mark : ArgumentMark
  deriving DecidableEq, Repr

/-- An argument of an attribute. -/
structure Argument where
  name : Option ArgumentName
  value : Expr
  span : Span
  deriving Repr

/-- The arguments of an attribute in their parentheses. -/
structure ArgumentList where
  /-- The place of the opening parenthesis. -/
  opening : Span
  /-- The place of the closing parenthesis; an empty span if it is missing. -/
  closing : Span
  arguments : List Argument
  deriving Repr

structure Attribute where
  /-- The name as written, always a qualified name. -/
  name : TypeExpr
  /-- The arguments, if parentheses are written. -/
  arguments : Option ArgumentList
  span : Span
  deriving Repr

/-- The last name of the attribute as written. -/
def Attribute.simpleName (a : Attribute) : String :=
  a.name.simpleName?.getD ""

/-- Attributes in one pair of brackets. -/
structure AttributeList where
  /-- What the attributes apply to, if that is written. -/
  target : Option Ident
  attributes : List Attribute
  span : Span
  deriving Repr

/-- Do the attributes, written before a property, apply to the property itself? -/
def AttributeList.appliesToProperty (list : AttributeList) : Bool :=
  list.target.all (·.name = "property")

end SettingsLint
