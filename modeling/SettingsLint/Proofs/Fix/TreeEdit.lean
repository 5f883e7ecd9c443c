import SettingsLint.Fix.TypeArgument
import SettingsLint.Proofs.Tree.Places

/-! # Naming the type in the tree

What the fix means for the tree of a source: the arguments of the binding attributes of
a property change, and nothing else. The arguments are described without their places,
since what the fix adds has no place in the old text.
-/

namespace SettingsLint

open Placed (erase)
open TypeArgumentFix

/-! ## Arguments -/

/-- The value that names a type. -/
def Expr.naming (type : TypeExpr) : Expr := .typeOf type default

namespace Argument

/-- The argument that names a type. -/
def naming (type : TypeExpr) : Argument := ⟨none, .naming type, default⟩

/-- The argument with its value replaced by one that names the type. -/
def withType (type : TypeExpr) (argument : Argument) : Argument :=
  { argument with value := .naming type }

/-- The arguments with the value of the first one that names a type replaced. -/
def replaceType (type : TypeExpr) : List Argument → List Argument
  | [] => []
  | argument :: arguments =>
    if isTypeArgument argument then argument.withType type :: arguments
    else argument :: replaceType type arguments

/-- The arguments with one that names the type before the first one that is set by
`Name = value`, or at the end. -/
def insertType (type : TypeExpr) : List Argument → List Argument
  | [] => [naming type]
  | argument :: arguments =>
    if isSet argument then naming type :: argument :: arguments
    else argument :: insertType type arguments

/-- The arguments with one that names the type. -/
def nameType (type : TypeExpr) (arguments : List Argument) : List Argument :=
  if arguments.any isTypeArgument then replaceType type arguments else insertType type arguments

end Argument

/-- The arguments of an attribute with one that names the type. -/
def ArgumentList.nameType (type : TypeExpr) : Option ArgumentList → ArgumentList
  | none => ⟨default, default, [.naming type]⟩
  | some list => { list with arguments := Argument.nameType type list.arguments }

/-! ## Properties -/

/-- The attribute, with the type named if it is a binding attribute. -/
def Attribute.nameType (type : TypeExpr) (a : Attribute) : Attribute :=
  if isBinding a then { a with arguments := some (ArgumentList.nameType type a.arguments) } else a

/-- The list with the type named in its binding attributes, if they apply to the property. -/
def AttributeList.nameType (type : TypeExpr) (list : AttributeList) : AttributeList :=
  if list.appliesToProperty then
    { list with attributes := list.attributes.map (·.nameType type) }
  else list

/-- The property with its type named in its binding attributes. -/
def Property.nameType (dropNullable : Bool) (p : Property) : Property :=
  { p with attributes := p.attributes.map (·.nameType (typeToName dropNullable p.type)) }

/-- Without binding attributes nothing changes. -/
theorem Property.nameType_of_isEmpty {dropNullable : Bool} {p : Property}
    (h : (p.ownAttributes.filter isBinding) = []) : p.nameType dropNullable = p := by
  have hlist (list : AttributeList) (hlist : list ∈ p.attributes) (type : TypeExpr) :
      list.nameType type = list := by
    unfold AttributeList.nameType
    split
    case isTrue happlies =>
      have hattribute (a : Attribute) (ha : a ∈ list.attributes) : a.nameType type = a := by
        have hown : a ∈ p.ownAttributes := by
          simp only [Property.ownAttributes, List.mem_flatMap, List.mem_filter]
          exact ⟨list, ⟨hlist, happlies⟩, ha⟩
        rw [Attribute.nameType, if_neg]
        exact List.filter_eq_nil_iff.1 h a hown
      rw [List.map_congr_left hattribute, List.map_id']
    case isFalse => rfl
  rw [Property.nameType, List.map_congr_left fun list hmem => hlist list hmem _, List.map_id']

/-! ## Units -/

mutual

/-- The declaration with its properties changed, those of nested types included. -/
def TypeDeclaration.mapProperties (f : Property → Property) : TypeDeclaration → TypeDeclaration
  | .mk header members => .mk header (Member.mapPropertiesIn f members)

/-- The member with its properties changed. -/
def Member.mapProperties (f : Property → Property) : Member → Member
  | .property p => .property (f p)
  | .nested declaration => .nested (declaration.mapProperties f)
  | .constructor c => .constructor c
  | .other span => .other span

def Member.mapPropertiesIn (f : Property → Property) : List Member → List Member
  | [] => []
  | member :: members => member.mapProperties f :: Member.mapPropertiesIn f members

end

mutual

def UnitMember.mapProperties (f : Property → Property) : UnitMember → UnitMember
  | .scope header members => .scope header (UnitMember.mapPropertiesIn f members)
  | .type declaration => .type (declaration.mapProperties f)

def UnitMember.mapPropertiesIn (f : Property → Property) : List UnitMember → List UnitMember
  | [] => []
  | member :: members => member.mapProperties f :: UnitMember.mapPropertiesIn f members

end

def SourceUnit.mapProperties (f : Property → Property) (unit : SourceUnit) : SourceUnit :=
  { unit with members := UnitMember.mapPropertiesIn f unit.members }

theorem Member.mapPropertiesIn_eq (f : Property → Property) (members : List Member) :
    Member.mapPropertiesIn f members = members.map (·.mapProperties f) := by
  induction members with
  | nil => rfl
  | cons member members ih => rw [Member.mapPropertiesIn, ih, List.map_cons]

end SettingsLint
