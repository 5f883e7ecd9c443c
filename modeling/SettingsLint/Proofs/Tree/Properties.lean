import SettingsLint.Proofs.Fix.TreeEdit
import SettingsLint.Reading.Unit

/-! # The properties of a tree

All properties of a declaration or unit in the order of the source, those of nested types
where they stand. `SourceUnit.properties` lists the same properties type by type. The items
that a unit is put together from have properties as well, and they may be changed in the
items or in the unit.
-/

namespace SettingsLint

open Placed (erase)

/-! ## In the order of the source -/

mutual

/-- The properties of the type and of those nested in it. -/
def TypeDeclaration.allProperties : TypeDeclaration → List Property
  | .mk _ members => Member.allPropertiesIn members

def Member.allProperties : Member → List Property
  | .property p => [p]
  | .nested declaration => declaration.allProperties
  | .constructor _ => []
  | .other _ => []

def Member.allPropertiesIn : List Member → List Property
  | [] => []
  | member :: members => member.allProperties ++ Member.allPropertiesIn members

end

mutual

def UnitMember.allProperties : UnitMember → List Property
  | .scope _ members => UnitMember.allPropertiesIn members
  | .type declaration => declaration.allProperties

def UnitMember.allPropertiesIn : List UnitMember → List Property
  | [] => []
  | member :: members => member.allProperties ++ UnitMember.allPropertiesIn members

end

def SourceUnit.allProperties (unit : SourceUnit) : List Property :=
  UnitMember.allPropertiesIn unit.members

theorem Member.allPropertiesIn_eq (members : List Member) :
    Member.allPropertiesIn members = members.flatMap (·.allProperties) := by
  induction members with
  | nil => rfl
  | cons member members ih => rw [allPropertiesIn, ih, List.flatMap_cons]

theorem UnitMember.allPropertiesIn_eq (members : List UnitMember) :
    UnitMember.allPropertiesIn members = members.flatMap (·.allProperties) := by
  induction members with
  | nil => rfl
  | cons member members ih => rw [allPropertiesIn, ih, List.flatMap_cons]

mutual

theorem TypeDeclaration.perm_allProperties : (declaration : TypeDeclaration) →
    (declaration.withNested.flatMap (·.properties)).Perm declaration.allProperties
  | .mk _ members => Member.perm_allPropertiesIn members

/-- The properties of the members and those of the types nested in them. -/
theorem Member.perm_allPropertiesIn : (members : List Member) →
    (members.filterMap (·.property?) ++ (Member.nestedIn members).flatMap (·.properties)).Perm
      (Member.allPropertiesIn members)
  | [] => .refl _
  | .property p :: members => .cons p (Member.perm_allPropertiesIn members)
  | .constructor _ :: members => Member.perm_allPropertiesIn members
  | .other _ :: members => Member.perm_allPropertiesIn members
  | .nested declaration :: members => by
    have hfirst := declaration.perm_allProperties
    have hrest := Member.perm_allPropertiesIn members
    simp only [Member.nestedIn, List.flatMap_append]
    refine .trans ?_ (hfirst.append hrest)
    rw [← List.append_assoc, ← List.append_assoc]
    exact List.perm_append_comm.append_right _

end

mutual

theorem UnitMember.perm_allProperties : (member : UnitMember) →
    (member.declarations.flatMap (·.properties)).Perm member.allProperties
  | .scope _ members => UnitMember.perm_allPropertiesIn members
  | .type declaration => declaration.perm_allProperties

theorem UnitMember.perm_allPropertiesIn : (members : List UnitMember) →
    ((UnitMember.declarationsIn members).flatMap (·.properties)).Perm
      (UnitMember.allPropertiesIn members)
  | [] => .refl _
  | member :: members => by
    rw [declarationsIn, List.flatMap_append]
    exact member.perm_allProperties.append (UnitMember.perm_allPropertiesIn members)

end

/-- Type by type or in the order of the source, the properties are the same. -/
theorem SourceUnit.perm_allProperties (unit : SourceUnit) : unit.properties.Perm unit.allProperties :=
  UnitMember.perm_allPropertiesIn unit.members

/-! ## Items of a unit -/

namespace UnitItem

def allProperties : UnitItem → List Property
  | .member m => m.allProperties
  | .using _ => []
  | .fileScope .. => []

def mapProperties (f : Property → Property) : UnitItem → UnitItem
  | .member m => .member (m.mapProperties f)
  | .using d => .using d
  | .fileScope name first => .fileScope name first

theorem allPropertiesIn_assemble (stop : Nat) (items : List UnitItem) :
    UnitMember.allPropertiesIn (assemble stop items).2 = items.flatMap (·.allProperties) := by
  induction items with
  | nil => rfl
  | cons item items ih =>
    cases item with
    | «using» d => exact ih
    | member m =>
      rw [List.flatMap_cons, ← ih]
      rfl
    | fileScope name first =>
      show (UnitMember.allPropertiesIn (assemble stop items).2) ++ [] = _
      rw [List.append_nil, ih]
      rfl

/-- What is put together from changed items is changed in the same way. -/
theorem assemble_map (f : Property → Property) (stop : Nat) (items : List UnitItem) :
    assemble stop (items.map (·.mapProperties f)) =
      ((assemble stop items).1, UnitMember.mapPropertiesIn f (assemble stop items).2) := by
  induction items with
  | nil => rfl
  | cons item items ih =>
    rw [List.map_cons]
    cases item with
    | «using» d | member m | fileScope name first =>
      rw [mapProperties, assemble, ih]
      rfl

end UnitItem

/-! ## Values with properties in them -/

/-- A kind of values that may have properties in them. -/
class Owner (α : Type) where
  /-- The properties in the value, in the order of the source. -/
  owned : α → List Property
  /-- The value with its properties changed. -/
  change : (Property → Property) → α → α

open Owner (owned change)

instance : Owner Member := ⟨Member.allProperties, Member.mapProperties⟩
instance : Owner TypeDeclaration := ⟨TypeDeclaration.allProperties, TypeDeclaration.mapProperties⟩
instance : Owner UnitItem := ⟨UnitItem.allProperties, UnitItem.mapProperties⟩
instance [Owner α] : Owner (List α) := ⟨List.flatMap owned, fun f => List.map (change f)⟩
instance [Owner α] : Owner (Option α) := ⟨fun o => owned o.toList, fun f => Option.map (change f)⟩

end SettingsLint
