import SettingsLint.Main

/-! # The places of a tree

Every node of a tree carries the place where it was read. `places` lists these places, and
`relocate` puts others there and keeps the rest of the tree. Two readings of the same
tokens at different places give trees that differ in their places only. To say so,
`erase` forgets all places of a value.
-/

namespace SettingsLint

/-- A place in a tree, with what stands there. -/
inductive Place where
  /-- The name of a property. -/
  | property (name : String) (span : Span)
  /-- Any other name. -/
  | name (text : String) (span : Span)
  /-- A node of the tree, from a token to a token. -/
  | node (span : Span)
  /-- What may be missing or left open. Nothing is reported here. -/
  | gap (span : Span)

def Place.span : Place → Span
  | property _ span | name _ span | node span | gap span => span

/-- A kind of values that may have places in them. -/
class Placed (α : Type) where
  /-- The value with other places. -/
  relocate : (Place → Span) → α → α
  /-- The places in the value. -/
  places : α → List Place

namespace Placed

/-- The value with all places in it forgotten. -/
def erase [Placed α] (a : α) : α := relocate (fun _ => default) a

/-- A kind of values without places. -/
abbrev plain : Placed α := ⟨fun _ a => a, fun _ => []⟩

end Placed

open Placed (relocate places erase)

/-- Places that stay where they are leave the value as it is. -/
class LawfulPlaced (α : Type) [Placed α] : Prop where
  relocate_eq_self : ∀ {g : Place → Span} {a : α}, (∀ p ∈ places a, g p = p.span) →
    relocate g a = a

open LawfulPlaced (relocate_eq_self)

/-! ## Plain values -/

instance : Placed Unit := .plain
instance : Placed Bool := .plain
instance : Placed Nat := .plain
instance : Placed String := .plain
instance : Placed TokenKind := .plain
instance : Placed DeclarationKind := .plain
instance : Placed Span := ⟨fun g span => g (.node span), fun span => [.node span]⟩
instance [Placed α] : Placed (Option α) :=
  ⟨fun g => Option.map (relocate g), fun o => o.toList.flatMap places⟩
instance [Placed α] : Placed (List α) := ⟨fun g => List.map (relocate g), List.flatMap places⟩
instance [Placed α] [Placed β] : Placed (α × β) :=
  ⟨fun g => Prod.map (relocate g) (relocate g), fun p => places p.1 ++ places p.2⟩

@[simp] theorem erase_unit (a : Unit) : erase a = a := rfl
@[simp] theorem erase_span (a : Span) : erase a = default := rfl

section

variable [Placed α] [Placed β] {g : Place → Span}

theorem relocate_list (g : Place → Span) (as : List α) : relocate g as = as.map (relocate g) := rfl

@[simp] theorem relocate_cons (a : α) (as : List α) :
    relocate g (a :: as) = relocate g a :: relocate g as := rfl
@[simp] theorem places_nil : places ([] : List α) = [] := rfl
@[simp] theorem places_cons (a : α) (as : List α) : places (a :: as) = places a ++ places as := by
  simp [places]
@[simp] theorem places_none : places (none : Option α) = [] := rfl
@[simp] theorem places_some (a : α) : places (some a) = places a := by simp [places]

theorem mem_places_list {p : Place} {as : List α} : p ∈ places as ↔ ∃ a ∈ as, p ∈ places a :=
  List.mem_flatMap

@[simp] theorem erase_none : erase (none : Option α) = none := rfl
@[simp] theorem erase_some (a : α) : erase (some a) = some (erase a) := rfl
theorem erase_eq_some_iff {o : Option α} {a : α} :
    erase o = erase (some a) ↔ ∃ b, o = some b ∧ erase b = erase a := by
  cases o <;> simp
@[simp] theorem erase_nil : erase ([] : List α) = [] := rfl
@[simp] theorem erase_cons (a : α) (as : List α) : erase (a :: as) = erase a :: erase as := rfl
@[simp] theorem erase_pair (a : α) (b : β) : erase (a, b) = (erase a, erase b) := rfl

theorem erase_list (as : List α) : erase as = as.map erase := rfl

@[simp] theorem erase_append (as bs : List α) : erase (as ++ bs) = erase as ++ erase bs :=
  List.map_append

instance : LawfulPlaced Span := ⟨fun h => h _ List.mem_cons_self⟩

instance [LawfulPlaced α] : LawfulPlaced (List α) where
  relocate_eq_self {_ as} h := by
    refine (List.map_congr_left fun a ha => ?_).trans (List.map_id as)
    exact relocate_eq_self fun p hp => h p (mem_places_list.2 ⟨a, ha, hp⟩)

instance [LawfulPlaced α] : LawfulPlaced (Option α) where
  relocate_eq_self {_ o} h := by
    cases o with
    | none => rfl
    | some a => exact congrArg some (relocate_eq_self (by simpa using h))

end

/-! ## Types and attributes -/

instance : Placed Ident where
  relocate g i := { i with span := g (.name i.name i.span) }
  places i := [.name i.name i.span]

instance : LawfulPlaced Ident where
  relocate_eq_self {_ i} h := congrArg (Ident.mk i.name) (h _ List.mem_cons_self)

mutual

/-- The type with other places. -/
def TypeExpr.relocate (g : Place → Span) : TypeExpr → TypeExpr
  | .named isGlobal segments span =>
    .named isGlobal (NameSegment.relocateAll g segments) (g (.node span))
  | .array element rank span => .array (element.relocate g) rank (g (.node span))
  | .nullable inner span => .nullable (inner.relocate g) (g (.node span))
  | .unsupported span => .unsupported (g (.gap span))

def NameSegment.relocate (g : Place → Span) : NameSegment → NameSegment
  | .mk name arguments => .mk (Placed.relocate g name) (TypeExpr.relocateAll g arguments)

def TypeExpr.relocateAll (g : Place → Span) : List TypeExpr → List TypeExpr
  | [] => []
  | type :: types => type.relocate g :: TypeExpr.relocateAll g types

def NameSegment.relocateAll (g : Place → Span) : List NameSegment → List NameSegment
  | [] => []
  | segment :: segments => segment.relocate g :: NameSegment.relocateAll g segments

end

mutual

/-- The places in a type. -/
def TypeExpr.places : TypeExpr → List Place
  | .named _ segments span => NameSegment.placesIn segments ++ [.node span]
  | .array element _ span => element.places ++ [.node span]
  | .nullable inner span => inner.places ++ [.node span]
  | .unsupported span => [.gap span]

def NameSegment.places : NameSegment → List Place
  | .mk name arguments => Placed.places name ++ TypeExpr.placesIn arguments

def TypeExpr.placesIn : List TypeExpr → List Place
  | [] => []
  | type :: types => type.places ++ TypeExpr.placesIn types

def NameSegment.placesIn : List NameSegment → List Place
  | [] => []
  | segment :: segments => segment.places ++ NameSegment.placesIn segments

end

instance : Placed TypeExpr := ⟨TypeExpr.relocate, TypeExpr.places⟩
instance : Placed NameSegment := ⟨NameSegment.relocate, NameSegment.places⟩

theorem TypeExpr.relocateAll_eq (g : Place → Span) (types : List TypeExpr) :
    relocateAll g types = Placed.relocate g types := by
  induction types with
  | nil => rfl
  | cons type types ih => exact congrArg (type.relocate g :: ·) ih

theorem NameSegment.relocateAll_eq (g : Place → Span) (segments : List NameSegment) :
    relocateAll g segments = Placed.relocate g segments := by
  induction segments with
  | nil => rfl
  | cons segment segments ih => exact congrArg (segment.relocate g :: ·) ih

theorem TypeExpr.placesIn_eq (types : List TypeExpr) : placesIn types = Placed.places types := by
  induction types with
  | nil => rfl
  | cons type types ih => rw [placesIn, ih]; rfl

theorem NameSegment.placesIn_eq (segments : List NameSegment) :
    placesIn segments = Placed.places segments := by
  induction segments with
  | nil => rfl
  | cons segment segments ih => rw [placesIn, ih]; rfl

section

variable (g : Place → Span)

@[simp] theorem relocate_named (isGlobal : Bool) (segments : List NameSegment) (span : Span) :
    relocate g (TypeExpr.named isGlobal segments span)
      = .named isGlobal (relocate g segments) (g (.node span)) := by
  rw [← NameSegment.relocateAll_eq]
  rfl

@[simp] theorem relocate_array (element : TypeExpr) (rank : Nat) (span : Span) :
    relocate g (TypeExpr.array element rank span)
      = .array (relocate g element) rank (g (.node span)) := rfl

@[simp] theorem relocate_nullable (inner : TypeExpr) (span : Span) :
    relocate g (TypeExpr.nullable inner span) = .nullable (relocate g inner) (g (.node span)) := rfl

@[simp] theorem relocate_unsupported (span : Span) :
    relocate g (TypeExpr.unsupported span) = .unsupported (g (.gap span)) := rfl

@[simp] theorem relocate_segment (name : Ident) (arguments : List TypeExpr) :
    relocate g (NameSegment.mk name arguments) = .mk (relocate g name) (relocate g arguments) := by
  rw [← TypeExpr.relocateAll_eq]
  rfl

end

@[simp] theorem places_named (isGlobal : Bool) (segments : List NameSegment) (span : Span) :
    places (TypeExpr.named isGlobal segments span) = places segments ++ [.node span] := by
  rw [← NameSegment.placesIn_eq]
  rfl

@[simp] theorem places_array (element : TypeExpr) (rank : Nat) (span : Span) :
    places (TypeExpr.array element rank span) = places element ++ [.node span] := rfl

@[simp] theorem places_nullable (inner : TypeExpr) (span : Span) :
    places (TypeExpr.nullable inner span) = places inner ++ [.node span] := rfl

@[simp] theorem places_segment (name : Ident) (arguments : List TypeExpr) :
    places (NameSegment.mk name arguments) = places name ++ places arguments := by
  rw [← TypeExpr.placesIn_eq]
  rfl

mutual

theorem TypeExpr.relocate_of_fixed {g : Place → Span} : (type : TypeExpr) →
    (∀ p ∈ Placed.places type, g p = p.span) → Placed.relocate g type = type
  | .named isGlobal segments span, h => by
    simp only [places_named, List.forall_mem_append, List.forall_mem_singleton] at h
    rw [relocate_named, NameSegment.relocateAll_of_fixed segments h.1, h.2]
    rfl
  | .array element rank span, h => by
    simp only [places_array, List.forall_mem_append, List.forall_mem_singleton] at h
    rw [relocate_array, TypeExpr.relocate_of_fixed element h.1, h.2]
    rfl
  | .nullable inner span, h => by
    simp only [places_nullable, List.forall_mem_append, List.forall_mem_singleton] at h
    rw [relocate_nullable, TypeExpr.relocate_of_fixed inner h.1, h.2]
    rfl
  | .unsupported span, h => by
    rw [relocate_unsupported, h _ List.mem_cons_self]
    rfl

theorem NameSegment.relocate_of_fixed {g : Place → Span} : (segment : NameSegment) →
    (∀ p ∈ Placed.places segment, g p = p.span) → Placed.relocate g segment = segment
  | .mk name arguments, h => by
    simp only [places_segment, List.forall_mem_append] at h
    rw [relocate_segment, relocate_eq_self h.1, TypeExpr.relocateAll_of_fixed arguments h.2]

theorem TypeExpr.relocateAll_of_fixed {g : Place → Span} : (types : List TypeExpr) →
    (∀ p ∈ Placed.places types, g p = p.span) → Placed.relocate g types = types
  | [], _ => rfl
  | type :: types, h => by
    simp only [places_cons, List.forall_mem_append] at h
    rw [relocate_cons, TypeExpr.relocate_of_fixed type h.1, TypeExpr.relocateAll_of_fixed types h.2]

theorem NameSegment.relocateAll_of_fixed {g : Place → Span} : (segments : List NameSegment) →
    (∀ p ∈ Placed.places segments, g p = p.span) → Placed.relocate g segments = segments
  | [], _ => rfl
  | segment :: segments, h => by
    simp only [places_cons, List.forall_mem_append] at h
    rw [relocate_cons, NameSegment.relocate_of_fixed segment h.1,
      NameSegment.relocateAll_of_fixed segments h.2]

end

instance : LawfulPlaced TypeExpr := ⟨TypeExpr.relocate_of_fixed _⟩

@[simp] theorem erase_ident (name : String) (span : Span) :
    erase (⟨name, span⟩ : Ident) = ⟨name, default⟩ := rfl

@[simp] theorem erase_named (isGlobal : Bool) (segments : List NameSegment) (span : Span) :
    erase (TypeExpr.named isGlobal segments span) = .named isGlobal (erase segments) default :=
  relocate_named _ isGlobal segments span

@[simp] theorem erase_array (element : TypeExpr) (rank : Nat) (span : Span) :
    erase (TypeExpr.array element rank span) = .array (erase element) rank default := rfl

@[simp] theorem erase_nullable (inner : TypeExpr) (span : Span) :
    erase (TypeExpr.nullable inner span) = .nullable (erase inner) default := rfl

@[simp] theorem erase_unsupported (span : Span) :
    erase (TypeExpr.unsupported span) = .unsupported default := rfl

@[simp] theorem erase_segment (name : Ident) (arguments : List TypeExpr) :
    erase (NameSegment.mk name arguments) = .mk (erase name) (erase arguments) :=
  relocate_segment _ name arguments

@[simp] theorem simpleName?_relocate (g : Place → Span) (type : TypeExpr) :
    (relocate g type).simpleName? = type.simpleName? := by
  cases type with
  | named isGlobal segments span =>
    rw [relocate_named]
    simp only [TypeExpr.simpleName?, relocate_list, List.getLast?_map]
    cases segments.getLast? with
    | none => rfl
    | some segment => cases segment; rfl
  | _ => rfl

@[simp] theorem simpleName?_erase (type : TypeExpr) :
    (erase type).simpleName? = type.simpleName? := simpleName?_relocate _ type

def Expr.relocate (g : Place → Span) : Expr → Expr
  | .typeOf type span => .typeOf (Placed.relocate g type) (g (.node span))
  | .literal kind text span => .literal kind text (g (.node span))
  | .other span => .other (g (.node span))

def Expr.places : Expr → List Place
  | .typeOf type span => Placed.places type ++ [.node span]
  | .literal _ _ span => [.node span]
  | .other span => [.node span]

/-- The type with another place as a whole. -/
def TypeExpr.withSpan (span : Span) : TypeExpr → TypeExpr
  | .named isGlobal segments _ => .named isGlobal segments span
  | .array element rank _ => .array element rank span
  | .nullable inner _ => .nullable inner span
  | .unsupported _ => .unsupported span

instance : Placed Expr := ⟨Expr.relocate, Expr.places⟩

instance : Placed ArgumentName where
  relocate g n := { n with name := relocate g n.name }
  places n := places n.name

instance : Placed Argument where
  relocate g a := ⟨relocate g a.name, relocate g a.value, g (.node a.span)⟩
  places a := places a.name ++ places a.value ++ [.node a.span]

instance : Placed ArgumentList where
  relocate g l := ⟨g (.node l.opening), g (.gap l.closing), relocate g l.arguments⟩
  places l := places l.arguments ++ [.node l.opening] ++ [.gap l.closing]

/-- An attribute is reported at its name, so that is a node whatever it is. -/
instance : Placed Attribute where
  relocate g a := ⟨(relocate g a.name).withSpan (g (.node a.name.span)), relocate g a.arguments,
    g (.node a.span)⟩
  places a := places a.name ++ [.node a.name.span] ++ places a.arguments ++ [.node a.span]

instance : Placed AttributeList where
  relocate g l := ⟨relocate g l.target, relocate g l.attributes, g (.node l.span)⟩
  places l := places l.target ++ places l.attributes ++ [.node l.span]

@[simp] theorem places_argument (a : Argument) :
    places a = places a.name ++ places a.value ++ [.node a.span] := rfl
@[simp] theorem places_argumentList (l : ArgumentList) :
    places l = places l.arguments ++ [.node l.opening] ++ [.gap l.closing] := rfl
@[simp] theorem places_attribute (a : Attribute) : places a =
    places a.name ++ [.node a.name.span] ++ places a.arguments ++ [.node a.span] := rfl
@[simp] theorem places_attributeList (l : AttributeList) :
    places l = places l.target ++ places l.attributes ++ [.node l.span] := rfl

@[simp] theorem TypeExpr.withSpan_span (type : TypeExpr) : type.withSpan type.span = type := by
  cases type <;> rfl

instance : LawfulPlaced Expr where
  relocate_eq_self {g e} h := by
    cases e with
    | typeOf type span =>
      have h := List.forall_mem_append.mp h
      exact congr (congrArg Expr.typeOf (relocate_eq_self h.1)) (h.2 _ List.mem_cons_self)
    | literal kind text span => exact congrArg (Expr.literal kind text) (h _ List.mem_cons_self)
    | other span => exact congrArg Expr.other (h _ List.mem_cons_self)

instance : LawfulPlaced ArgumentName where
  relocate_eq_self {g n} h := by
    cases n
    exact congrArg (ArgumentName.mk · _) (relocate_eq_self h)

instance : LawfulPlaced Argument where
  relocate_eq_self {g a} h := by
    simp only [places_argument, List.forall_mem_append, List.forall_mem_singleton] at h
    show Argument.mk _ _ _ = a
    rw [relocate_eq_self h.1.1, relocate_eq_self h.1.2, h.2]
    rfl

instance : LawfulPlaced ArgumentList where
  relocate_eq_self {g l} h := by
    simp only [places_argumentList, List.forall_mem_append, List.forall_mem_singleton] at h
    show ArgumentList.mk _ _ _ = l
    rw [relocate_eq_self h.1.1, h.1.2, h.2]
    rfl

instance : LawfulPlaced Attribute where
  relocate_eq_self {g a} h := by
    simp only [places_attribute, List.forall_mem_append, List.forall_mem_singleton] at h
    show Attribute.mk _ _ _ = a
    rw [relocate_eq_self h.1.1.1, h.1.1.2, relocate_eq_self h.1.2, h.2]
    simp only [Place.span, TypeExpr.withSpan_span]

instance : LawfulPlaced AttributeList where
  relocate_eq_self {g l} h := by
    simp only [places_attributeList, List.forall_mem_append, List.forall_mem_singleton] at h
    show AttributeList.mk _ _ _ = l
    rw [relocate_eq_self h.1.1, relocate_eq_self h.1.2, h.2]
    rfl

@[simp] theorem erase_argument (name : Option ArgumentName) (value : Expr) (span : Span) :
    erase (⟨name, value, span⟩ : Argument) = ⟨erase name, erase value, default⟩ := rfl
@[simp] theorem erase_argumentList (opening closing : Span) (arguments : List Argument) :
    erase (⟨opening, closing, arguments⟩ : ArgumentList) = ⟨default, default, erase arguments⟩ :=
  rfl
@[simp] theorem erase_attribute (name : TypeExpr) (arguments : Option ArgumentList) (span : Span) :
    erase (⟨name, arguments, span⟩ : Attribute) = ⟨erase name, erase arguments, default⟩ := by
  cases name <;> rfl
@[simp] theorem erase_attributeList (target : Option Ident) (attributes : List Attribute)
    (span : Span) : erase (⟨target, attributes, span⟩ : AttributeList) =
      ⟨erase target, erase attributes, default⟩ := rfl

/-! ## Declarations -/

instance : Placed Parameter where
  relocate g p := ⟨relocate g p.modifiers, relocate g p.type, relocate g p.name, p.hasDefault,
    g (.node p.span)⟩
  places p := places p.modifiers ++ places p.type ++ places p.name ++ [.node p.span]

instance : Placed Property where
  relocate g p := ⟨relocate g p.attributes, relocate g p.modifiers, relocate g p.type,
    ⟨p.name.name, g (.property p.name.name p.name.span)⟩, g (.node p.span)⟩
  places p := places p.attributes ++ places p.modifiers ++ places p.type ++
    [.property p.name.name p.name.span] ++ [.node p.span]

instance : Placed Constructor where
  relocate g c := ⟨relocate g c.modifiers, relocate g c.name, relocate g c.parameters,
    g (.node c.span)⟩
  places c := places c.modifiers ++ places c.name ++ places c.parameters ++ [.node c.span]

instance : Placed DeclarationHeader where
  relocate g h := ⟨relocate g h.attributes, relocate g h.modifiers, h.kind, relocate g h.name,
    relocate g h.typeParameters, relocate g h.primaryParameters, relocate g h.bases,
    g (.node h.span)⟩
  places h := places h.attributes ++ places h.modifiers ++ places h.name ++
    places h.typeParameters ++ places h.primaryParameters ++ places h.bases ++ [.node h.span]

@[simp] theorem places_parameter (p : Parameter) : places p =
    places p.modifiers ++ places p.type ++ places p.name ++ [.node p.span] := rfl
@[simp] theorem places_property (p : Property) : places p =
    places p.attributes ++ places p.modifiers ++ places p.type ++
      [.property p.name.name p.name.span] ++ [.node p.span] := rfl
@[simp] theorem places_constructor (c : Constructor) : places c =
    places c.modifiers ++ places c.name ++ places c.parameters ++ [.node c.span] := rfl
@[simp] theorem places_header (h : DeclarationHeader) : places h =
    places h.attributes ++ places h.modifiers ++ places h.name ++ places h.typeParameters ++
      places h.primaryParameters ++ places h.bases ++ [.node h.span] := rfl

instance : LawfulPlaced Parameter where
  relocate_eq_self {g p} h := by
    simp only [places_parameter, List.forall_mem_append, List.forall_mem_singleton] at h
    show Parameter.mk _ _ _ _ _ = p
    rw [relocate_eq_self h.1.1.1, relocate_eq_self h.1.1.2, relocate_eq_self h.1.2, h.2]
    rfl

instance : LawfulPlaced Property where
  relocate_eq_self {g p} h := by
    simp only [places_property, List.forall_mem_append, List.forall_mem_singleton] at h
    show Property.mk _ _ _ _ _ = p
    rw [relocate_eq_self h.1.1.1.1, relocate_eq_self h.1.1.1.2, relocate_eq_self h.1.1.2, h.1.2, h.2]
    rfl

instance : LawfulPlaced Constructor where
  relocate_eq_self {g c} h := by
    simp only [places_constructor, List.forall_mem_append, List.forall_mem_singleton] at h
    show Constructor.mk _ _ _ _ = c
    rw [relocate_eq_self h.1.1.1, relocate_eq_self h.1.1.2, relocate_eq_self h.1.2, h.2]
    rfl

instance : LawfulPlaced DeclarationHeader where
  relocate_eq_self {g header} h := by
    simp only [places_header, List.forall_mem_append, List.forall_mem_singleton] at h
    obtain ⟨⟨⟨⟨⟨⟨hattributes, hmodifiers⟩, hname⟩, hparameters⟩, hprimary⟩, hbases⟩, hspan⟩ := h
    show DeclarationHeader.mk _ _ _ _ _ _ _ _ = header
    rw [relocate_eq_self hattributes, relocate_eq_self hmodifiers, relocate_eq_self hname,
      relocate_eq_self hparameters, relocate_eq_self hprimary, relocate_eq_self hbases, hspan]
    rfl

@[simp] theorem erase_property (attributes : List AttributeList) (modifiers : List Ident)
    (type : TypeExpr) (name : Ident) (span : Span) :
    erase (⟨attributes, modifiers, type, name, span⟩ : Property) =
      ⟨erase attributes, erase modifiers, erase type, erase name, default⟩ := rfl

mutual

/-- The declaration with other places. -/
def TypeDeclaration.relocate (g : Place → Span) : TypeDeclaration → TypeDeclaration
  | .mk header members => .mk (Placed.relocate g header) (Member.relocateAll g members)

def Member.relocate (g : Place → Span) : Member → Member
  | .property property => .property (Placed.relocate g property)
  | .constructor constructor => .constructor (Placed.relocate g constructor)
  | .nested declaration => .nested (declaration.relocate g)
  | .other span => .other (g (.node span))

def Member.relocateAll (g : Place → Span) : List Member → List Member
  | [] => []
  | member :: members => member.relocate g :: Member.relocateAll g members

end

mutual

/-- The places in a declaration. -/
def TypeDeclaration.places : TypeDeclaration → List Place
  | .mk header members => Placed.places header ++ Member.placesIn members

def Member.places : Member → List Place
  | .property property => Placed.places property
  | .constructor constructor => Placed.places constructor
  | .nested declaration => declaration.places
  | .other span => [.node span]

def Member.placesIn : List Member → List Place
  | [] => []
  | member :: members => member.places ++ Member.placesIn members

end

instance : Placed TypeDeclaration := ⟨TypeDeclaration.relocate, TypeDeclaration.places⟩
instance : Placed Member := ⟨Member.relocate, Member.places⟩

theorem Member.relocateAll_eq (g : Place → Span) (members : List Member) :
    relocateAll g members = Placed.relocate g members := by
  induction members with
  | nil => rfl
  | cons member members ih => exact congrArg (member.relocate g :: ·) ih

theorem Member.placesIn_eq (members : List Member) : placesIn members = Placed.places members := by
  induction members with
  | nil => rfl
  | cons member members ih => rw [placesIn, ih]; rfl

@[simp] theorem relocate_declaration (g : Place → Span) (header : DeclarationHeader)
    (members : List Member) :
    relocate g (TypeDeclaration.mk header members) = .mk (relocate g header) (relocate g members) := by
  rw [← Member.relocateAll_eq]
  rfl

@[simp] theorem places_declaration (header : DeclarationHeader) (members : List Member) :
    places (TypeDeclaration.mk header members) = places header ++ places members := by
  rw [← Member.placesIn_eq]
  rfl

mutual

theorem TypeDeclaration.relocate_of_fixed {g : Place → Span} : (declaration : TypeDeclaration) →
    (∀ p ∈ Placed.places declaration, g p = p.span) → Placed.relocate g declaration = declaration
  | .mk header members, h => by
    simp only [places_declaration, List.forall_mem_append] at h
    rw [relocate_declaration, relocate_eq_self h.1, Member.relocateAll_of_fixed members h.2]

theorem Member.relocate_of_fixed {g : Place → Span} : (member : Member) →
    (∀ p ∈ Placed.places member, g p = p.span) → Placed.relocate g member = member
  | .property _, h => congrArg Member.property (relocate_eq_self h)
  | .constructor _, h => congrArg Member.constructor (relocate_eq_self h)
  | .nested declaration, h =>
    congrArg Member.nested (TypeDeclaration.relocate_of_fixed declaration h)
  | .other _, h => congrArg Member.other (h _ List.mem_cons_self)

theorem Member.relocateAll_of_fixed {g : Place → Span} : (members : List Member) →
    (∀ p ∈ Placed.places members, g p = p.span) → Placed.relocate g members = members
  | [], _ => rfl
  | member :: members, h => by
    simp only [places_cons, List.forall_mem_append] at h
    rw [relocate_cons, Member.relocate_of_fixed member h.1, Member.relocateAll_of_fixed members h.2]

end

@[simp] theorem erase_declaration (header : DeclarationHeader) (members : List Member) :
    erase (TypeDeclaration.mk header members) = .mk (erase header) (erase members) :=
  relocate_declaration _ header members

@[simp] theorem erase_propertyMember (p : Property) :
    erase (Member.property p) = .property (erase p) := rfl

/-! ## Units -/

def UsingKind.relocate (g : Place → Span) : UsingKind → UsingKind
  | .ofNamespace => .ofNamespace
  | .ofStatic => .ofStatic
  | .ofAlias name => .ofAlias (Placed.relocate g name)

def UsingKind.places : UsingKind → List Place
  | .ofNamespace => []
  | .ofStatic => []
  | .ofAlias name => Placed.places name

instance : Placed UsingKind := ⟨UsingKind.relocate, UsingKind.places⟩

instance : Placed UsingDirective where
  relocate g u := ⟨u.isGlobal, relocate g u.kind, relocate g u.target, g (.node u.span)⟩
  places u := places u.kind ++ places u.target ++ [.node u.span]

instance : Placed NamespaceHeader where
  relocate g h := ⟨relocate g h.name, h.fileScoped, relocate g h.usings, g (.node h.span)⟩
  places h := places h.name ++ places h.usings ++ [.node h.span]

@[simp] theorem places_usingDirective (u : UsingDirective) :
    places u = places u.kind ++ places u.target ++ [.node u.span] := rfl
@[simp] theorem places_namespaceHeader (h : NamespaceHeader) :
    places h = places h.name ++ places h.usings ++ [.node h.span] := rfl

instance : LawfulPlaced UsingKind where
  relocate_eq_self {g kind} h := by
    cases kind with
    | ofAlias name => exact congrArg UsingKind.ofAlias (relocate_eq_self h)
    | _ => rfl

instance : LawfulPlaced UsingDirective where
  relocate_eq_self {g u} h := by
    simp only [places_usingDirective, List.forall_mem_append, List.forall_mem_singleton] at h
    show UsingDirective.mk _ _ _ _ = u
    rw [relocate_eq_self h.1.1, relocate_eq_self h.1.2, h.2]
    rfl

instance : LawfulPlaced NamespaceHeader where
  relocate_eq_self {g header} h := by
    simp only [places_namespaceHeader, List.forall_mem_append, List.forall_mem_singleton] at h
    show NamespaceHeader.mk _ _ _ _ = header
    rw [relocate_eq_self h.1.1, relocate_eq_self h.1.2, h.2]
    rfl

@[simp] theorem erase_namespaceHeader (name : List Ident) (fileScoped : Bool)
    (usings : List UsingDirective) (span : Span) :
    erase (⟨name, fileScoped, usings, span⟩ : NamespaceHeader) =
      ⟨erase name, fileScoped, erase usings, default⟩ := rfl

mutual

def UnitMember.relocate (g : Place → Span) : UnitMember → UnitMember
  | .scope header members => .scope (Placed.relocate g header) (UnitMember.relocateAll g members)
  | .type declaration => .type (Placed.relocate g declaration)

def UnitMember.relocateAll (g : Place → Span) : List UnitMember → List UnitMember
  | [] => []
  | member :: members => member.relocate g :: UnitMember.relocateAll g members

end

mutual

def UnitMember.places : UnitMember → List Place
  | .scope header members => Placed.places header ++ UnitMember.placesIn members
  | .type declaration => Placed.places declaration

def UnitMember.placesIn : List UnitMember → List Place
  | [] => []
  | member :: members => member.places ++ UnitMember.placesIn members

end

instance : Placed UnitMember := ⟨UnitMember.relocate, UnitMember.places⟩

instance : Placed SourceUnit where
  relocate g u := ⟨relocate g u.usings, relocate g u.members, g (.gap u.span)⟩
  places u := places u.usings ++ places u.members ++ [.gap u.span]

theorem UnitMember.relocateAll_eq (g : Place → Span) (members : List UnitMember) :
    relocateAll g members = Placed.relocate g members := by
  induction members with
  | nil => rfl
  | cons member members ih => exact congrArg (member.relocate g :: ·) ih

theorem UnitMember.placesIn_eq (members : List UnitMember) :
    placesIn members = Placed.places members := by
  induction members with
  | nil => rfl
  | cons member members ih => rw [placesIn, ih]; rfl

@[simp] theorem relocate_scope (g : Place → Span) (header : NamespaceHeader)
    (members : List UnitMember) :
    relocate g (UnitMember.scope header members) = .scope (relocate g header) (relocate g members) := by
  rw [← UnitMember.relocateAll_eq]
  rfl

@[simp] theorem places_scope (header : NamespaceHeader) (members : List UnitMember) :
    places (UnitMember.scope header members) = places header ++ places members := by
  rw [← UnitMember.placesIn_eq]
  rfl

@[simp] theorem places_sourceUnit (u : SourceUnit) :
    places u = places u.usings ++ places u.members ++ [.gap u.span] := rfl

mutual

theorem UnitMember.relocate_of_fixed {g : Place → Span} : (member : UnitMember) →
    (∀ p ∈ Placed.places member, g p = p.span) → Placed.relocate g member = member
  | .scope header members, h => by
    simp only [places_scope, List.forall_mem_append] at h
    rw [relocate_scope, relocate_eq_self h.1, UnitMember.relocateAll_of_fixed members h.2]
  | .type declaration, h =>
    congrArg UnitMember.type (TypeDeclaration.relocate_of_fixed declaration h)

theorem UnitMember.relocateAll_of_fixed {g : Place → Span} : (members : List UnitMember) →
    (∀ p ∈ Placed.places members, g p = p.span) → Placed.relocate g members = members
  | [], _ => rfl
  | member :: members, h => by
    simp only [places_cons, List.forall_mem_append] at h
    rw [relocate_cons, UnitMember.relocate_of_fixed member h.1,
      UnitMember.relocateAll_of_fixed members h.2]

end

instance : LawfulPlaced SourceUnit where
  relocate_eq_self {g u} h := by
    simp only [places_sourceUnit, List.forall_mem_append, List.forall_mem_singleton] at h
    show SourceUnit.mk _ _ _ = u
    rw [relocate_eq_self h.1.1, UnitMember.relocateAll_of_fixed u.members h.1.2, h.2]
    rfl

@[simp] theorem erase_scope (header : NamespaceHeader) (members : List UnitMember) :
    erase (UnitMember.scope header members) = .scope (erase header) (erase members) :=
  relocate_scope _ header members

end SettingsLint
