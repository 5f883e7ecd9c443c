import SettingsLint.Proofs.Analysis.Layout
import SettingsLint.Proofs.Binding.Registry
import SettingsLint.Proofs.Token.Lexemes
import SettingsLint.Proofs.Tree.Preorder

/-! # The declared types of a text

Every declaration of a text is listed once, in order. The types of its model are the declared
types without repetitions, and each has the properties of all its declarations, in the order of
the source and with what is written there.
-/

namespace SettingsLint

open Placed (places)

/-! ## The names of a text -/

/-- If a name stands at the place, it is a plain one. -/
def Place.IsPlain : Place → Prop
  | .name text _ => IsPlainName text
  | _ => True

/-- All names in the value are plain. -/
abbrev Placed.IsPlain [Placed α] (a : α) : Prop := ∀ p ∈ places a, p.IsPlain

namespace Placed

theorem isPlain_cons [Placed α] {a : α} {as : List α} :
    IsPlain (a :: as) ↔ IsPlain a ∧ IsPlain as := by
  rw [IsPlain, places_cons, List.forall_mem_append]

theorem isPlain_declaration {header : DeclarationHeader} {members : List Member} :
    IsPlain (TypeDeclaration.mk header members) ↔ IsPlain header ∧ IsPlain members := by
  rw [IsPlain, places_declaration, List.forall_mem_append]

theorem isPlain_scope {header : NamespaceHeader} {members : List UnitMember} :
    IsPlain (UnitMember.scope header members) ↔ IsPlain header ∧ IsPlain members := by
  rw [IsPlain, places_scope, List.forall_mem_append]

end Placed

theorem Source.isPlain_unit_parse (text : String) : Placed.IsPlain (parse text).unit := by
  intro p hp
  cases (within_parse text).unit p hp with
  | name ht hkind =>
    exact isPlainName_of_isNamePart (Token.isNamePart_of_mem_lexToEnd ht hkind)
  | _ => trivial

theorem not_mem_intercalate {parts : List String} (h : ∀ part ∈ parts, '+' ∉ part.toList) :
    '+' ∉ (".".intercalate parts).toList := by
  induction parts with
  | nil => simp
  | cons part parts ih =>
    obtain ⟨hpart, hparts⟩ := List.forall_mem_cons.1 h
    cases parts with
    | nil => simpa using hpart
    | cons next parts =>
      rw [String.intercalate_cons_cons, String.toList_append, String.toList_append, List.mem_append,
        List.mem_append]
      rintro ((hmem | hmem) | hmem)
      · exact hpart hmem
      · simp at hmem
      · exact ih hparts hmem

/-- The name of a namespace in a namespace is made of names, if both are. -/
theorem NamespaceHeader.not_mem_nameWithin {header : NamespaceHeader} (h : Placed.IsPlain header)
    {outer : String} (houter : '+' ∉ outer.toList) : '+' ∉ (header.nameWithin outer).toList := by
  have hdotted : '+' ∉ header.dottedName.toList := by
    apply not_mem_intercalate
    intro part hpart
    obtain ⟨name, hname, rfl⟩ := List.mem_map.1 hpart
    have hplace : Place.name name.name name.span ∈ places header := by
      rw [places_namespaceHeader, List.mem_append, List.mem_append]
      exact .inl (.inl (mem_places_list.2 ⟨name, hname, List.mem_cons_self⟩))
    have hplain : IsPlainName name.name := h _ hplace
    exact fun hmem => (hplain _ hmem).2.1 rfl
  rw [nameWithin]
  split
  · exact hdotted
  · rw [String.toList_append, String.toList_append, List.mem_append, List.mem_append]
    rintro ((hmem | hmem) | hmem)
    · exact houter hmem
    · simp at hmem
    · exact hdotted hmem

theorem DeclarationHeader.isPlainName {header : DeclarationHeader} (h : Placed.IsPlain header) :
    IsPlainName header.name.name := by
  apply h (.name header.name.name header.name.span)
  simp [places]

mutual

theorem TypeDeclaration.plain_keyed {make : String → Nat → TypeKey}
    (hmake : ∀ name arity, IsPlainName name → (make name arity).Plain) :
    (declaration : TypeDeclaration) → Placed.IsPlain declaration →
    ∀ e ∈ declaration.keyed make, e.1.Plain
  | .mk header members, h, e, he => by
    obtain ⟨hheader, hmembers⟩ := Placed.isPlain_declaration.1 h
    have hown := hmake header.name.name header.typeParameters.length (header.isPlainName hheader)
    rcases List.mem_cons.1 he with rfl | he
    · exact hown
    · exact Member.plain_keyedIn hown members hmembers e he

theorem Member.plain_keyedIn {outer : TypeKey} (houter : outer.Plain) : (members : List Member) →
    Placed.IsPlain members → ∀ e ∈ Member.keyedIn outer members, e.1.Plain
  | [], _, _, he => absurd he List.not_mem_nil
  | .nested declaration :: members, h, e, he => by
    obtain ⟨hfirst, hrest⟩ := Placed.isPlain_cons.1 h
    rcases List.mem_append.1 he with he | he
    · have hmake (name : String) (arity : Nat) (hname : IsPlainName name) :
          (outer.nested name arity).Plain := ⟨houter, hname⟩
      exact declaration.plain_keyed hmake hfirst e he
    · exact Member.plain_keyedIn houter members hrest e he
  | .property p :: members, h, e, he =>
    Member.plain_keyedIn houter members (Placed.isPlain_cons.1 h).2 e he
  | .constructor c :: members, h, e, he =>
    Member.plain_keyedIn houter members (Placed.isPlain_cons.1 h).2 e he
  | .other span :: members, h, e, he =>
    Member.plain_keyedIn houter members (Placed.isPlain_cons.1 h).2 e he

end

mutual

theorem UnitMember.plain_keyed {namespaceName : String} (hname : '+' ∉ namespaceName.toList) :
    (member : UnitMember) → Placed.IsPlain member → ∀ e ∈ member.keyed namespaceName, e.1.Plain
  | .scope header members, h, e, he => by
    obtain ⟨hheader, hmembers⟩ := Placed.isPlain_scope.1 h
    exact UnitMember.plain_keyedIn (header.not_mem_nameWithin hheader hname) members hmembers e he
  | .type declaration, h, e, he => by
    have hmake (name : String) (arity : Nat) (hown : IsPlainName name) :
        (TypeKey.top namespaceName name arity).Plain := ⟨hname, hown⟩
    exact declaration.plain_keyed hmake h e he

theorem UnitMember.plain_keyedIn {namespaceName : String} (hname : '+' ∉ namespaceName.toList) :
    (members : List UnitMember) → Placed.IsPlain members →
    ∀ e ∈ UnitMember.keyedIn namespaceName members, e.1.Plain
  | [], _, _, he => absurd he List.not_mem_nil
  | member :: members, h, e, he => by
    obtain ⟨hfirst, hrest⟩ := Placed.isPlain_cons.1 h
    rcases List.mem_append.1 he with he | he
    · exact UnitMember.plain_keyed hname member hfirst e he
    · exact UnitMember.plain_keyedIn hname members hrest e he

end

/-- The keys of a text are plain. -/
theorem Source.plain_keyed (text : String) : ∀ e ∈ (parse text).unit.keyed, e.1.Plain := by
  have hunit := isPlain_unit_parse text
  rw [Placed.IsPlain, places_sourceUnit, List.forall_mem_append, List.forall_mem_append] at hunit
  exact UnitMember.plain_keyedIn (by simp) _ hunit.1.2

/-- The declared types of a text are those with the keys of its declarations. -/
theorem Source.registers_declared (text : String) :
    (parse text).unit.declared.Registers ((parse text).unit.keyed.map (·.1))
      (UnitMember.keyedLastIn "" (parse text).unit.members) :=
  SourceUnit.registers_declared (plain_keyed text)

/-! ## Symbols -/

/-- The symbol is the attribute with some class, and with a value for each argument. -/
def AppliedAttribute.IsOf (a : Attribute) (symbol : AppliedAttribute) : Prop :=
  ∃ (cls : Option TypeId) (constructors : List Signature) (values : List Constant),
    values.length = a.writtenArguments.length ∧ symbol = a.applied cls constructors values

/-- The symbol has the name and the places of the property, and its attributes are those of the
    lists that apply to the property. -/
structure PropertySymbol.Describes (p : Property) (symbol : PropertySymbol) : Prop where
  name : symbol.name = p.name.name
  nameSpan : symbol.nameSpan = p.name.span
  span : symbol.span = p.span
  attributes : List.Forall₂ AppliedAttribute.IsOf p.ownAttributes symbol.attributes

theorem PropertySymbol.IsOf.describes {p : Property} {symbol : PropertySymbol} (h : symbol.IsOf p) :
    symbol.Describes p := by
  obtain ⟨context, s, rfl⟩ := h
  refine ⟨rfl, rfl, rfl, ?_⟩
  have hbound := Bind.forall₂_attributes (.refl s.table)
    (.refl (Bind.property context p s).2.table)
  refine hbound.imp fun a symbol hsymbol => ?_
  obtain ⟨s', -, -, rfl⟩ := hsymbol.source
  obtain ⟨values, hlength, heq⟩ := Bind.appliedAttribute_eq context a s'
  exact ⟨_, _, values, hlength, heq⟩

/-! ## Properties -/

/-- Declaring types gives them no properties. -/
theorem SourceUnit.ownProperties_declared (unit : SourceUnit) (id : TypeId) :
    unit.declared.table.ownProperties id = [] := by
  have hnone : unit.declared.table.Holds fun _ => False :=
    DeclareState.table_declareUnit (fun _ _ => ⟨fun _ _ _ h => h.declare _ _ _ _ _⟩)
      (TypeTable.holds_withLibrary _)
  rcases Nat.lt_or_ge id.index unit.declared.table.size with hlt | hge
  · apply List.eq_nil_iff_forall_not_mem.2
    intro p hp
    rw [TypeTable.ownProperties, TypeTable.entry, Array.getElem?_eq_getElem hlt] at hp
    exact hnone _ (Array.getElem_mem hlt) p hp
  · exact TypeTable.ownProperties_of_le hge

/-- The table of a model has the declared types with their shapes. -/
theorem Model.keeps_declared (unit : SourceUnit) :
    unit.declared.table.Keeps (ofUnit unit).table :=
  .of_extends (bound_ofUnit unit).grown

/-- A type of the model of a text has the properties of all declarations with its key, in source
    order. -/
theorem Model.forall₂_properties (text : String) {key : TypeKey} {id : TypeId}
    (hid : id ∈ (ofUnit (Source.parse text).unit).types)
    (hkey : (ofUnit (Source.parse text).unit).table.HasKey key id) :
    List.Forall₂ PropertySymbol.IsOf
      (((Source.parse text).unit.keyed.filter (·.1 = key)).flatMap (·.2.properties))
      ((ofUnit (Source.parse text).unit).table.properties id) := by
  let unit := (Source.parse text).unit
  have hregisters := Source.registers_declared text
  obtain ⟨key', -, hkey'⟩ := exists_of_forall₂ hregisters.types hid
  obtain rfl := (hkey'.mono (keeps_declared unit)).unique hkey
  -- Binding adds the properties, completion keeps them.
  have hdefined : ∀ d ∈ unit.declared.declared, unit.declared.table.isDefinition d.id = true := by
    intro d hd
    obtain ⟨entry, -, hentry⟩ := exists_of_forall₂ hregisters.declared hd
    rw [TypeTable.isDefinition, hentry.hasKey.metadataName?_eq]
    rfl
  obtain ⟨symbols, hsymbols, hall⟩ := Bind.forall₂_forM_declaration unit.declared.declared
    { table := unit.declared.table } hdefined id
  have hcomplete := TypeTable.growth_complete (R := TypeTable.SameProperties)
    (unit.declared.declared.forM Bind.declaration { table := unit.declared.table }).2.table
  have hown : (ofUnit unit).table.ownProperties id = symbols := by
    rw [SourceUnit.ownProperties_declared] at hsymbols
    exact (hcomplete.same id).trans hsymbols
  have hfrom : (ofUnit unit).table.constructedFrom id = id := by
    rw [TypeTable.constructedFrom]
    cases hkey with
    | top hshape => rw [hshape]
    | nested _ hshape => rw [hshape]
  have hparts : (unit.declared.declared.filter (·.id = id)).flatMap (·.declaration.properties)
      = (unit.keyed.filter (·.1 = key')).flatMap (·.2.properties) := by
    have hdeclared := congrArg (List.flatMap TypeDeclaration.properties)
      (hregisters.filter_declared hid hkey')
    rw [UnitMember.filter_keyedLastIn, List.flatMap_map, List.flatMap_map] at hdeclared
    exact hdeclared
  have hproperties : (ofUnit unit).table.properties id = symbols := by
    rw [TypeTable.properties, hfrom]
    exact hown
  rw [hparts, ← hproperties] at hall
  exact hall

/-! ## Binding -/

/-- Binding a text loses and repeats nothing. Its declarations are those at the ends of its paths,
    each once and in the order of the paths. The types of its model are the keys of its
    declarations without the later repetitions, and no type comes twice. The properties of a type
    are those of all declarations with its key, in source order. -/
theorem Model.binds_each_once (text : String) :
    let unit := (Source.parse text).unit
    let model := ofUnit unit
    (∃ paths : List (List Nat), paths.Pairwise (· < ·) ∧
      (∀ path, path ∈ paths ↔ (unit.at? path).isSome = true) ∧
      paths.map unit.at? = unit.declarations.map some) ∧
    unit.keyed.map (·.2) = unit.declarations ∧
    model.types.Nodup ∧
    List.Forall₂ (fun key id => model.table.HasKey key id ∧ List.Forall₂ PropertySymbol.Describes
        ((unit.keyed.filter (·.1 = key)).flatMap (·.2.properties)) (model.table.properties id))
      (unit.keyed.map (·.1)).eraseDups model.types := by
  intro unit model
  have hregisters := Source.registers_declared text
  refine ⟨unit.declarations_eq_at?, unit.map_snd_keyed, hregisters.nodup_types, ?_⟩
  apply forall₂_imp_of_mem_right hregisters.types
  intro key id hid hkey
  have hkey := hkey.mono (keeps_declared unit)
  exact ⟨hkey, (forall₂_properties text hid hkey).imp fun _ _ hsymbol => hsymbol.describes⟩

end SettingsLint
