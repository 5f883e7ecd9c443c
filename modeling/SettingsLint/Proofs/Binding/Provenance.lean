import Mathlib.Data.List.Forall2
import SettingsLint.Proofs.Binding.Settling
import SettingsLint.Proofs.Types.LibraryTable
import SettingsLint.Proofs.Types.MapProperties

/-! # Where the properties of a model come from

Every property of a model was bound from a property of the source, in a table that has grown
from the one with the declared types and has grown into the one of the model.
-/

namespace SettingsLint

variable {symbol : PropertySymbol}

/-! ## Declared types -/

/-- What the declarations of a unit make of the library. -/
def SourceUnit.declared (unit : SourceUnit) : DeclareState :=
  DeclareState.declareUnit { table := .withLibrary } unit

namespace DeclareState

/-- What is kept when the declared type is entered and when the declaration is listed. -/
structure Keeps (M : DeclareState → Prop) (declaration : TypeDeclaration) : Prop where
  enter : ∀ s context containing, (∀ outer ∈ containing, outer ∈ s.types) → M s →
    M (s.enter context containing declaration.header).2
  list : ∀ s id context, id ∈ s.types → M s →
    M { s with declared := s.declared ++ [⟨id, declaration, context⟩] }

theorem types_enter (s : DeclareState) (context : Context) (containing : Option TypeId)
    (header : DeclarationHeader) :
    (s.enter context containing header).1 ∈ (s.enter context containing header).2.types ∧
      s.types ⊆ (s.enter context containing header).2.types := by
  unfold enter
  dsimp only
  split
  · next hknown =>
    exact ⟨List.contains_iff_mem.1 (Option.filter_eq_some_iff.1 hknown).2, List.Subset.refl _⟩
  · exact ⟨List.mem_append_right _ List.mem_cons_self, List.subset_append_left _ _⟩

variable {M : DeclareState → Prop}

mutual

theorem declareType_induct {s : DeclareState} (context : Context) {containing : Option TypeId}
    (hs : M s) (hcontaining : ∀ outer ∈ containing, outer ∈ s.types) :
    (declaration : TypeDeclaration) → (∀ d ∈ declaration.withNested, Keeps M d) →
    M (s.declareType context containing declaration) ∧
      s.types ⊆ (s.declareType context containing declaration).types
  | .mk header members, h => by
    obtain ⟨hhead, hnested⟩ := List.forall_mem_cons.1 h
    obtain ⟨hid, hgrown⟩ := types_enter s context containing header
    have henter := hhead.enter s context containing hcontaining hs
    let id := (s.enter context containing header).1
    have hinner := declareNested_induct { context with enclosing := id :: context.enclosing } henter
      hid members hnested
    exact ⟨hhead.list _ _ _ (hinner.2 hid) hinner.1, List.Subset.trans hgrown hinner.2⟩

theorem declareNested_induct {s : DeclareState} (context : Context) {outer : TypeId} (hs : M s)
    (houter : outer ∈ s.types) : (members : List Member) →
    (∀ d ∈ Member.nestedIn members, Keeps M d) →
    M (s.declareNested context outer members) ∧ s.types ⊆ (s.declareNested context outer members).types
  | [], _ => ⟨hs, List.Subset.refl _⟩
  | .nested declaration :: members, h => by
    obtain ⟨hfirst, hrest⟩ := List.forall_mem_append.1 h
    obtain ⟨hs, hgrown⟩ := declareType_induct context hs
      (fun _ heq => Option.some.inj heq ▸ houter) declaration hfirst
    obtain ⟨hs, hgrown'⟩ := declareNested_induct context hs (hgrown houter) members hrest
    exact ⟨hs, List.Subset.trans hgrown hgrown'⟩
  | .property _ :: members, h => declareNested_induct context hs houter members h
  | .constructor _ :: members, h => declareNested_induct context hs houter members h
  | .other _ :: members, h => declareNested_induct context hs houter members h

end

mutual

theorem declareMember_induct {s : DeclareState} (context : Context) (hs : M s) :
    (member : UnitMember) → (∀ d ∈ member.declarations, Keeps M d) →
    M (s.declareMember context member)
  | .scope header members, h => by
    let name :=
      if context.namespaceName = "" then header.dottedName
      else context.namespaceName ++ "." ++ header.dottedName
    exact declareMembers_induct ⟨name, ⟨name, header.usings⟩ :: context.scopes, []⟩ hs members h
  | .type declaration, h =>
    (declareType_induct context hs (fun _ h => absurd h (Option.not_mem_none _)) declaration h).1

theorem declareMembers_induct {s : DeclareState} (context : Context) (hs : M s) :
    (members : List UnitMember) → (∀ d ∈ UnitMember.declarationsIn members, Keeps M d) →
    M (s.declareMembers context members)
  | [], _ => hs
  | member :: members, h => by
    obtain ⟨hfirst, hrest⟩ := List.forall_mem_append.1 h
    exact declareMembers_induct context (declareMember_induct context hs member hfirst) members hrest

end

/-- What every declaration of the unit keeps holds after all of them. -/
theorem declareUnit_induct {s : DeclareState} {unit : SourceUnit}
    (h : ∀ d ∈ unit.declarations, Keeps M d) (hs : M s) : M (s.declareUnit unit) :=
  declareMembers_induct ⟨"", [⟨"", unit.usings⟩], []⟩ hs unit.members h

/-- What is kept when a type is declared holds of the table in the end. -/
structure Declares (J : TypeTable → Prop) (declaration : TypeDeclaration) : Prop where
  declare : ∀ t namespaceName containing, J t →
    J (t.declare namespaceName declaration.name.name declaration.header.kind.typeKind
      (declaration.header.typeParameters.map (·.name)) containing).2

theorem table_declareUnit {J : TypeTable → Prop} {s : DeclareState} {unit : SourceUnit}
    (h : ∀ d ∈ unit.declarations, Declares J d) (hs : J s.table) : J (s.declareUnit unit).table := by
  refine declareUnit_induct (M := (J ·.table))
    (fun d hd => ⟨fun s context containing _ hs => ?_, fun _ _ _ _ hs => hs⟩) hs
  unfold enter
  dsimp only
  split
  · exact hs
  · exact (h d hd).declare _ _ _ hs

/-- What is declared stands in the unit, for one of the types. -/
structure ListedFrom (unit : SourceUnit) (types : List TypeId) (d : Declared) : Prop where
  declaration : d.declaration ∈ unit.declarations
  id : d.id ∈ types

theorem listedFrom_declareUnit {t : TypeTable} {unit : SourceUnit} : ∀ d ∈
    (declareUnit { table := t } unit).declared,
    ListedFrom unit (declareUnit { table := t } unit).types d := by
  refine declareUnit_induct (M := fun s => ∀ d ∈ s.declared, ListedFrom unit s.types d)
    (fun declaration hdeclaration => ⟨fun s context containing _ hs => ?_, fun s id context hid hs => ?_⟩)
    (List.forall_mem_nil _)
  · have hdeclared : (s.enter context containing declaration.header).2.declared = s.declared := by
      unfold enter
      dsimp only
      split <;> rfl
    rw [hdeclared]
    exact fun d hd => { hs d hd with id := (types_enter s context containing _).2 (hs d hd).id }
  · exact List.forall_mem_append.2 ⟨hs, List.forall_mem_singleton.2 ⟨hdeclaration, hid⟩⟩

theorem mem_declareUnit {t : TypeTable} {unit : SourceUnit} {d : Declared}
    (hd : d ∈ (declareUnit { table := t } unit).declared) : d.declaration ∈ unit.declarations :=
  (listedFrom_declareUnit d hd).declaration

/-- The declared types are the definitions that stand behind those of the library. -/
theorem beyond_declared (unit : SourceUnit) :
    TypeTable.withLibrary.Beyond unit.declared.table ∧ ∀ id, id ∈ unit.declared.types ↔
      TypeTable.withLibrary.size ≤ id.index ∧ unit.declared.table.isDefinition id = true := by
  refine declareUnit_induct (M := fun s => TypeTable.withLibrary.Beyond s.table ∧ ∀ id, id ∈ s.types ↔
      TypeTable.withLibrary.size ≤ id.index ∧ s.table.isDefinition id = true)
    (fun declaration _ => ⟨fun s context containing hcontaining hs => ?_, fun _ _ _ _ hs => hs⟩)
    ⟨.refl TypeTable.derived_withLibrary.toRegular, fun id => ⟨nofun, fun hid => absurd hid.1
      (Nat.not_le.2 ((TypeTable.Keeps.refl _).isDefinition hid.2).1)⟩⟩
  unfold enter
  dsimp only
  split
  · exact hs
  · have hdeclares := TypeTable.declares_declare s.table context.namespaceName
      declaration.header.name.name declaration.header.kind.typeKind
      (declaration.header.typeParameters.map (·.name)) containing
    have hnew := hs.1.declare context.namespaceName declaration.header.name.name
      declaration.header.kind.typeKind (declaration.header.typeParameters.map (·.name)) containing
      fun outer houter => ((TypeTable.Keeps.refl _).isDefinition
        ((hs.2 outer).mp (hcontaining outer houter)).2).1
    obtain ⟨_, _, _, -, -, hshape⟩ := hdeclares.shape
    refine ⟨hnew, fun id => ?_⟩
    rw [List.mem_append, List.mem_singleton, hs.2]
    constructor
    · rintro (⟨hbehind, hid⟩ | rfl)
      · exact ⟨hbehind, (hdeclares.keeps.isDefinition hid).2⟩
      · exact ⟨Nat.le_trans hs.1.size_le hdeclares.fresh, TypeTable.isDefinition_of_shape hshape⟩
    · rintro ⟨hbehind, hid⟩
      exact (hdeclares.only hid).imp_left fun hold => ⟨hbehind, hold⟩

end DeclareState

/-! ## Properties -/

/-- The symbol was bound from a property of one of the declarations, in a regular table between the
    two. -/
structure PropertySymbol.BoundIn (start stop : TypeTable) (declared : List Declared)
    (symbol : PropertySymbol) : Prop where
  source : ∃ d ∈ declared, ∃ p ∈ d.declaration.properties, ∃ s : BindState,
    s.table.Regular ∧ start.Extends s.table ∧ (Bind.property d.context p s).2.table.Extends stop ∧
      symbol = (Bind.property d.context p s).1

theorem PropertySymbol.BoundIn.mono {start stop stop' : TypeTable} {declared : List Declared} (h : symbol.BoundIn start stop declared) (hstop : stop.Extends stop') :
    symbol.BoundIn start stop' declared := by
  obtain ⟨d, hd, p, hp, s, hregular, hstart, hgrown, rfl⟩ := h.source
  exact ⟨d, hd, p, hp, s, hregular, hstart, TypeTable.Growth.trans hgrown hstop, rfl⟩

/-- The table has grown from the declared types, and its properties were bound on the way. -/
structure DeclareState.Bound (declared : DeclareState) (t : TypeTable) : Prop where
  grown : declared.table.Extends t
  holds : t.Holds (·.BoundIn declared.table t declared.declared)

/-- From a table with bound properties one gets to another one. -/
def DeclareState.Binds (declared : DeclareState) (t t' : TypeTable) : Prop :=
  declared.Bound t → t.Extends t' ∧ declared.Bound t'

open TypeTable (Growth) in
instance (declared : DeclareState) : Growth declared.Binds where
  refl t h := ⟨.refl t, h⟩
  trans h g ht :=
    have hu := h ht
    have hv := g hu.2
    ⟨Growth.trans hu.1 hv.1, hv.2⟩
  intern t shape depth hbuilt ht :=
    have hgrown : t.Extends (t.intern shape depth).2 := Growth.intern t shape depth hbuilt
    ⟨hgrown, Growth.trans ht.grown hgrown,
      (ht.holds.imp fun _ h => h.mono hgrown).intern shape depth⟩
  change t f hf ht :=
    have hgrown : t.Extends { t with entries := t.entries.mapIdx f } := Growth.change t f hf
    ⟨hgrown, Growth.trans ht.grown hgrown, 
      (ht.holds.imp fun _ h => h.mono hgrown).change fun i => (hf i).properties⟩

theorem TypeTable.Holds.addProperty {P : PropertySymbol → Prop} {t : TypeTable} (h : t.Holds P)
    (id : TypeId) (hsymbol : P symbol) :
    (t.addProperty id symbol).Holds P := by
  rw [TypeTable.addProperty]
  split
  · rw [update_eq]
    intro e he p hp
    obtain ⟨i, hi, rfl⟩ := Array.mem_mapIdx.1 he
    have hentry := h _ (Array.getElem_mem hi)
    split at hp
    · rcases List.mem_append.1 hp with hp | hp
      · exact hentry p hp
      · rwa [List.mem_singleton.1 hp]
    · exact hentry p hp
  · exact h

/-- Types are asked for behind those of the library, in a table with bound properties. -/
theorem DeclareState.admits_bound (declared : DeclareState) :
    Bind.Admits fun t => TypeTable.withLibrary.Beyond t ∧ declared.Bound t where
  regular h := h.1.toRegular
  intern h hbuilt hproper hparts hgeneric :=
    have hbinds : declared.Binds _ _ := TypeTable.Growth.intern _ _ 0 hbuilt
    ⟨h.1.intern hbuilt hproper hparts hgeneric, (hbinds h.2).2⟩

/-- A declaration is bound in a table with bound properties. -/
theorem DeclareState.accepts_bound {unit : SourceUnit} {d : Declared} (hd : d ∈ unit.declared.declared) :
    Bind.Accepts (fun t => TypeTable.withLibrary.Beyond t ∧ unit.declared.Bound t) d where
  toAdmits := admits_bound unit.declared
  update {t f} h hkeeps hdepth hmark hnamed :=
    have hid := ((beyond_declared unit).2 d.id).mp (listedFrom_declareUnit d hd).id
    have hdefinition := ((TypeTable.Keeps.of_extends h.2.grown).isDefinition hid.2).2
    have hbinds : unit.declared.Binds t (t.update d.id f) := TypeTable.Growth.update t d.id hkeeps
    ⟨h.1.update hid.1 hdefinition hkeeps.shape hdepth hmark hnamed, (hbinds h.2).2⟩
  addProperty p hp s hs := by
    obtain ⟨⟨hbeyond, hbound⟩, hgrown, -⟩ :=
      Bind.gives_property (admits_bound unit.declared) d.context p hs
    have hid := ((beyond_declared unit).2 d.id).mp (listedFrom_declareUnit d hd).id
    have hadd := TypeTable.Extends.addProperty (Bind.property d.context p s).2.table d.id
      (Bind.property d.context p s).1
    refine ⟨?_, TypeTable.Growth.trans hbound.grown hadd, ?_⟩
    · exact hbeyond.addProperty hid.1 _
    · exact (hbound.holds.imp fun _ h => h.mono hadd).addProperty d.id
        ⟨d, hd, p, hp, s, hs.1.toRegular, hs.2.grown, hadd, rfl⟩

/-- The table that the declarations of a unit are bound in, before it is completed. -/
theorem Model.beyond_ofUnit (unit : SourceUnit) : ∃ t : TypeTable, (ofUnit unit).table = t.complete ∧
    TypeTable.withLibrary.Beyond t ∧ unit.declared.Bound t := by
  have hdeclared : unit.declared.Bound unit.declared.table :=
    ⟨.refl _, DeclareState.table_declareUnit (fun _ _ => ⟨fun _ _ _ h => h.declare _ _ _ _ _⟩)
      (TypeTable.holds_withLibrary _)⟩
  have hbound := Bind.gives_forM (s := { table := unit.declared.table })
    (fun d hd _ hu => Bind.gives_declaration (DeclareState.accepts_bound hd) hu)
    ⟨(DeclareState.beyond_declared unit).1, hdeclared⟩
  exact ⟨_, rfl, hbound.inv⟩

/-- The table of a model has grown from the declared types, and its properties were bound on
    the way. -/
theorem Model.bound_ofUnit (unit : SourceUnit) : unit.declared.Bound (ofUnit unit).table := by
  obtain ⟨t, htable, -, hbound⟩ := beyond_ofUnit unit
  rw [htable]
  exact (TypeTable.growth_complete (R := unit.declared.Binds) _ hbound).2

/-- The table of a model is regular. -/
theorem Model.regular_ofUnit (unit : SourceUnit) : (ofUnit unit).table.Regular := by
  obtain ⟨t, htable, hbeyond, -⟩ := beyond_ofUnit unit
  rw [htable]
  exact (hbeyond.derived TypeTable.derived_withLibrary).complete.toRegular

/-- Every property of a model was bound from a property of the source. -/
theorem Model.boundIn_of_mem {unit : SourceUnit} {id : TypeId}
    (h : symbol ∈ (ofUnit unit).table.properties id) :
    symbol.BoundIn unit.declared.table (ofUnit unit).table unit.declared.declared := by
  rw [TypeTable.properties, TypeTable.entry] at h
  cases hentry : (ofUnit unit).table.entries[((ofUnit unit).table.constructedFrom id).index]? with
  | none =>
    rw [hentry] at h
    cases h
  | some e =>
    rw [hentry] at h
    exact (bound_ofUnit unit).holds e (Array.mem_of_getElem? hentry) symbol h

/-! ## Attributes -/

/-- The results of actions that run one after the other come from states on the way. -/
theorem Bind.forall₂_mapM {R : BindState → BindState → Prop} [hR : Growth R] {k : α → Bind β}
    [hk : ∀ a, Steps R (k a)] (as : List α) (s : BindState) :
    List.Forall₂ (fun a b => ∃ t, R s t ∧ R (k a t).2 (as.mapM k s).2 ∧ b = (k a t).1) as
      (as.mapM k s).1 := by
  induction as generalizing s with
  | nil => exact .nil
  | cons a as ih =>
    rw [List.mapM_cons]
    have hfirst := (hk a).steps s
    have hrest := Steps.steps (R := R) (x := as.mapM k) (k a s).2
    refine .cons ⟨s, hR.refl s, hrest, rfl⟩ ((ih (k a s).2).imp fun _ _ ⟨t, ht, hstop, hb⟩ => ?_)
    exact ⟨t, hR.trans hfirst ht, hstop, hb⟩

/-- The symbol of an attribute was bound from the attribute in a table between the two. -/
structure AppliedAttribute.BoundFrom (start stop : TypeTable) (context : Context) (a : Attribute)
    (symbol : AppliedAttribute) : Prop where
  source : ∃ s : BindState, start.Extends s.table ∧
    (Bind.appliedAttribute context a s).2.table.Extends stop ∧
      symbol = (Bind.appliedAttribute context a s).1

/-- The attributes of a symbol were bound from those of the property one by one. -/
theorem Bind.forall₂_attributes {start stop : TypeTable} {context : Context} {p : Property}
    {s : BindState} (hstart : start.Extends s.table)
    (hstop : (property context p s).2.table.Extends stop) :
    List.Forall₂ (AppliedAttribute.BoundFrom start stop context) p.ownAttributes
      (property context p s).1.attributes := by
  have htype := Steps.steps (R := fun s t => TypeTable.Extends s.table t.table)
    (x := type context p.type) s
  have hall := forall₂_mapM (R := fun s t => TypeTable.Extends s.table t.table)
    (k := appliedAttribute context) p.ownAttributes (type context p.type s).2
  refine hall.imp fun a symbol ⟨t, ht, hgrown, hsymbol⟩ => ⟨t, ?_, ?_, hsymbol⟩
  · exact TypeTable.Growth.trans (TypeTable.Growth.trans hstart htype) ht
  · exact TypeTable.Growth.trans hgrown hstop

/-- The symbol of an attribute is the attribute with its class, the constructors of the class as
    they are known then, and a value for each argument. -/
theorem Bind.appliedAttribute_eq (context : Context) (a : Attribute) (s : BindState) :
    ∃ values : List Constant, values.length = a.writtenArguments.length ∧
      (appliedAttribute context a s).1 = a.applied (attributeClass context a s).1
        (((attributeClass context a s).1.map
          (appliedAttribute context a s).2.table.constructors).getD []) values := by
  let rest (cls : Option TypeId) : Bind AppliedAttribute := do
    let values ← a.writtenArguments.mapM fun argument => constant context argument.value
    let t ← table
    return a.applied cls ((cls.map t.constructors).getD []) values
  have hrest (cls : Option TypeId) (u : BindState) : ∃ values : List Constant,
      values.length = a.writtenArguments.length ∧ (rest cls u).1
        = a.applied cls ((cls.map (rest cls u).2.table.constructors).getD []) values := by
    have hlength := (forall₂_mapM (R := fun s t => TypeTable.Extends s.table t.table)
      (k := fun argument : Argument => constant context argument.value) a.writtenArguments u).length_eq
    exact ⟨_, hlength.symm, rfl⟩
  have happlied : appliedAttribute context a = attributeClass context a >>= fun cls =>
      if cls.isNone then
        report Diagnostic.unresolvedAttributeId
          ("the attribute `" ++ a.simpleName ++ "` could not be found") a.name.span >>= fun _ => rest cls
      else rest cls := rfl
  simp only [happlied, bind_apply]
  generalize attributeClass context a s = found
  obtain ⟨cls, u⟩ := found
  cases cls with
  | none => exact hrest none _
  | some id => exact hrest (some id) u

/-! ## Diagnostics -/

/-- What is reported on the way from one state to another is a name that does not resolve. -/
def BindState.OnlyNames (s t : BindState) : Prop :=
  ∀ d ∈ t.diagnostics, d ∈ s.diagnostics ∨
    d.id ∈ [Diagnostic.unresolvedTypeId, Diagnostic.unresolvedAttributeId]

instance : Bind.Growth BindState.OnlyNames where
  refl _ _ hd := .inl hd
  trans h g d hd := (g d hd).elim (h d) .inr
  table _ _ _ _ hd := .inl hd
  report s d hid e he := by
    rcases List.mem_append.1 he with he | he
    · exact .inl he
    · exact .inr (List.mem_singleton.1 he ▸ hid)

/-- A model reports only names that do not resolve. -/
theorem Model.id_of_mem_diagnostics {unit : SourceUnit} {d : Diagnostic}
    (h : d ∈ (ofUnit unit).diagnostics) :
    d.id ∈ [Diagnostic.unresolvedTypeId, Diagnostic.unresolvedAttributeId] := by
  have hforM : Bind.Steps BindState.OnlyNames (unit.declared.declared.forM Bind.declaration) := by
    refine .forM fun d _ => Bind.steps_declaration d fun p _ => ⟨fun s => ?_⟩
    exact Bind.Steps.steps (R := BindState.OnlyNames) (x := Bind.property d.context p) s
  exact (hforM.steps { table := unit.declared.table } d h).resolve_left List.not_mem_nil

end SettingsLint
