import SettingsLint.Proofs.Binding.Resolution
import SettingsLint.Proofs.Fix.ComparedArgument

/-! # The attributes that the fix edits

The rule looks at the attributes whose class is one of the binding attributes, the fix edits those
that are written like one. `TypeArgumentFix.edits_eq_bindingAttributes` says that these are the
same, up to names that do not resolve, unless the source gives the names another meaning.
-/

namespace SettingsLint

open TypeArgumentFix (isBinding editFor typeOfFor withoutSuffix attributeNames)

variable {a : Attribute}

/-! ## Display forms of binding attributes -/

/-- The names of the classes of binding attributes. -/
def bindingClassNames : List String := attributeNames.map (· ++ "Attribute")

theorem bindingAttributeNames_eq :
    bindingAttributeNames = bindingClassNames.map ("Spectre.Console.Cli." ++ ·) := by decide

theorem not_mem_bindingAttributeNames_of_keyword {special : SpecialType} {keyword : String}
    (h : special.keyword? = some keyword) : keyword ∉ bindingAttributeNames := by
  have hall : ∀ special ∈ SpecialType.all, ∀ keyword ∈ special.keyword?,
      keyword ∉ bindingAttributeNames := by decide
  exact hall special (by cases special <;> decide) keyword h

theorem not_mem_bindingAttributeNames_of_getLast? {text : String} {c : Char}
    (h : text.toList.getLast? = some c) (hc : c ≠ 'e') : text ∉ bindingAttributeNames := by
  intro hmem
  have hall : ∀ text ∈ bindingAttributeNames, text.toList.getLast? = some 'e' := by decide
  rw [hall text hmem, Option.some.injEq] at h
  exact hc h.symm

/-- A plain name after what it lies in is a display form of a binding attribute only if the name
    is one of the class. -/
theorem mem_bindingClassNames_of_qualifiedDisplay {name namespaceName : String} {outer : Option String}
    (hname : IsPlainName name) (h : qualifiedDisplay name namespaceName outer ∈ bindingAttributeNames) :
    name ∈ bindingClassNames := by
  have hdot : '.' ∉ name.toList := fun hmem => (hname _ hmem).1 rfl
  rw [bindingAttributeNames_eq, List.mem_map] at h
  obtain ⟨cls, hcls, htext⟩ := h
  have hdot' : '.' ∉ cls.toList := by
    have hall : ∀ cls ∈ bindingClassNames, '.' ∉ cls.toList := by decide
    exact hall cls hcls
  have hchars := congrArg String.toList htext
  rw [String.toList_append, show "Spectre.Console.Cli.".toList = "Spectre.Console.Cli".toList ++ ['.'] by decide,
    List.append_assoc] at hchars
  have hqualified {outer : String} (houter : (outer ++ "." ++ name).toList = "Spectre.Console.Cli".toList
      ++ '.' :: cls.toList) : name ∈ bindingClassNames := by
    rw [String.toList_append, String.toList_append, List.append_assoc] at houter
    rw [String.toList_injective (split_at_last houter hdot hdot').2]
    exact hcls
  cases outer with
  | some outer => exact hqualified hchars.symm
  | none =>
    rw [qualifiedDisplay] at hchars
    split at hchars
    · exact absurd (hchars ▸ List.mem_append_right _ List.mem_cons_self) hdot
    · exact hqualified hchars.symm

namespace TypeTable

variable {declared : List TypeDeclaration} {t : TypeTable} {name : String} {id : TypeId}

theorem display_of_special {special : SpecialType} {keyword : String}
    (hdefinition : t.isDefinition id = true) (hspecial : t.specialOf id = some special)
    (hkeyword : special.keyword? = some keyword) : t.display id = keyword := by
  obtain ⟨_, _, _, _, _, _, hshape⟩ := exists_definition hdefinition
  rw [display, hshape]
  simp only [hspecial, Option.bind_some, hkeyword]

/-- A type that is shown like a binding attribute is called like one by every name for it. -/
theorem Resolves.mem_bindingClassNames (h : t.Resolves name id) (hname : IsPlainName name)
    (hdisplay : t.display id ∈ bindingAttributeNames) : name ∈ bindingClassNames := by
  cases h with
  | plain hcalls =>
    cases hcalls with
    | definition hshape harity =>
      rw [display, hshape] at hdisplay
      dsimp only at hdisplay
      split at hdisplay
      · next keyword hkeyword =>
        obtain ⟨special, -, hkeyword⟩ := Option.bind_eq_some_iff.1 hkeyword
        exact absurd hdisplay (not_mem_bindingAttributeNames_of_keyword hkeyword)
      · rw [if_pos (List.isEmpty_iff_length_eq_zero.2 harity), String.append_empty] at hdisplay
        exact mem_bindingClassNames_of_qualifiedDisplay hname hdisplay
    | parameter hshape _ =>
      rw [display, hshape] at hdisplay
      have hdots : ∀ text ∈ bindingAttributeNames, '.' ∈ text.toList := by decide
      exact absurd rfl (hname _ (hdots name hdisplay)).1
    | word hspecial hdefinition hkeyword _ =>
      obtain ⟨keyword, hkeyword⟩ := Option.isSome_iff_exists.1 hkeyword
      rw [display_of_special hdefinition hspecial hkeyword] at hdisplay
      exact absurd hdisplay (not_mem_bindingAttributeNames_of_keyword hkeyword)
  | generic hcalls hne hshape =>
    -- Generic types are shown with a mark at the end.
    rw [display, hshape] at hdisplay
    dsimp only at hdisplay
    split at hdisplay
    · refine absurd hdisplay (not_mem_bindingAttributeNames_of_getLast? (c := '?') ?_ (by decide))
      simp [String.toList_append]
    · refine absurd hdisplay (not_mem_bindingAttributeNames_of_getLast? (c := '>') ?_ (by decide))
      rw [bracketedDisplay, String.toList_append, String.toList_append, ← List.append_assoc]
      exact List.getLast?_concat

end TypeTable

/-! ## Names that are written like those of binding attributes -/

/-- The names that the class of an attribute can have. -/
def Attribute.classNames (a : Attribute) : List String := [a.simpleName ++ "Attribute", a.simpleName]

/-- The names that the class of an attribute can have that is written like a binding attribute. -/
def reservedNames : List String :=
  attributeNames.flatMap fun name =>
    [name, name ++ "Attribute", name ++ "Attribute" ++ "Attribute"]

theorem eq_or_eq_append_of_withoutSuffix (name : String) :
    name = withoutSuffix name ∨ name = withoutSuffix name ++ "Attribute" := by
  rw [withoutSuffix]
  split
  · next hsuffix =>
    right
    obtain ⟨before, hbefore⟩ := List.isSuffixOf_iff_suffix.1 hsuffix
    apply String.toList_injective
    rw [String.toList_append, String.toList_ofList, ← String.length_toList, ← hbefore, List.length_append,
      Nat.add_sub_cancel, List.take_left]
  · exact .inl rfl

theorem mem_reservedNames (h : isBinding a = true) {name : String}
    (hname : name ∈ a.classNames) : name ∈ reservedNames := by
  have hmem : withoutSuffix a.simpleName ∈ attributeNames := List.contains_iff_mem.1 h
  refine List.mem_flatMap.2 ⟨_, hmem, ?_⟩
  have hcases := eq_or_eq_append_of_withoutSuffix a.simpleName
  rw [Attribute.classNames, List.mem_cons, List.mem_singleton] at hname
  generalize withoutSuffix a.simpleName = stem at hcases
  rcases hcases with heq | heq <;> rcases hname with rfl | rfl <;> simp [heq]

theorem isBinding_of_mem {name : String} (hname : name ∈ a.classNames)
    (h : name ∈ bindingClassNames) : isBinding a = true := by
  rw [isBinding, List.contains_iff_mem]
  rw [Attribute.classNames, List.mem_cons, List.mem_singleton] at hname
  rcases hname with rfl | rfl
  · obtain ⟨stem, hstem, heq⟩ := List.mem_map.1 h
    have hall : ∀ stem ∈ attributeNames, withoutSuffix stem ∈ attributeNames := by decide
    have hchars := congrArg String.toList heq
    rw [String.toList_append, String.toList_append] at hchars
    rw [← String.toList_injective (List.append_cancel_right hchars)]
    exact hall stem hstem
  · have hall : ∀ name ∈ bindingClassNames, withoutSuffix name ∈ attributeNames := by decide
    exact hall _ h

theorem isPlainName_of_mem_classNames (h : Placed.IsPlain a) {name : String}
    (hname : name ∈ a.classNames) : IsPlainName name := by
  have hempty : IsPlainName "" := fun c hc => by cases hc
  have hattribute : IsPlainName "Attribute" := isPlainName_of_all (by decide)
  have hsimple : IsPlainName a.simpleName := by
    rw [Attribute.simpleName]
    cases hwritten : a.name with
    | named isGlobal segments span =>
      have hall := Bind.isPlainName_of_attribute h hwritten
      rw [TypeExpr.simpleName?, ← List.getLast?_map]
      cases hlast : (segments.map (·.name.name)).getLast? with
      | none => exact hempty
      | some last => exact hall last (List.mem_of_getLast? hlast)
    | _ => exact hempty
  rw [Attribute.classNames, List.mem_cons, List.mem_singleton] at hname
  rcases hname with rfl | rfl
  · exact Bind.isPlainName_append hsimple hattribute
  · exact hsimple

/-- Only the classes of binding attributes have such names in the library. -/
theorem LibraryType.reserved_of_mem : ∀ type ∈ all,
    (type.name ∈ reservedNames → type.namespaceName = "Spectre.Console.Cli" ∧
      type.name ∈ bindingClassNames ∧ type.typeParameters = [] ∧ type.special = none) ∧
    ∀ name ∈ type.typeParameters, name ∉ reservedNames := by
  decide +kernel

namespace TypeTable

variable {t : TypeTable} {name : String} {id : TypeId} {arity : Nat}

/-- The types of the library are in the table as they are in the library. -/
def HoldsLibrary (t : TypeTable) : Prop := ∀ {id : TypeId}, id.index < withLibrary.size →
  t.shape id = withLibrary.shape id ∧ t.specialOf id = withLibrary.specialOf id

/-- Of the types of the library only the classes of binding attributes have such a name. -/
theorem Calls.of_reserved (h : t.Calls name arity id) (hlibrary : t.HoldsLibrary)
    (hid : id.index < withLibrary.size) (hname : name ∈ reservedNames) :
    arity = 0 ∧ t.display id ∈ bindingAttributeNames := by
  obtain ⟨hshape_eq, hspecial_eq⟩ := hlibrary hid
  have hmade : withLibrary.MadeFrom [] := madeFrom_withLibrary []
  cases h with
  | definition hshape harity =>
    have hdefined := hmade.definition (hshape_eq.symm.trans hshape)
    cases hdefined.origin with
    | library type hmem hlibrary hnamespace hcontaining hparameters hspecial =>
      subst hlibrary hnamespace hcontaining
      obtain ⟨hcli, hclass, hnone, hplain⟩ := (LibraryType.reserved_of_mem type hmem).1 hname
      rw [hnone] at hparameters
      rw [hplain, or_self, ← hspecial_eq] at hspecial
      refine ⟨harity.symm.trans hparameters, ?_⟩
      rw [display, hshape]
      simp only [hspecial, List.isEmpty_iff_length_eq_zero.2 hparameters, if_true, String.append_empty, hcli]
      rw [bindingAttributeNames_eq]
      exact List.mem_map.2 ⟨_, hclass, rfl⟩
    | source declaration hmem _ => cases hmem
  | parameter hshape _ =>
    rcases hmade.parameter (hshape_eq.symm.trans hshape) with ⟨type, hmem, hparameter⟩ | ⟨d, hmem, _⟩
    · exact absurd hname ((LibraryType.reserved_of_mem type hmem).2 name hparameter)
    · cases hmem
  | word _ _ _ hword =>
    have hall : ∀ name ∈ reservedNames,
        SpecialType.ofKeyword? name = none ∧ name ≠ "dynamic" := by decide
    obtain ⟨hkeyword, hdynamic⟩ := hall name hname
    rw [foundKeyword, hkeyword] at hword
    simp [hdynamic] at hword

theorem Resolves.of_reserved (h : t.Resolves name id) (hlibrary : t.HoldsLibrary)
    (hid : id.index < withLibrary.size) (hname : name ∈ reservedNames) :
    t.display id ∈ bindingAttributeNames := by
  cases h with
  | plain hcalls => exact (hcalls.of_reserved hlibrary hid hname).2
  | @generic definition arguments hcalls hne hshape =>
    -- A generic type of the library has a definition of the library, but no such name.
    have hpart : definition ∈ (withLibrary.shape id).parts := by
      rw [← (hlibrary hid).1, hshape]
      exact List.mem_cons_self
    have hdefinition := derived_withLibrary.toSound.part_lt hpart
    have hnone := (hcalls.of_reserved hlibrary hdefinition hname).1
    exact absurd (List.eq_nil_of_length_eq_zero hnone) hne

end TypeTable

theorem Model.holdsLibrary_ofUnit (unit : SourceUnit) : (ofUnit unit).table.HoldsLibrary := by
  intro id hid
  obtain ⟨t, htable, hbeyond, -⟩ := beyond_ofUnit unit
  have hgrown : t.Extends t.complete := TypeTable.growth_complete t
  have hlt := Nat.lt_of_lt_of_le hid hbeyond.size_le
  rw [htable, hgrown.shape_eq hlt, hgrown.special_eq hlt, TypeTable.shape, TypeTable.specialOf,
    hbeyond.entry_eq hid]
  exact ⟨rfl, rfl⟩

/-! ## In a source -/

/-- The names in the attributes of the properties of a text are plain. -/
theorem Source.isPlain_ownAttribute {text : String} {d : TypeDeclaration}
    (hd : d ∈ (parse text).unit.declarations) {p : Property} (hp : p ∈ d.properties)
    (ha : a ∈ p.ownAttributes) : Placed.IsPlain a := by
  intro place hplace
  apply isPlain_declaration text hd place
  obtain ⟨list, hlist, ha⟩ := List.mem_flatMap.1 ha
  have hin : place ∈ Placed.places p := by
    rw [places_property]
    simp only [List.mem_append]
    refine .inl (.inl (.inl (.inl (mem_places_list.2 ⟨list, (List.mem_filter.1 hlist).1, ?_⟩))))
    exact List.mem_append_left _ (List.mem_append_right _ (mem_places_list.2 ⟨a, ha, hplace⟩))
  obtain ⟨member, hmember, hproperty⟩ := List.mem_filterMap.1 hp
  cases d with
  | mk header members =>
    rw [places_declaration]
    refine List.mem_append_right _ (mem_places_list.2 ⟨member, hmember, ?_⟩)
    cases member with
    | property q =>
      obtain rfl : q = p := Option.some.inj hproperty
      exact hin
    | _ => cases hproperty

/-- The class of an attribute that no alias is called like is called like the attribute in the
    model. -/
theorem AppliedAttribute.BoundFrom.resolves {declared : List TypeDeclaration} {start stop : TypeTable}
    {context : Context} {symbol : AppliedAttribute}
    (h : symbol.BoundFrom start stop context a) (hplain : Placed.IsPlain a)
    (hmade : start.MadeFrom declared)
    (hno : ∀ scope ∈ context.scopes, ∀ name ∈ a.classNames, findAlias scope.usings name = none)
    {id : TypeId} (hcls : symbol.cls = some id) : ∃ name ∈ a.classNames, stop.Resolves name id := by
  obtain ⟨s, hstart, hstop, rfl⟩ := h.source
  obtain ⟨values, -, hsymbol⟩ := Bind.appliedAttribute_eq context a s
  rw [hsymbol] at hcls
  obtain ⟨name, hname, hresolves⟩ := Bind.resolves_attributeClass hplain (hmade.of_extends hstart)
    (fun scope hscope => ⟨hno scope hscope _ (by simp [Attribute.classNames]),
      hno scope hscope _ (by simp [Attribute.classNames])⟩) hcls
  refine ⟨name, hname, hresolves.mono (TypeTable.Growth.trans ?_ hstop)⟩
  -- What follows the lookup of the class only adds to the table.
  obtain ⟨rest, happlied, hrest⟩ : ∃ rest : Option TypeId → Bind AppliedAttribute,
      Bind.appliedAttribute context a = Bind.attributeClass context a >>= rest ∧
      ∀ cls, Bind.Steps (fun s t => TypeTable.Extends s.table t.table) (rest cls) := by
    refine ⟨_, rfl, fun cls => ?_⟩
    infer_instance
  rw [happlied]
  exact (hrest _).steps _

/-- What is chosen from the first of two lists by a test is what is chosen from pairs by a test that
    agrees with it. -/
theorem map_fst_filter_zip {q : α → Bool} {r : α × β → Bool} {as : List α} {bs : List β}
    (h : List.Forall₂ (fun a b => q a = r (a, b)) as bs) :
    ((as.zip bs).filter r).map (·.1) = as.filter q := by
  induction h with
  | nil => rfl
  | cons hpair _ ih =>
    rw [List.zip_cons_cons, List.filter_cons, List.filter_cons, hpair]
    split
    · rw [List.map_cons, ih]
    · exact ih

namespace TypeArgumentFix

variable {d : Diagnostic} {p : Property}

/-- Is the attribute one that binds, or one that is written so and whose class is not found? -/
def bindsOrMayBind (model : Model) (pair : Attribute × AppliedAttribute) : Bool :=
  model.isBindingAttribute pair.2 || (pair.2.cls.isNone && isBinding pair.1)

/-- No alias in effect where the property is declared is called like one of its attributes. -/
def HasNoAlias (unit : SourceUnit) (p : Property) : Prop :=
  ∀ declared ∈ unit.declared.declared, p ∈ declared.declaration.properties →
    ∀ scope ∈ declared.context.scopes, ∀ a ∈ p.ownAttributes, ∀ name ∈ a.classNames,
      findAlias scope.usings name = none

/-- The class of an attribute that is written like a binding attribute is one of the library,
    if it is found. -/
def MeansLibrary (pair : Attribute × AppliedAttribute) : Prop :=
  isBinding pair.1 = true → ∀ id ∈ pair.2.cls, id.index < TypeTable.withLibrary.size

/-- An attribute of a flagged property is written like a binding attribute if and only if it is
    one, unless its class is not found. -/
theorem forall₂_isBinding_eq {text : String} {b : BindingProperty}
    (h : (Source.parse text).Flagged d p b) (halias : HasNoAlias (Source.parse text).unit p)
    (hnames : ∀ pair ∈ p.ownAttributes.zip b.property.attributes, MeansLibrary pair) :
    List.Forall₂ (fun a symbol =>
        isBinding a = bindsOrMayBind (Model.ofUnit (Source.parse text).unit) (a, symbol))
      p.ownAttributes b.property.attributes := by
  obtain ⟨declared, hdeclared, hp, s, hstart, hstop, hsymbol⟩ := h.bound
  have hdeclaration := DeclareState.mem_declareUnit hdeclared
  have hmade := Source.madeFrom_declared text
  rw [hsymbol] at hnames ⊢
  obtain ⟨hlength, hall⟩ := List.forall₂_iff_zip.1 (Bind.forall₂_attributes hstart hstop)
  refine List.forall₂_iff_zip.2 ⟨hlength, fun {a symbol} hmem => ?_⟩
  have ha := (List.of_mem_zip hmem).1
  have hplain := Source.isPlain_ownAttribute hdeclaration hp ha
  rw [bindsOrMayBind, Model.isBindingAttribute, Model.attributeIsOneOf]
  cases hcls : symbol.cls with
  | none => rfl
  | some id =>
    obtain ⟨name, hname, hresolves⟩ := (hall hmem).resolves hplain hmade
      (fun scope hscope => halias declared hdeclared hp scope hscope a ha) hcls
    rw [Option.any_some, Option.isNone_some, Bool.false_and, Bool.or_false, Bool.eq_iff_iff,
      List.contains_iff_mem]
    constructor
    · intro hbinding
      exact hresolves.of_reserved (Model.holdsLibrary_ofUnit _) (hnames _ hmem hbinding id hcls)
        (mem_reservedNames hbinding hname)
    · intro hdisplay
      exact isBinding_of_mem hname
        (hresolves.mem_bindingClassNames (isPlainName_of_mem_classNames hplain hname) hdisplay)

theorem fix?_eq_some {source : Source} (hfix : Fix.isFixable d.id = true)
    (hp : source.unit.propertyAt? d.span.start = some p) (hne : p.ownAttributes.filter isBinding ≠ []) :
    Fix.fix? source d = some ⟨title, key, (p.ownAttributes.filter isBinding).map
      (editFor (typeOfFor source (d.property? isReferenceKey = some "true") p))⟩ := by
  rw [Fix.fix?, if_pos hfix, fix?, hp]
  show (if (List.map _ _).isEmpty then none else some _) = _
  rw [List.isEmpty_map, List.isEmpty_eq_false_iff.2 hne]
  rfl

/-- The fix for a diagnostic edits the binding attributes of the property, and with them only those
    that are written like one and whose class is not found. This is so if no alias in effect is
    called like an attribute of the property, and those that are written like a binding attribute
    do not stand for a type of the source. -/
theorem edits_eq_bindingAttributes {analyzer : Analyzer} {text : String}
    (hd : d ∈ analyzer.check (Source.parse text)) (hfix : Fix.isFixable d.id = true)
    (hp : (Source.parse text).unit.propertyAt? d.span.start = some p)
    (halias : HasNoAlias (Source.parse text).unit p)
    (hnames : ∀ b, (Source.parse text).Flagged d p b →
      ∀ pair ∈ p.ownAttributes.zip b.property.attributes, MeansLibrary pair) :
    ∃ b fix, (Source.parse text).Flagged d p b ∧
      List.Forall₂ AppliedAttribute.IsOf p.ownAttributes b.property.attributes ∧
      Fix.fix? (Source.parse text) d = some fix ∧
      fix.edits = (((p.ownAttributes.zip b.property.attributes).filter
          (bindsOrMayBind (Model.ofUnit (Source.parse text).unit))).map (·.1)).map
        (editFor (typeOfFor (Source.parse text) (d.property? isReferenceKey = some "true") p)) := by
  obtain ⟨p', b, hflagged⟩ := Analyzer.exists_flagged hd hfix
  obtain rfl : p' = p := Option.some.inj (hflagged.propertyAt?_eq.symm.trans hp)
  have hpairs := forall₂_isBinding_eq hflagged halias (hnames b hflagged)
  have hof : List.Forall₂ AppliedAttribute.IsOf p'.ownAttributes b.property.attributes := by
    refine hflagged.forall₂_attributes.imp fun a symbol ⟨constructors, values, happlied⟩ => ?_
    exact ⟨_, _, values, happlied.length_values, happlied.symbol_eq⟩
  have hne : p'.ownAttributes.filter isBinding ≠ [] := by
    -- The rule has found a binding attribute.
    obtain ⟨hfilter, hne⟩ := Model.attributes_of_mem hflagged.mem
    obtain ⟨symbol, hsymbol⟩ := List.exists_mem_of_ne_nil _ hne
    rw [hfilter, List.mem_filter] at hsymbol
    obtain ⟨a, ha, hsame⟩ := exists_of_forall₂ hpairs hsymbol.1
    rw [bindsOrMayBind, hsymbol.2] at hsame
    exact List.ne_nil_of_mem (List.mem_filter.2 ⟨ha, hsame⟩)
  exact ⟨b, _, hflagged, hof, fix?_eq_some hfix hp hne, by rw [map_fst_filter_zip hpairs]⟩

/-! ## A source with an alias -/

/-- At the last property of the sample the names mean what they say, and of its two attributes the
    one that binds is edited. -/
theorem edits_eq_bindingAttributes_sampleSettings :
    ∃ d ∈ Analyzer.aheadOfTime.check (Source.parse sampleSettings), d.span = ⟨380, 381⟩ ∧
      ∃ p, p.ownAttributes.map isBinding = [true, false] ∧
      ∃ b fix, (Source.parse sampleSettings).Flagged d p b ∧
        List.Forall₂ AppliedAttribute.IsOf p.ownAttributes b.property.attributes ∧
        Fix.fix? (Source.parse sampleSettings) d = some fix ∧
        fix.edits = (((p.ownAttributes.zip b.property.attributes).filter
            (bindsOrMayBind (Model.ofUnit (Source.parse sampleSettings).unit))).map (·.1)).map
          (editFor (typeOfFor (Source.parse sampleSettings)
            (d.property? isReferenceKey = some "true") p)) := by
  obtain ⟨d, hd, hspan, hfix⟩ := Analyzer.exists_check_sampleSettings (by decide : 380 ∈ _)
  obtain ⟨p, b, hflagged⟩ := Analyzer.exists_flagged hd hfix
  have hp := hflagged.propertyAt?_eq
  obtain ⟨-, hread, hnames⟩ := attributes_sampleSettings
  have hproperty := hp
  rw [hspan] at hproperty
  simp only [List.map_cons, hproperty, List.cons.injEq, Option.map_some, Option.some.injEq]
    at hread hnames
  obtain ⟨-, hlibrary, haliases⟩ := Analyzer.analyzeClass_sampleSettings
  refine ⟨d, hd, hspan, p, ?_, edits_eq_bindingAttributes hd hfix hp
    (fun declared hdeclared _ scope hscope a ha name hname => ?_) fun b hb pair hpair => ?_⟩
  · have hbinding := congrArg (List.map Prod.fst) hread.2.2.1
    rwa [List.map_map] at hbinding
  · have hsimple : a.simpleName ∈ ["CommandArgument", "Attribute"] :=
      hnames ▸ List.mem_map_of_mem ha
    refine haliases declared hdeclared scope hscope name ?_
    rw [Attribute.classNames] at hname
    generalize a.simpleName = simple at hsimple hname
    rcases List.mem_pair.1 hsimple with rfl | rfl <;> revert hname <;> revert name
    · decide
    · decide
  · obtain ⟨cls, hcls, hproperty⟩ := List.mem_flatMap.1 hb.mem
    exact fun _ => hlibrary cls hcls _
      (Model.property_mem_of_mem hproperty) _ (List.of_mem_zip hpair).2

/-- At the second property of the sample the rule sees a binding attribute through an alias, and
    there is no fix. -/
theorem fix?_sampleSettings_eq_none :
    (Source.parse sampleSettings).errors = [] ∧
    ∃ d ∈ Analyzer.aheadOfTime.check (Source.parse sampleSettings), Fix.isFixable d.id = true ∧
      (∃ p b, (Source.parse sampleSettings).Flagged d p b ∧ b.attributes ≠ []) ∧
      Fix.fix? (Source.parse sampleSettings) d = none := by
  refine ⟨List.isEmpty_iff.1 attributes_sampleSettings.1, ?_⟩
  obtain ⟨d, hd, hspan, hfix⟩ := Analyzer.exists_check_sampleSettings (by decide : 193 ∈ _)
  obtain ⟨p, b, hflagged⟩ := Analyzer.exists_flagged hd hfix
  refine ⟨d, hd, hfix, ⟨p, b, hflagged, (Model.attributes_of_mem hflagged.mem).2⟩, ?_⟩
  have hp := hflagged.propertyAt?_eq
  have hread := attributes_sampleSettings.2.1
  have hnone : p.ownAttributes.filter isBinding = [] := by
    rw [hspan] at hp
    simp only [List.map_cons, hp, List.cons.injEq, Option.map_some, Option.some.injEq] at hread
    obtain ⟨a, hattributes, ha⟩ := List.map_eq_singleton_iff.1 hread.2.1
    rw [hattributes, List.filter_cons, (Prod.mk.inj ha).1]
    rfl
  rw [Fix.fix?, if_pos hfix, fix?, hp]
  show (if (List.map _ (p.ownAttributes.filter isBinding)).isEmpty then none else some _) = none
  rw [hnone]
  rfl

end TypeArgumentFix

end SettingsLint
