import SettingsLint.Proofs.Binding.Provenance
import SettingsLint.Proofs.Types.Roots

/-! # Types that can be bound

Two rules ask whether values of a type can be bound. One of them looks through nullable types once
and the other one twice, but they agree: what is bound without naming its type can be bound at all.

An array can be bound if its elements can, element by element. So it takes elements that are made from
one text each. Elements that are arrays or keyed collections themselves are none of these, even where
they can be bound on their own.
-/

namespace SettingsLint

namespace TypeTable

variable {roots : List TypeId} {names : List String} {t : TypeTable} {id : TypeId}

/-! ## Nullable types -/

theorem unwrapNullable_of_none (h : t.nullableUnderlying id = none) : t.unwrapNullable id = id := by
  rw [unwrapNullable, h]
  rfl

/-- A nullable type has the type of nullable values as its definition. -/
theorem exists_of_nullableUnderlying (h : (t.nullableUnderlying id).isSome = true) :
    ∃ generic arguments, t.shape id = .constructed generic arguments ∧
      t.metadataName? generic = some nullableName := by
  rw [nullableUnderlying] at h
  split at h
  · next generic arguments hshape =>
    split at h
    · next hname => exact ⟨generic, arguments, hshape, hname⟩
    · cases h
  · cases h

theorem nullableUnderlying_of_isDefinition (h : t.isDefinition id = true) :
    t.nullableUnderlying id = none := by
  obtain ⟨_, _, _, _, _, _, hshape⟩ := exists_definition h
  rw [nullableUnderlying, hshape]

theorem typeArguments_of_isDefinition (h : t.isDefinition id = true) : t.typeArguments id = [] := by
  obtain ⟨_, _, _, _, _, _, hshape⟩ := exists_definition h
  rw [typeArguments, hshape]

/-- No text that goes on from the name of the type of nullable values is a keyed collection. -/
theorem append_notMem_keyedShapes (rest : String) : "System.Nullable" ++ rest ∉ keyedShapes := by
  have hseventh {text : String} (h : "System.Nullable" ++ rest = text) : text.toList[7]? = some 'N' := by
    rw [← h, String.toList_append]
    rfl
  simp only [keyedShapes, List.mem_cons, List.not_mem_nil, or_false]
  rintro (h | h | h)
  all_goals exact absurd (hseventh h) (by decide)

/-- What decides whether an array can be bound. An array of a value type that is not intrinsic cannot
    be. An array of any other type can be bound if and only if its element can, is no array, and is not
    bound by its keys alone. -/
structure BindsByElement (t : TypeTable) (id element : TypeId) : Prop where
  valueType : t.isValueType element = true → t.bindability element ≠ .intrinsic →
    t.unbindable? id = some .valueTypeArray
  other : ¬(t.isValueType element = true ∧ t.bindability element ≠ .intrinsic) →
    (t.unbindable? id = none ↔ t.unbindable? element = none ∧ t.arrayElement element = none ∧
      ∀ key, t.bindability element = .keyed key → t.hasTextConstructor element = true)

namespace Backed

variable (h : t.Backed roots names)
include h

/-- A type that inherits roots only has a key at most by itself. -/
theorem keyOf?_eq_none (hinherits : t.NamesRoots roots id)
    (hself : t.isKeyedShape id = true → t.typeArguments id = []) :
    t.keyOf? id = none := by
  rw [keyOf?, Option.bind_eq_none_iff]
  intro found hfound
  have harguments : t.typeArguments found = [] := by
    rcases List.mem_cons.mp (List.mem_of_find?_eq_some hfound) with rfl | hmem
    · exact hself (List.find?_some hfound)
    · exact typeArguments_of_isDefinition ((h.rooted found).root (h.inherited hinherits found hmem))
  rw [harguments]
  rfl

/-- Nullable types are no keyed collections. -/
theorem keyOf?_of_nullable (hname : nullableName ∈ names)
    (hid : (t.nullableUnderlying id).isSome = true) : t.keyOf? id = none := by
  obtain ⟨generic, arguments, hshape, hgeneric⟩ := exists_of_nullableUnderlying hid
  have htemplate : t.template? id = some nullableName := by
    rw [template?, constructedFrom, hshape]
    exact hgeneric
  refine h.keyOf?_eq_none ((h.rooted id).inherits (.inr ⟨_, hname, htemplate⟩)) fun hkeyed => ?_
  obtain ⟨hdefinition, hspecial⟩ := (h.rooted generic).nullable hname hgeneric
  -- The display form starts with the name of the definition.
  have hdisplay : ∃ rest, t.display generic = "System.Nullable" ++ rest := by
    rw [h.toSound.display_eq, displayLayer, hdefinition, hspecial]
    exact ⟨_, rfl⟩
  obtain ⟨rest, hdisplay⟩ := hdisplay
  rw [isKeyedShape, constructedFrom, hshape] at hkeyed
  rw [hdisplay, List.contains_iff_mem] at hkeyed
  exact absurd hkeyed (append_notMem_keyedShapes rest)

theorem isValueType_of_nullable (hname : nullableName ∈ names)
    (hid : (t.nullableUnderlying id).isSome = true) : t.isValueType id = true := by
  obtain ⟨generic, arguments, hshape, hgeneric⟩ := exists_of_nullableUnderlying hid
  have hkind : t.kind id = .structType := by
    rw [h.toSound.kind_eq, kindLayer, hshape]
    dsimp only
    rw [kind, ((h.rooted generic).nullable hname hgeneric).1]
  rw [isValueType, hkind]
  rfl

theorem specialOf_of_nullable (hid : (t.nullableUnderlying id).isSome = true) : t.specialOf id = none := by
  cases hspecial : t.specialOf id with
  | none => rfl
  | some special =>
    have hdefinition := (h.rooted id).special (hspecial ▸ rfl)
    rw [nullableUnderlying_of_isDefinition hdefinition] at hid
    cases hid

/-- Looking through nullable types a second time changes nothing where a type is intrinsic or keyed. -/
theorem bindability_unwrapNullable (hname : nullableName ∈ names)
    (hid : t.bindability id ≠ .opaqueType) :
    t.bindability (t.unwrapNullable id) = t.bindability id := by
  rw [bindability] at hid
  rw [bindability, bindability]
  generalize t.unwrapNullable id = inner at hid ⊢
  cases hnullable : t.nullableUnderlying inner with
  | none => rw [unwrapNullable_of_none hnullable]
  | some underlying =>
    -- A nullable type would be opaque.
    have hsome : (t.nullableUnderlying inner).isSome = true := hnullable ▸ rfl
    rw [h.specialOf_of_nullable hsome, h.keyOf?_of_nullable hname hsome] at hid
    exact absurd rfl hid

/-- What can be bound without naming its type can be bound. -/
theorem unbindable?_eq_none (hname : nullableName ∈ names)
    (hid : t.bindsImplicitly id = true) :
    t.unbindable? id = none := by
  have hinner (hne : t.bindability id ≠ .opaqueType) := h.bindability_unwrapNullable hname hne
  rw [bindsImplicitly] at hid
  rw [unbindable?]
  cases hbind : t.bindability id with
  | intrinsic => rw [hinner (by rw [hbind]; rintro ⟨⟩), hbind]
  | keyed key =>
    rw [hbind] at hid
    rw [hinner (by rw [hbind]; rintro ⟨⟩), hbind]
    dsimp only at hid ⊢
    rw [hid, Bool.or_true, if_pos rfl]
  | opaqueType =>
    rw [hbind] at hid
    cases hid

/-! ## Arrays -/

variable {element : TypeId} {rank : Nat}

/-- Arrays are opaque: they are not special, and what they inherit has no key. -/
theorem bindability_of_array (harray : arrayBaseName ∈ names)
    (hshape : t.shape id = .array element rank) :
    t.bindability id = .opaqueType := by
  have hnone : t.nullableUnderlying id = none := by rw [nullableUnderlying, hshape]
  have hspecial : t.specialOf id = none := by
    cases hspecial : t.specialOf id with
    | none => rfl
    | some special =>
      have hdefinition := (h.rooted id).special (hspecial ▸ rfl)
      rw [isDefinition, metadataName?, hshape] at hdefinition
      cases hdefinition
  have htemplate : t.template? id = some arrayBaseName := by rw [template?, hshape]
  have hkey : t.keyOf? id = none :=
    h.keyOf?_eq_none ((h.rooted id).inherits (.inr ⟨_, harray, htemplate⟩)) fun _ => by
      rw [typeArguments, hshape]
  rw [bindability, unwrapNullable_of_none hnone, hspecial, hkey]
  rfl

theorem hasTextConstructor_of_array (hshape : t.shape id = .array element rank) :
    t.hasTextConstructor id = false := by
  rw [hasTextConstructor, (h.rooted id).constructors (by rw [arrayElement, hshape]; rfl)]
  rfl

/-- Whether an array can be bound depends on its elements only. -/
theorem unbindable?_of_array (harray : arrayBaseName ∈ names)
    (hshape : t.shape id = .array element rank) :
    t.unbindable? id =
      if t.bindability element = .intrinsic then none
      else if t.isValueType element then some .valueTypeArray
      else if t.hasTextConstructor element then none
      else some .nonIntrinsic := by
  have hnone : t.nullableUnderlying id = none := by rw [nullableUnderlying, hshape]
  rw [unbindable?, unwrapNullable_of_none hnone, h.bindability_of_array harray hshape]
  rw [h.hasTextConstructor_of_array hshape, unbindableArray?, arrayElement, hshape]
  rfl

/-- A type that is no value type is made from one text if and only if it can be bound, is no array,
    and is not bound by its keys alone. -/
theorem hasTextConstructor_iff (hname : nullableName ∈ names)
    (hvalue : t.isValueType id = false) (hid : t.bindability id ≠ .intrinsic) :
    t.hasTextConstructor id = true ↔ t.unbindable? id = none ∧ t.arrayElement id = none ∧
      ∀ key, t.bindability id = .keyed key → t.hasTextConstructor id = true := by
  have hnone : t.nullableUnderlying id = none := by
    cases hnullable : t.nullableUnderlying id with
    | none => rfl
    | some underlying =>
      have hstruct := h.isValueType_of_nullable hname (by rw [hnullable]; rfl)
      exact absurd (hvalue.symm.trans hstruct) Bool.false_ne_true
  rw [unbindable?, unwrapNullable_of_none hnone]
  constructor
  · intro htext
    refine ⟨?_, ?_, fun _ _ => htext⟩
    · cases hbind : t.bindability id with
      | intrinsic => rfl
      | keyed key =>
        dsimp only
        rw [htext, Bool.true_or, if_pos rfl]
      | opaqueType =>
        rw [htext, if_pos rfl]
    · -- Arrays have no constructors.
      cases harray : t.arrayElement id with
      | none => rfl
      | some element =>
        have hnone := (h.rooted id).constructors (harray ▸ rfl)
        rw [hasTextConstructor, hnone] at htext
        cases htext
  · rintro ⟨hbound, harray, hkeyed⟩
    cases hbind : t.bindability id with
    | intrinsic => exact absurd hbind hid
    | keyed key => exact hkeyed key hbind
    | opaqueType =>
      rw [hbind] at hbound
      dsimp only at hbound
      split at hbound
      · next htext => exact htext
      · rw [unbindableArray?, harray] at hbound
        cases hbound

/-- Intrinsic types can be bound, and they are no arrays. -/
theorem of_intrinsic (hname : nullableName ∈ names)
    (hid : t.bindability id = .intrinsic) :
    t.unbindable? id = none ∧ t.arrayElement id = none := by
  constructor
  · refine h.unbindable?_eq_none hname ?_
    rw [bindsImplicitly, hid]
  · cases harray : t.arrayElement id with
    | none => rfl
    | some element =>
      -- An array is not nullable, so that it would have to be special itself.
      have hnone : t.nullableUnderlying id = none := by
        rw [arrayElement] at harray
        rw [nullableUnderlying]
        split at harray <;> simp_all
      rw [bindability, unwrapNullable_of_none hnone] at hid
      split at hid
      · next hspecial =>
        have hdefinition := (h.rooted id).special hspecial
        obtain ⟨_, _, _, _, _, _, hshape⟩ := exists_definition hdefinition
        rw [arrayElement, hshape] at harray
        cases harray
      · split at hid <;> cases hid

theorem bindsByElement (hname : nullableName ∈ names) (harray : arrayBaseName ∈ names)
    (hshape : t.shape id = .array element rank) : t.BindsByElement id element := by
  have hunbindable := h.unbindable?_of_array harray hshape
  refine ⟨fun hvalue hopaque => ?_, fun hother => ?_⟩
  · rw [hunbindable, if_neg hopaque, if_pos hvalue]
  · rw [hunbindable]
    by_cases hintrinsic : t.bindability element = .intrinsic
    · obtain ⟨hbound, hnone⟩ := h.of_intrinsic hname hintrinsic
      simp [hintrinsic, hbound, hnone]
    · have hvalue : t.isValueType element = false :=
        Bool.eq_false_iff.mpr fun hvalue => hother ⟨hvalue, hintrinsic⟩
      rw [← h.hasTextConstructor_iff hname hvalue hintrinsic, if_neg hintrinsic, hvalue]
      simp

end Backed

end TypeTable

/-! ## Models -/

namespace Model

open TypeTable (arrayBaseName nullableName)

/-- The table of a model is as the library has it, as far as the source does not declare the names. -/
theorem backed_ofUnit {unit : SourceUnit} {names : List String}
    (hnames : names ⊆ [arrayBaseName, nullableName])
    (h : ∀ id ∈ (ofUnit unit).types, ∀ name ∈ names, (ofUnit unit).table.metadataName? id ≠ some name) :
    (ofUnit unit).table.Backed LibraryType.roots names := by
  obtain ⟨t, htable, hbeyond, hbound⟩ := beyond_ofUnit unit
  rw [htable]
  refine TypeTable.Rooted.backed_complete ?_ (hbeyond.derived TypeTable.derived_withLibrary)
  refine (TypeTable.rooted_withLibrary hnames).beyond TypeTable.derived_withLibrary.toSound hbeyond ?_
  intro id hid name hname heq
  -- A definition behind the library is one of the declared types.
  have hdeclared : id ∈ (ofUnit unit).types := by
    refine ((DeclareState.beyond_declared unit).2 id).mpr ⟨hid, ?_⟩
    rw [TypeTable.isDefinition, ← hbound.grown.metadataName?_eq, heq]
    rfl
  refine h id hdeclared name hname ?_
  have hgrown : t.Extends t.complete := TypeTable.growth_complete t
  rw [htable, hgrown.metadataName?_eq, heq]

/-- Where a source leaves the type of nullable values to the library, what is bound without naming its
    type can be bound at all. So no property is exempt from naming its type and reported for its type,
    and no type is exempt that is reported for its keys. -/
theorem unbindable?_of_bindsImplicitly (text : String)
    (h : ∀ id ∈ (ofUnit (Source.parse text).unit).types,
      (ofUnit (Source.parse text).unit).table.metadataName? id ≠ some nullableName) :
    let model := ofUnit (Source.parse text).unit
    (∀ id, model.table.bindsImplicitly id = true → model.table.unbindable? id = none) ∧
    (∀ id, model.table.unbindable? id = some .keyNotText → model.table.bindsImplicitly id = false) ∧
    ∀ (aot : Bool) (p : BindingProperty), model.table.bindsImplicitly p.property.type = true →
      Rule.propertyType.problem? aot model p = none := by
  intro model
  have hbacked : model.table.Backed LibraryType.roots [nullableName] :=
    backed_ofUnit (by simp) fun id hid name hname => List.mem_singleton.mp hname ▸ h id hid
  have hbinds (id : TypeId) (hid : model.table.bindsImplicitly id = true) :
      model.table.unbindable? id = none := hbacked.unbindable?_eq_none List.mem_cons_self hid
  refine ⟨hbinds, fun id hid => ?_, fun aot p hp => ?_⟩
  · cases hexempt : model.table.bindsImplicitly id with
    | false => rfl
    | true =>
      rw [hbinds id hexempt] at hid
      cases hid
  · show (if _ then none else (model.table.unbindable? p.property.type).map Problem.invalidType) = none
    rw [hbinds _ hp]
    exact ite_self none

/-- A source with an array of arrays and a nullable type. -/
def arraysAndNullable : String :=
  "class C \x7b string[][] P \x7b get; \x7d int? Q \x7b get; \x7d \x7d"

set_option maxRecDepth 100000 in
/-- The source leaves the library as it is, and has a property of a nullable type that is exempt. -/
theorem nullable_arraysAndNullable :
    (∀ id ∈ (ofUnit (Source.parse arraysAndNullable).unit).types,
      ∀ name ∈ [arrayBaseName, nullableName],
      (ofUnit (Source.parse arraysAndNullable).unit).table.metadataName? id ≠ some name) ∧
    ∃ id ∈ (ofUnit (Source.parse arraysAndNullable).unit).types,
      ∃ p ∈ (ofUnit (Source.parse arraysAndNullable).unit).table.properties id,
      ((ofUnit (Source.parse arraysAndNullable).unit).table.nullableUnderlying p.type).isSome = true ∧
      (ofUnit (Source.parse arraysAndNullable).unit).table.bindsImplicitly p.type = true := by
  decide +kernel

/-- A source with a property of a nullable type. -/
theorem unbindable?_of_bindsImplicitly_nullable :
    let model := ofUnit (Source.parse arraysAndNullable).unit
    (∀ id ∈ model.types, model.table.metadataName? id ≠ some nullableName) ∧
    ∃ id, (model.table.nullableUnderlying id).isSome = true ∧ model.table.bindsImplicitly id = true ∧
      model.table.unbindable? id = none := by
  intro model
  obtain ⟨hnames, _, -, p, -, hnullable, hbinds⟩ := nullable_arraysAndNullable
  have hleft (id : TypeId) (hid : id ∈ model.types) : model.table.metadataName? id ≠ some nullableName :=
    hnames id hid _ (List.mem_cons_of_mem _ List.mem_cons_self)
  exact ⟨hleft, p.type, hnullable, hbinds,
    (unbindable?_of_bindsImplicitly arraysAndNullable hleft).1 p.type hbinds⟩

/-- Where a source leaves the type of nullable values and the base of arrays to the library, it depends
    on the element whether an array can be bound, whatever the element and the rank. -/
theorem bindsByElement_array (text : String)
    (h : ∀ id ∈ (ofUnit (Source.parse text).unit).types, ∀ name ∈ [arrayBaseName, nullableName],
      (ofUnit (Source.parse text).unit).table.metadataName? id ≠ some name)
    (element : TypeId) (rank : Nat)
    (helement : element.index < (ofUnit (Source.parse text).unit).table.size) :
    let made := (ofUnit (Source.parse text).unit).table.array element rank
    made.2.BindsByElement made.1 element := by
  have hbacked := backed_ofUnit (List.Subset.refl _) h
  have hparts : ∀ p ∈ (Shape.array element (max rank 1)).parts,
      p.index < (ofUnit (Source.parse text).unit).table.size := by
    intro p hp
    rwa [List.mem_singleton.mp hp]
  have hproper : (Shape.array element (max rank 1)).isProper = true :=
    decide_eq_true (Nat.le_max_right _ _)
  have hshape := (hbacked.toSound.interned hparts hproper rfl 0).shape_eq
  exact (hbacked.intern rfl hproper hparts).bindsByElement (List.mem_cons_of_mem _ List.mem_cons_self)
    List.mem_cons_self hshape

set_option maxRecDepth 100000 in
/-- The source has a property whose type is an array of what can be bound, and cannot be bound. -/
theorem array_arraysAndNullable :
    ∃ id ∈ (ofUnit (Source.parse arraysAndNullable).unit).types,
      ∃ p ∈ (ofUnit (Source.parse arraysAndNullable).unit).table.properties id,
      ∃ element ∈ ((ofUnit (Source.parse arraysAndNullable).unit).table.arrayElement p.type).toList,
      element.index < (ofUnit (Source.parse arraysAndNullable).unit).table.size ∧
      (ofUnit (Source.parse arraysAndNullable).unit).table.isValueType element = false ∧
      (ofUnit (Source.parse arraysAndNullable).unit).table.unbindable? element = none ∧
      (ofUnit (Source.parse arraysAndNullable).unit).table.unbindable? p.type
        = some .nonIntrinsic := by
  decide +kernel

/-- Arrays of arrays of texts. -/
theorem bindsByElement_array_nested :
    let model := ofUnit (Source.parse arraysAndNullable).unit
    (∀ id ∈ model.types, ∀ name ∈ [arrayBaseName, nullableName],
      model.table.metadataName? id ≠ some name) ∧
    ∃ element, element.index < model.table.size ∧ model.table.unbindable? element = none ∧
      let made := model.table.array element 1
      made.2.BindsByElement made.1 element := by
  obtain ⟨_, -, _, -, element, -, hinside, -, hbound, -⟩ := array_arraysAndNullable
  have hnames := nullable_arraysAndNullable.1
  exact ⟨hnames, element, hinside, hbound,
    bindsByElement_array arraysAndNullable hnames element 1 hinside⟩

/-- An array of arrays of texts cannot be bound, although an array of texts can. -/
theorem unbindable?_array_ne_element :
    let model := ofUnit (Source.parse arraysAndNullable).unit
    ∃ id element, model.table.arrayElement id = some element ∧
      model.table.isValueType element = false ∧ model.table.unbindable? element = none ∧
      model.table.unbindable? id = some .nonIntrinsic := by
  obtain ⟨_, -, p, -, element, helement, -, hfacts⟩ := array_arraysAndNullable
  exact ⟨p.type, element, Option.mem_toList.mp helement, hfacts⟩

end Model

end SettingsLint
