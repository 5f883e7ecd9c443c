import SettingsLint.Proofs.Types.Growth
import SettingsLint.Rule.Bindability

/-! # Properties are only carried along

The table keeps the properties of a type for the rules. Nothing else in the table depends
on them: changing every property in a table changes no answer about types, and commutes
with everything that builds or completes a table.
-/

namespace SettingsLint

theorem eq_of_map_eq_self {move : α → α} {as : List α} (h : as.map move = as) {x : α} (hx : x ∈ as) :
    move x = x := by
  obtain ⟨i, hi, rfl⟩ := List.mem_iff_getElem.1 hx
  have hget := congrArg (·[i]?) h
  rw [List.getElem?_map, List.getElem?_eq_getElem hi] at hget
  exact Option.some.inj hget

def Entry.mapProperties (f : PropertySymbol → PropertySymbol) (e : Entry) : Entry :=
  { e with properties := e.properties.map f }

namespace TypeTable

def mapProperties (f : PropertySymbol → PropertySymbol) (t : TypeTable) : TypeTable :=
  { t with entries := t.entries.map (Entry.mapProperties f) }

section

variable (f : PropertySymbol → PropertySymbol) (t : TypeTable) (id : TypeId)

/-! ## Asking -/

@[simp] theorem size_mapProperties : (t.mapProperties f).size = t.size := Array.size_map

@[simp] theorem ids_mapProperties : (t.mapProperties f).ids = t.ids := by
  rw [ids, ids, size_mapProperties]

@[simp] theorem entry_mapProperties :
    (t.mapProperties f).entry id = (t.entry id).mapProperties f := by
  rw [entry, entry, mapProperties, Array.getElem?_map]
  cases t.entries[id.index]? <;> rfl

@[simp] theorem shape_mapProperties : (t.mapProperties f).shape id = t.shape id := by
  rw [shape, entry_mapProperties]
  rfl

@[simp] theorem base_mapProperties : (t.mapProperties f).base id = t.base id := by
  rw [base, entry_mapProperties]
  rfl

@[simp] theorem specialOf_mapProperties : (t.mapProperties f).specialOf id = t.specialOf id := by
  rw [specialOf, entry_mapProperties]
  rfl

@[simp] theorem interfaces_mapProperties : (t.mapProperties f).interfaces id = t.interfaces id := by
  rw [interfaces, entry_mapProperties]
  rfl

@[simp] theorem allInterfaces_mapProperties :
    (t.mapProperties f).allInterfaces id = t.allInterfaces id := by
  rw [allInterfaces, entry_mapProperties]
  rfl

@[simp] theorem constructors_mapProperties :
    (t.mapProperties f).constructors id = t.constructors id := by
  rw [constructors, entry_mapProperties]
  rfl

@[simp] theorem find?_mapProperties (shape : Shape) :
    (t.mapProperties f).find? shape = t.find? shape := by
  cases shape <;> rfl

@[simp] theorem metadataName?_mapProperties :
    (t.mapProperties f).metadataName? id = t.metadataName? id := by
  rw [metadataName?, metadataName?, shape_mapProperties]

@[simp] theorem namespaceOf_mapProperties :
    (t.mapProperties f).namespaceOf id = t.namespaceOf id := by
  rw [namespaceOf, namespaceOf, shape_mapProperties]

@[simp] theorem isDefinition_mapProperties :
    (t.mapProperties f).isDefinition id = t.isDefinition id := by
  rw [isDefinition, isDefinition, metadataName?_mapProperties]

@[simp] theorem lookup_mapProperties (unique : String) :
    (t.mapProperties f).lookup unique = t.lookup unique := by
  have hbelow (n : Nat) : (t.mapProperties f).lookupBelow unique n = t.lookupBelow unique n := by
    induction n with
    | zero => rfl
    | succ n ih => rw [lookupBelow, lookupBelow, shape_mapProperties, ih]
  rw [lookup_eq_lookupBelow, lookup_eq_lookupBelow, size_mapProperties, hbelow]

@[simp] theorem lookupIn_mapProperties (namespaceName name : String) (arity : Nat) :
    (t.mapProperties f).lookupIn namespaceName name arity = t.lookupIn namespaceName name arity :=
  lookup_mapProperties f t _

@[simp] theorem lookupNested_mapProperties (name : String) (arity : Nat) :
    (t.mapProperties f).lookupNested id name arity = t.lookupNested id name arity := by
  simp [lookupNested]

@[simp] theorem isNamespace_mapProperties (name : String) :
    (t.mapProperties f).isNamespace name = t.isNamespace name := rfl

@[simp] theorem special?_mapProperties (special : SpecialType) :
    (t.mapProperties f).special? special = t.special? special := rfl

@[simp] theorem constructedFrom_mapProperties :
    (t.mapProperties f).constructedFrom id = t.constructedFrom id := by
  rw [constructedFrom, constructedFrom, shape_mapProperties]

@[simp] theorem typeArguments_mapProperties :
    (t.mapProperties f).typeArguments id = t.typeArguments id := by
  rw [typeArguments, typeArguments, shape_mapProperties]

@[simp] theorem typeParameters_mapProperties :
    (t.mapProperties f).typeParameters id = t.typeParameters id := by
  rw [typeParameters, typeParameters, shape_mapProperties]

@[simp] theorem arrayElement_mapProperties :
    (t.mapProperties f).arrayElement id = t.arrayElement id := by
  rw [arrayElement, arrayElement, shape_mapProperties]

@[simp] theorem nullableUnderlying_mapProperties :
    (t.mapProperties f).nullableUnderlying id = t.nullableUnderlying id := by
  simp only [nullableUnderlying, shape_mapProperties, metadataName?_mapProperties]

@[simp] theorem kind_mapProperties : (t.mapProperties f).kind id = t.kind id := by
  fun_induction t.kind id <;> rw [kind] <;> simp [*]

@[simp] theorem name_mapProperties : (t.mapProperties f).name id = t.name id := by
  fun_induction t.name id <;> rw [name] <;> simp [*]

@[simp] theorem isValueType_mapProperties :
    (t.mapProperties f).isValueType id = t.isValueType id := by
  rw [isValueType, isValueType, kind_mapProperties]

@[simp] theorem display_mapProperties : (t.mapProperties f).display id = t.display id := by
  induction hn : id.index using Nat.strongRecOn generalizing id with
  | ind n ih =>
    have hinner : ∀ other : TypeId,
        (if other.index < id.index then (t.mapProperties f).display other else "")
          = if other.index < id.index then t.display other else "" := by
      intro other
      split
      · next hlt => exact ih _ (hn ▸ hlt) other rfl
      · rfl
    rw [display, display]
    simp only [hinner, shape_mapProperties, specialOf_mapProperties, nullableUnderlying_mapProperties]

theorem properties_mapProperties :
    (t.mapProperties f).properties id = (t.properties id).map f := by
  rw [properties, constructedFrom_mapProperties, entry_mapProperties]
  rfl

end

/-! ## Building -/

section

variable (f : PropertySymbol → PropertySymbol) (t : TypeTable) (x : TypeId)

theorem mapProperties_update {f : PropertySymbol → PropertySymbol} {t : TypeTable} {id : TypeId}
    {change change' : Entry → Entry}
    (h : ∀ e : Entry, change' (e.mapProperties f) = (change e).mapProperties f) :
    (t.mapProperties f).update id change' = (t.update id change).mapProperties f := by
  refine congrArg (TypeTable.mk · t.constructed t.arrays t.errors t.specials t.namespaces) ?_
  refine Array.ext (by simp [mapProperties, update]) fun i _ _ => ?_
  simp only [mapProperties, update, Array.getElem_modify, Array.getElem_map]
  split
  · exact h _
  · rfl

theorem push_mapProperties (shape : Shape) (depth : Nat) :
    (t.mapProperties f).push shape depth = Prod.map id (mapProperties f) (t.push shape depth) := by
  simp [push, mapProperties, size, Entry.mapProperties]

theorem intern_mapProperties (shape : Shape) (depth : Nat) :
    (t.mapProperties f).intern shape depth = Prod.map id (mapProperties f) (t.intern shape depth) := by
  rw [intern, intern, find?_mapProperties]
  split
  · rfl
  · exact push_mapProperties f t shape depth

theorem addNamespace_mapProperties (name : String) :
    (t.mapProperties f).addNamespace name = (t.addNamespace name).mapProperties f := rfl

theorem pushTypeParameters_mapProperties (names : List String) :
    (t.mapProperties f).pushTypeParameters names
      = Prod.map id (mapProperties f) (t.pushTypeParameters names) := by
  induction names generalizing t with
  | nil => rfl
  | cons name names ih =>
    simp only [pushTypeParameters, push_mapProperties, Prod.map_snd, ih]
    rfl

theorem declare_mapProperties (namespaceName name : String) (kind : TypeKind)
    (typeParameters : List String) (containing : Option TypeId) :
    (t.mapProperties f).declare namespaceName name kind typeParameters containing
      = Prod.map id (mapProperties f)
          (t.declare namespaceName name kind typeParameters containing) := by
  simp only [declare, metadataName?_mapProperties, namespaceOf_mapProperties,
    addNamespace_mapProperties, pushTypeParameters_mapProperties, Prod.map_snd,
    push_mapProperties]
  rfl

theorem setBase_mapProperties (base : TypeId) :
    (t.mapProperties f).setBase x base = (t.setBase x base).mapProperties f :=
  mapProperties_update fun _ => rfl

theorem addInterface_mapProperties (interface : TypeId) :
    (t.mapProperties f).addInterface x interface
      = (t.addInterface x interface).mapProperties f := by
  refine mapProperties_update fun e => ?_
  show (if e.interfaces.contains interface then _ else _) = _
  split <;> rfl

theorem addConstructor_mapProperties (parameters : List ParameterSymbol) :
    (t.mapProperties f).addConstructor x parameters
      = (t.addConstructor x parameters).mapProperties f :=
  mapProperties_update fun _ => rfl

theorem addProperty_mapProperties (property : PropertySymbol) :
    (t.mapProperties f).addProperty x (f property)
      = (t.addProperty x property).mapProperties f := by
  rw [addProperty, addProperty, isDefinition_mapProperties]
  split
  · refine mapProperties_update fun e => ?_
    simp [Entry.mapProperties]
  · rfl

theorem construct_mapProperties (arguments : List TypeId) (depth : Nat) :
    (t.mapProperties f).construct x arguments depth
      = Prod.map id (mapProperties f) (t.construct x arguments depth) := by
  rw [construct, construct]
  split
  · rfl
  · exact intern_mapProperties f t _ depth

theorem array_mapProperties (rank depth : Nat) :
    (t.mapProperties f).array x rank depth
      = Prod.map id (mapProperties f) (t.array x rank depth) :=
  intern_mapProperties f t _ depth

theorem nullable_mapProperties :
    (t.mapProperties f).nullable x = Prod.map id (mapProperties f) (t.nullable x) := by
  rw [nullable, nullable, lookup_mapProperties]
  split
  · exact construct_mapProperties f t _ _ 0
  · rfl

theorem error_mapProperties (name : String) :
    (t.mapProperties f).error name = Prod.map id (mapProperties f) (t.error name) :=
  intern_mapProperties f t _ 0

end

/-! ## Completing -/

/-- The action does the same whatever the properties are. -/
def Commutes (f : PropertySymbol → PropertySymbol) (action : StateM TypeTable α) : Prop :=
  ∀ t : TypeTable, action (t.mapProperties f) = Prod.map id (mapProperties f) (action t)

namespace Commutes

variable {f : PropertySymbol → PropertySymbol}

theorem pure (a : α) : Commutes f (pure a) := fun _ => rfl

theorem bind {action : StateM TypeTable α} {next : α → StateM TypeTable β}
    (h : Commutes f action) (hnext : ∀ a, Commutes f (next a)) : Commutes f (action >>= next) := by
  intro t
  show next (action (t.mapProperties f)).1 (action (t.mapProperties f)).2 = _
  rw [h t]
  exact hnext _ _

/-- What is read off the table does not depend on the properties. -/
theorem get_bind {next : TypeTable → StateM TypeTable α}
    (hsame : ∀ t : TypeTable, next (t.mapProperties f) = next t) (h : ∀ t, Commutes f (next t)) :
    Commutes f (get >>= next) := by
  intro t
  show next (t.mapProperties f) (t.mapProperties f) = _
  rw [hsame]
  exact h t t

theorem modify {change : TypeTable → TypeTable}
    (h : ∀ t : TypeTable, change (t.mapProperties f) = (change t).mapProperties f) :
    Commutes f (modify change) :=
  fun t => congrArg (Prod.mk ()) (h t)

theorem mapM {action : α → StateM TypeTable β} (as : List α) (h : ∀ a ∈ as, Commutes f (action a)) :
    Commutes f (as.mapM action) := by
  induction as with
  | nil => exact pure []
  | cons a as ih =>
    rw [List.mapM_cons]
    obtain ⟨ha, has⟩ := List.forall_mem_cons.1 h
    exact ha.bind fun _ => (ih has).bind fun _ => pure _

theorem option_mapM {action : α → StateM TypeTable β} (o : Option α)
    (h : ∀ a, Commutes f (action a)) : Commutes f (o.mapM action) := by
  cases o with
  | none => exact pure none
  | some a => exact (h a).bind fun _ => pure _

end Commutes

variable {f : PropertySymbol → PropertySymbol}

theorem commutes_substitute (s : Substitution) (depth : Nat) (id : TypeId) :
    Commutes f (substitute s depth id) := by
  induction hn : id.index using Nat.strongRecOn generalizing id with
  | ind n ih =>
    have hpart (part : TypeId) :
        Commutes f (if part.index < id.index then substitute s depth part else pure part) := by
      split
      · next hlt => exact ih _ (hn ▸ hlt) part rfl
      · exact .pure part
    rw [substitute]
    split
    · exact .pure _
    · refine .get_bind (fun t => by rw [shape_mapProperties]) fun t => ?_
      split
      · refine (Commutes.mapM _ fun part _ => hpart part).bind fun arguments t => ?_
        exact construct_mapProperties f t _ arguments depth
      · have harray (rank : Nat) (element : TypeId) :
            Commutes f (modifyGet (·.array element rank depth)) :=
          fun t => array_mapProperties f t element rank depth
        split
        · next hlt => exact (ih _ (hn ▸ hlt) _ rfl).bind (harray _)
        · exact (Commutes.pure _).bind (harray _)
      · exact .pure id

theorem commutes_substituteSignature (s : Substitution) (depth : Nat) (signature : Signature) :
    Commutes f (substituteSignature s depth signature) :=
  (Commutes.mapM _ fun p _ => (commutes_substitute s depth p.type).bind fun _ => .pure _).bind
    fun _ => .pure _

theorem commutes_instantiate (id : TypeId) : Commutes f (instantiate id) := by
  refine Commutes.bind (.modify fun t => ?_) fun _ => .get_bind (fun t => ?_) fun t => ?_
  · exact mapProperties_update fun _ => rfl
  · simp only [shape_mapProperties, typeParameters_mapProperties, entry_mapProperties,
      lookup_mapProperties]
    rfl
  · split
    · dsimp only
      split
      · refine (Commutes.option_mapM _ (commutes_substitute _ _)).bind fun base => ?_
        refine (Commutes.mapM _ fun id _ => commutes_substitute _ _ id).bind fun interfaces => ?_
        refine (Commutes.mapM _ fun c _ => commutes_substituteSignature _ _ c).bind
          fun constructors => ?_
        exact .modify fun t => mapProperties_update fun _ => rfl
      · exact .pure ()
    · exact .modify fun t => mapProperties_update fun _ => rfl
    · exact .pure ()

variable (f)

theorem instantiateRange_mapProperties (start stop : Nat) (t : TypeTable) :
    instantiateRange start stop (t.mapProperties f)
      = (instantiateRange start stop t).mapProperties f := by
  rw [instantiateRange, instantiateRange]
  generalize List.range' start (stop - start) = indices
  induction indices generalizing t with
  | nil => rfl
  | cons i indices ih =>
    rw [List.foldl_cons, List.foldl_cons, ← ih, entry_mapProperties]
    congr 1
    show (if (t.entry ⟨i⟩).instantiated then _ else _) = _
    split
    · rfl
    · exact congrArg Prod.snd (commutes_instantiate ⟨i⟩ t)

theorem instantiateRounds_mapProperties (rounds start : Nat) (t : TypeTable) :
    instantiateRounds rounds start (t.mapProperties f)
      = (instantiateRounds rounds start t).mapProperties f := by
  induction rounds generalizing start t with
  | zero => rfl
  | succ rounds ih =>
    rw [instantiateRounds, instantiateRounds, size_mapProperties, instantiateRange_mapProperties, ih]

section

variable (t : TypeTable)

theorem isNew_mapProperties (met : List TypeId) (id : TypeId) :
    (t.mapProperties f).isNew met id = t.isNew met id := by
  rw [isNew, isNew, size_mapProperties]

theorem baseChainFrom_mapProperties (met : List TypeId) (id : TypeId) :
    (t.mapProperties f).baseChainFrom met id = t.baseChainFrom met id := by
  fun_induction t.baseChainFrom met id with
  | case1 met id hnew ih =>
    rw [baseChainFrom, isNew_mapProperties, if_pos hnew, base_mapProperties]
    congr 1
    split
    · next base _ => exact ih base
    · rfl
  | case2 met id hold =>
    rw [baseChainFrom, isNew_mapProperties, if_neg hold]

@[simp] theorem baseChain_mapProperties (id : TypeId) :
    (t.mapProperties f).baseChain id = t.baseChain id := baseChainFrom_mapProperties f t [] id

theorem interfaceWalk_mapProperties (met pending : List TypeId) :
    (t.mapProperties f).interfaceWalk met pending = t.interfaceWalk met pending := by
  fun_induction t.interfaceWalk met pending with
  | case1 met => rw [interfaceWalk]
  | case2 met next pending hnew ih =>
    rw [interfaceWalk, isNew_mapProperties, if_pos hnew, interfaces_mapProperties, ih]
  | case3 met next pending hold ih =>
    rw [interfaceWalk, isNew_mapProperties, if_neg hold, ih]

theorem fillInterfaces_mapProperties :
    (t.mapProperties f).fillInterfaces = t.fillInterfaces.mapProperties f := by
  have hcollect (id : TypeId) : (t.mapProperties f).collectInterfaces id = t.collectInterfaces id := by
    rw [collectInterfaces, interfaceWalk_mapProperties, baseChain_mapProperties]
    exact congrArg _ (congrArg List.flatten (List.map_congr_left fun _ _ => interfaces_mapProperties ..))
  refine congrArg (TypeTable.mk · t.constructed t.arrays t.errors t.specials t.namespaces) ?_
  refine Array.ext (by simp [mapProperties, fillInterfaces]) fun i _ _ => ?_
  simp only [mapProperties, fillInterfaces, Array.getElem_mapIdx, Array.getElem_map] at hcollect ⊢
  rw [hcollect]
  rfl

theorem complete_mapProperties : (t.mapProperties f).complete = t.complete.mapProperties f := by
  rw [complete, complete, instantiateRounds_mapProperties, fillInterfaces_mapProperties]

/-! ## Binding values -/

@[simp] theorem bindability_mapProperties (id : TypeId) :
    (t.mapProperties f).bindability id = t.bindability id := by
  have hkeyed : (t.mapProperties f).isKeyedShape = t.isKeyedShape := by
    funext id
    simp [isKeyedShape]
  have hkey : (t.mapProperties f).keyOf? = t.keyOf? := by
    funext id
    rw [keyOf?, keyOf?, hkeyed]
    simp
  rw [bindability, bindability, hkey, unwrapNullable, unwrapNullable,
    nullableUnderlying_mapProperties, specialOf_mapProperties]

@[simp] theorem bindsImplicitly_mapProperties (id : TypeId) :
    (t.mapProperties f).bindsImplicitly id = t.bindsImplicitly id := by
  simp [bindsImplicitly, isText]

@[simp] theorem unbindable?_mapProperties (id : TypeId) :
    (t.mapProperties f).unbindable? id = t.unbindable? id := by
  simp [unbindable?, unbindableArray?, unwrapNullable, hasTextConstructor, isText]

end

end TypeTable

/-! ## Tables without properties -/

namespace TypeTable

variable {P : PropertySymbol → Prop} {t : TypeTable}

/-- The properties of the table are of the kind. -/
def Holds (P : PropertySymbol → Prop) (t : TypeTable) : Prop :=
  ∀ e ∈ t.entries, ∀ p ∈ e.properties, P p

theorem Holds.imp {Q : PropertySymbol → Prop} (h : t.Holds P)
    (himp : ∀ p, P p → Q p) : t.Holds Q := fun e he p hp => himp p (h e he p hp)

theorem Holds.push (h : t.Holds P) (shape : Shape)
    (depth : Nat) : (t.push shape depth).2.Holds P := by
  intro e he p hp
  rcases Array.mem_push.1 he with he | rfl
  · exact h e he p hp
  · cases hp

theorem Holds.intern (h : t.Holds P) (shape : Shape)
    (depth : Nat) : (t.intern shape depth).2.Holds P := by
  rw [TypeTable.intern]
  split
  · exact h
  · exact h.push shape depth

theorem Holds.pushTypeParameters (names : List String) :
    ∀ {t : TypeTable}, t.Holds P → (t.pushTypeParameters names).2.Holds P := by
  induction names with
  | nil => exact fun h => h
  | cons name names ih => exact fun h => ih (h.push _ 0)

theorem Holds.declare (h : t.Holds P)
    (namespaceName name : String) (kind : TypeKind) (parameters : List String)
    (containing : Option TypeId) :
    (t.declare namespaceName name kind parameters containing).2.Holds P := by
  have hadd (name : String) : (t.addNamespace name).Holds P := h
  exact ((hadd _).pushTypeParameters parameters).push _ 0

theorem Holds.change (h : t.Holds P)
    {f : Nat → Entry → Entry} (hf : ∀ i e, (f i e).properties = e.properties) :
    ({ t with entries := t.entries.mapIdx f } : TypeTable).Holds P := by
  intro e he p hp
  obtain ⟨i, hi, rfl⟩ := Array.mem_mapIdx.1 he
  rw [hf] at hp
  exact h _ (Array.getElem_mem hi) p hp

theorem Holds.setSpecial (h : t.Holds P) (id : TypeId)
    (special : SpecialType) : (t.setSpecial id special).Holds P := by
  rw [TypeTable.setSpecial]
  split
  · rw [update_eq]
    exact h.change fun i e => by split <;> rfl
  · exact h

instance (P : PropertySymbol → Prop) : Growth fun t u => t.Holds P → u.Holds P where
  refl _ h := h
  trans h g ht := g (h ht)
  intern _ shape depth _ h := h.intern shape depth
  change _ _ hf h := h.change fun i => (hf i).properties

theorem holds_declareAll (types : List LibraryType)
    (h : t.Holds P) : (LibraryType.declareAll types t).2.Holds P := by
  induction types generalizing t with
  | nil => exact h
  | cons type types ih =>
    refine ih (t := (type.declareIn t).2) ?_
    have hdeclared := h.declare type.namespaceName type.name type.kind type.typeParameters none
    rw [LibraryType.declareIn]
    cases type.special with
    | none => exact hdeclared
    | some special => exact hdeclared.setSpecial _ special

/-- The library has no properties. -/
theorem holds_withLibrary (P : PropertySymbol → Prop) : withLibrary.Holds P := by
  have hempty : empty.Holds P := fun e he => by simp [empty] at he
  exact LibraryType.growth_withLibrary (R := fun t u => t.Holds P → u.Holds P)
    (holds_declareAll LibraryType.all hempty)

theorem Holds.mapProperties_eq (h : t.Holds fun _ => False)
    (f : PropertySymbol → PropertySymbol) : t.mapProperties f = t := by
  have hentries : t.entries.map (Entry.mapProperties f) = t.entries := by
    refine (Array.map_congr_left fun e he => ?_).trans (Array.map_id _)
    have hnone : e.properties = [] := List.eq_nil_iff_forall_not_mem.2 (h e he)
    rw [Entry.mapProperties, hnone, List.map_nil, ← hnone]
    rfl
  rw [mapProperties, hentries]

theorem mapProperties_withLibrary (f : PropertySymbol → PropertySymbol) :
    withLibrary.mapProperties f = withLibrary :=
  (holds_withLibrary fun _ => False).mapProperties_eq f

end TypeTable

end SettingsLint
