import SettingsLint.Proofs.Binding.Growth
import SettingsLint.Proofs.Types.Inheritance

/-! # Binding settles

Binding asks for types of the table only, so it keeps tables regular. And what a name stands for is
settled once it was asked for: asking again later, when the table has more types, gives the same type,
and makes no other. `Bind.Settles` says both of an action.
-/

namespace SettingsLint

theorem any_congr {p q : α → Bool} {as : List α} (h : ∀ a ∈ as, p a = q a) : as.any p = as.any q := by
  induction as with
  | nil => rfl
  | cons a as ih =>
    obtain ⟨hfirst, hrest⟩ := List.forall_mem_cons.1 h
    rw [List.any_cons, List.any_cons, hfirst, ih hrest]

/-! ## What stays in a table that grows -/

namespace TypeTable

variable {t u : TypeTable} {id : TypeId} {name : String} {arity : Nat}

theorem Keeps.kind_eq (h : t.Keeps u) (hid : t.Has id) : u.kind id = t.kind id := by
  induction hindex : id.index using Nat.strongRecOn generalizing id with
  | ind i ih =>
    rw [kind, kind, h.shape_eq hid]
    cases t.shape id with
    | constructed definition arguments =>
      dsimp only
      split
      · next hlt => exact ih _ (hindex ▸ hlt) (Nat.lt_trans hlt hid) rfl
      · rfl
    | _ => rfl

theorem Keeps.name_eq (h : t.Keeps u) (hid : t.Has id) : u.name id = t.name id := by
  induction hindex : id.index using Nat.strongRecOn generalizing id with
  | ind i ih =>
    have hinner (other : TypeId) : (if other.index < id.index then u.name other else "")
        = if other.index < id.index then t.name other else "" := by
      split
      · next hlt => exact ih _ (hindex ▸ hlt) (Nat.lt_trans hlt hid) rfl
      · rfl
    rw [name, name, h.shape_eq hid]
    cases t.shape id with
    | constructed definition arguments => exact hinner definition
    | array element rank => exact hinner element
    | _ => rfl

namespace Extends

/-- What is new is no definition. -/
theorem metadataName?_eq (h : t.Extends u) (id : TypeId) : u.metadataName? id = t.metadataName? id := by
  by_cases hid : id.index < t.size
  · rw [metadataName?, metadataName?, h.shape_eq hid]
  · have hbuilt := h.isBuilt_shape (Nat.not_lt.1 hid)
    rw [metadataName?, metadataName?, shape_of_le (Nat.not_lt.1 hid)]
    cases hshape : u.shape id <;> first | rfl | (rw [hshape] at hbuilt; cases hbuilt)

theorem typeParameters_eq (h : t.Extends u) (id : TypeId) : u.typeParameters id = t.typeParameters id := by
  by_cases hid : id.index < t.size
  · exact typeParameters_congr (h.shape_eq hid)
  · have hbuilt := h.isBuilt_shape (Nat.not_lt.1 hid)
    rw [typeParameters, typeParameters, shape_of_le (Nat.not_lt.1 hid)]
    cases hshape : u.shape id <;> first | rfl | (rw [hshape] at hbuilt; cases hbuilt)

theorem lookupIn_eq (h : t.Extends u) (namespaceName name : String) (arity : Nat) :
    u.lookupIn namespaceName name arity = t.lookupIn namespaceName name arity := h.lookup_eq _

theorem lookupNested_eq (h : t.Extends u) (outer : TypeId) (name : String) (arity : Nat) :
    u.lookupNested outer name arity = t.lookupNested outer name arity := by
  simp only [lookupNested, h.metadataName?_eq, h.lookup_eq]

theorem isNamespace_eq (h : t.Extends u) (name : String) : u.isNamespace name = t.isNamespace name := by
  rw [isNamespace, isNamespace, h.namespaces_eq]

theorem foundIn_eq (h : t.Extends u) (namespaceName name : String) (arity : Nat) :
    u.foundIn namespaceName name arity = t.foundIn namespaceName name arity := by
  simp only [foundIn, h.lookupIn_eq, h.isNamespace_eq]

theorem foundKeyword_eq (h : t.Extends u) (word : String) : u.foundKeyword word = t.foundKeyword word := by
  simp only [foundKeyword, special?, h.specials_eq]

theorem foundInType_eq (h : t.Extends u) (ht : t.Sound) (outer : TypeId) (name : String) (arity : Nat) :
    u.foundInType outer name arity = t.foundInType outer name arity := by
  have hfind (ps : List TypeId) (hps : ∀ p ∈ ps, t.Has p) :
      ps.find? (u.name · = name) = ps.find? (t.name · = name) := by
    induction ps with
    | nil => rfl
    | cons p ps ih =>
      obtain ⟨hp, hrest⟩ := List.forall_mem_cons.1 hps
      rw [List.find?_cons, List.find?_cons, Keeps.name_eq (.of_extends h) hp, ih hrest]
  rw [foundInType, foundInType, h.typeParameters_eq, h.lookupNested_eq,
    hfind _ fun p hp => ht.part_lt (mem_parts_of_typeParameters hp)]

theorem findImported_eq (h : t.Extends u) (usings : List UsingDirective) (name : String) (arity : Nat) :
    findImported u usings name arity = findImported t usings name arity := by
  simp only [findImported, h.lookupIn_eq]

theorem nullableUnderlying_eq (h : t.Extends u) (hid : t.Has id) :
    u.nullableUnderlying id = t.nullableUnderlying id := by
  simp only [nullableUnderlying, h.shape_eq hid, h.metadataName?_eq]

theorem isValueType_eq (h : t.Extends u) (hid : t.Has id) : u.isValueType id = t.isValueType id := by
  simp only [isValueType, Keeps.kind_eq (.of_extends h) hid]

theorem addProperty (t : TypeTable) (id : TypeId) (symbol : PropertySymbol) :
    t.Extends (t.addProperty id symbol) := by
  rw [TypeTable.addProperty]
  split
  · exact .update id (fun _ => rfl) fun _ => rfl
  · exact .refl t

end Extends

end TypeTable

/-! ## What is found -/

/-- What was found is in the table, and it is a definition if it is to be given arguments. -/
def Found.Fits (t : TypeTable) (arity : Nat) : Found → Prop
  | .inNamespace _ => True
  | .type id => t.Has id ∧ (arity ≠ 0 → t.isDefinition id = true)

/-- What was found, if anything was, fits the number of arguments. -/
def FoundFits (arity : Nat) (t : TypeTable) (o : Option Found) : Prop := ∀ found ∈ o, found.Fits t arity

namespace TypeTable

variable {t u : TypeTable} {id : TypeId} {name : String} {arity : Nat}

theorem isDefinition_of_lookup {unique : String} (h : t.lookup unique = some id) :
    t.isDefinition id = true := by
  rw [isDefinition, metadataName?_of_lookup h]
  rfl

theorem fits_of_lookup {unique : String} (h : t.lookup unique = some id) (arity : Nat) :
    (Found.type id).Fits t arity :=
  ⟨index_lt_of_lookup h, fun _ => isDefinition_of_lookup h⟩

theorem fits_lookupNested {outer : TypeId} (h : t.lookupNested outer name arity = some id) :
    (Found.type id).Fits t arity := by
  obtain ⟨unique, -, hlookup⟩ := Option.bind_eq_some_iff.1 h
  exact fits_of_lookup hlookup arity

theorem fits_foundIn (t : TypeTable) (namespaceName name : String) (arity : Nat) :
    FoundFits arity t (t.foundIn namespaceName name arity) := by
  intro found hfound
  rw [foundIn] at hfound
  split at hfound
  · next id hlookup =>
    obtain rfl : .type id = found := Option.some.inj hfound
    exact fits_of_lookup hlookup arity
  · generalize (if namespaceName = "" then name else namespaceName ++ "." ++ name) = inner at hfound
    dsimp only at hfound
    split at hfound
    · obtain rfl : .inNamespace inner = found := Option.some.inj hfound
      trivial
    · cases hfound

theorem fits_foundInType (ht : t.Sound) {outer : TypeId} (h : t.foundInType outer name arity = some id) :
    (Found.type id).Fits t arity := by
  rw [foundInType] at h
  cases hparameter : (if arity = 0 then (t.typeParameters outer).find? (t.name · = name) else none) with
  | none =>
    rw [hparameter] at h
    exact fits_lookupNested h
  | some parameter =>
    rw [hparameter] at h
    obtain rfl : parameter = id := Option.some.inj h
    split at hparameter
    · next harity =>
      have hmem := List.mem_of_find?_eq_some hparameter
      exact ⟨ht.part_lt (mem_parts_of_typeParameters hmem), fun hne => absurd harity hne⟩
    · cases hparameter

theorem has_special? (ht : t.Regular) {special : SpecialType} (h : t.special? special = some id) :
    t.Has id := by
  obtain ⟨_, _, hspecials, -⟩ := List.lookup_eq_some_iff.1 h
  exact ht.special _ (hspecials ▸ List.mem_append_right _ List.mem_cons_self)

theorem has_foundKeyword (ht : t.Regular) (h : t.foundKeyword name = some (some id)) : t.Has id := by
  have hspecial : ∃ special : SpecialType, t.special? special = some id := by
    rw [foundKeyword] at h
    split at h
    · exact ⟨_, Option.some.inj h⟩
    · split at h
      · exact ⟨_, Option.some.inj h⟩
      · cases h
  obtain ⟨special, hspecial⟩ := hspecial
  exact has_special? ht hspecial

theorem fits_findImported {usings : List UsingDirective} (h : findImported t usings name arity = some id) :
    (Found.type id).Fits t arity := by
  obtain ⟨directive, -, hfound⟩ := List.exists_of_findSome?_eq_some h
  split at hfound
  · exact fits_of_lookup hfound arity
  · cases hfound

end TypeTable

/-! ## Settling -/

namespace Bind

/-- The invariant is one of regular tables, and is kept when a type is asked for. -/
structure Admits (I : TypeTable → Prop) : Prop where
  regular : ∀ {t}, I t → t.Regular
  intern : ∀ {t : TypeTable} {shape : Shape}, I t → shape.isBuilt = true → shape.isProper = true →
    (∀ p ∈ shape.parts, t.Has p) →
    (∀ {generic arguments}, shape = .constructed generic arguments → t.isDefinition generic = true) →
    I (t.intern shape).2

/-- From the state the action keeps the invariant and only adds to the table. Asking again in a later
    state gives the same value and adds nothing. -/
structure Settles (I : TypeTable → Prop) (fits : TypeTable → α → Prop) (x : Bind α) (s : BindState) :
    Prop extends Gives BindState.table I fits x s where
  again : ∀ u : BindState, I u.table → (x s).2.table.Extends u.table →
    (x u).1 = (x s).1 ∧ (x u).2.table = u.table

variable {I : TypeTable → Prop} {s : BindState}

namespace Settles

variable {fits : TypeTable → α → Prop}

theorem pure {a : α} (h : I s.table) (ha : fits s.table a) : Settles I fits (pure a) s :=
  ⟨.pure h ha, fun _ _ _ => ⟨rfl, rfl⟩⟩

theorem bind {fits' : TypeTable → β → Prop} {x : Bind α} {next : α → Bind β} (h : Settles I fits x s)
    (hnext : ∀ a u, I u.table → s.table.Extends u.table → fits u.table a → Settles I fits' (next a) u) :
    Settles I fits' (x >>= next) s where
  toGives := h.toGives.bind fun a u hu hsu ha => (hnext a u hu hsu ha).toGives
  again u hu hextends := by
    have hrest := hnext _ _ h.inv h.growth h.value
    obtain ⟨hvalue, htable⟩ := h.again u hu (TypeTable.Growth.trans hrest.growth hextends)
    have hlast := hrest.again (x u).2 (htable ▸ hu) (htable ▸ hextends)
    rw [htable] at hlast
    rw [bind_apply, hvalue]
    exact hlast

/-- What is read off the table has to stay as the table grows. -/
theorem table_bind {next : TypeTable → Bind α} (h : Settles I fits (next s.table) s)
    (hsame : ∀ u : TypeTable, s.table.Extends u → next u = next s.table) :
    Settles I fits (table >>= next) s where
  toGives := ⟨h.inv, h.growth, h.value⟩
  again u hu hextends := by
    have heq : (table >>= next) u = next s.table u :=
      congrFun (hsame u.table (TypeTable.Growth.trans h.growth hextends)) u
    rw [heq]
    exact h.again u hu hextends

/-- The action may be another one as long as the two do the same from now on. -/
theorem congr {x y : Bind α} (heq : ∀ u : BindState, s.table.Extends u.table → x u = y u)
    (h : Settles I fits y s) : Settles I fits x s where
  toGives := h.toGives.congr (heq s (.refl _))
  again u hu hextends := by
    rw [heq s (.refl _)] at hextends ⊢
    rw [heq u (TypeTable.Growth.trans h.growth hextends)]
    exact h.again u hu hextends

end Settles

theorem settles_report (h : I s.table) (id message : String) (span : Span) :
    Settles I (fun _ _ => True) (report id message span) s :=
  ⟨⟨h, .refl _, trivial⟩, fun _ _ _ => ⟨rfl, rfl⟩⟩

section

variable (hI : Admits I)
include hI

theorem settles_intern (shape : Shape) (h : I s.table) (hbuilt : shape.isBuilt = true)
    (hproper : shape.isProper = true) (hparts : ∀ p ∈ shape.parts, s.table.Has p)
    (hgeneric : ∀ {generic arguments}, shape = .constructed generic arguments →
      s.table.isDefinition generic = true) :
    Settles I TypeTable.Has (onTable (·.intern shape)) s := by
  have hinterned := (hI.regular h).toSound.interned hparts hproper hbuilt 0
  refine ⟨⟨hI.intern h hbuilt hproper hparts hgeneric, hinterned.growth, hinterned.index_lt⟩, ?_⟩
  intro u hu hextends
  have hlt : u.table.Has (s.table.intern shape).1 := TypeTable.Has.mono hinterned.index_lt hextends
  have hshape : u.table.shape (s.table.intern shape).1 = shape :=
    (hextends.shape_eq hinterned.index_lt).trans hinterned.shape_eq
  have hagain := (hI.regular hu).toSound.intern_eq hlt (by rw [hshape]; exact hbuilt)
  rw [hshape] at hagain
  show (u.table.intern shape).1 = (s.table.intern shape).1 ∧ (u.table.intern shape).2 = u.table
  rw [hagain]
  exact ⟨rfl, rfl⟩

theorem settles_error (h : I s.table) (name : String) :
    Settles I TypeTable.Has (onTable (·.error name)) s :=
  settles_intern hI _ h rfl rfl (List.forall_mem_nil _) nofun

theorem settles_construct (h : I s.table) {definition : TypeId} {arguments : List TypeId}
    (hdefinition : (Found.type definition).Fits s.table arguments.length)
    (harguments : ∀ a ∈ arguments, s.table.Has a) :
    Settles I TypeTable.Has (onTable (·.construct definition arguments)) s := by
  cases arguments with
  | nil => exact .pure h hdefinition.1
  | cons a as =>
    refine settles_intern hI (.constructed definition (a :: as)) h rfl rfl ?_ ?_
    · exact List.forall_mem_cons.2 ⟨hdefinition.1, harguments⟩
    · rintro _ _ ⟨⟩
      exact hdefinition.2 nofun

/-! ### Names -/

section

variable {resolveAlias : ResolveAlias}
  (halias : ∀ target s, I s.table → Settles I (FoundFits 0) (resolveAlias target) s)
include halias

omit hI in
theorem settles_foundInUsings (h : I s.table) (usings : List UsingDirective) (name : String) (arity : Nat) :
    Settles I (FoundFits arity) (foundInUsings resolveAlias usings name arity) s := by
  rw [foundInUsings]
  split
  · next target htarget =>
    split at htarget
    · next harity => exact harity ▸ halias target s h
    · cases htarget
  · refine .table_bind (.pure h fun found hfound => ?_) fun u hu => by rw [hu.findImported_eq]
    obtain ⟨id, hid, rfl⟩ := Option.map_eq_some_iff.1 hfound
    exact TypeTable.fits_findImported hid

omit hI in
theorem settles_foundInScopes (name : String) (arity : Nat) (scopes : List UsingScope) (h : I s.table) :
    Settles I (FoundFits arity) (foundInScopes resolveAlias name arity scopes) s := by
  induction scopes generalizing s with
  | nil => exact .pure h nofun
  | cons scope scopes ih =>
    refine (settles_foundInUsings halias h scope.usings name arity).bind fun found u hu _ hfound => ?_
    cases found with
    | some found => exact .pure hu hfound
    | none => exact ih hu

omit hI in
theorem settles_foundInNamespaces (scopes : List UsingScope) (name : String) (arity : Nat)
    (namespaces : List String) (h : I s.table) :
    Settles I (FoundFits arity) (foundInNamespaces resolveAlias scopes name arity namespaces) s := by
  induction namespaces generalizing s with
  | nil => exact .pure h nofun
  | cons namespaceName outer ih =>
    refine .table_bind ?_ fun u hu => by rw [hu.foundIn_eq]
    have hfits := s.table.fits_foundIn namespaceName name arity
    cases hfound : s.table.foundIn namespaceName name arity with
    | some found => exact .pure h (hfound ▸ hfits)
    | none =>
      refine (settles_foundInScopes halias name arity _ h).bind fun found u hu _ hfound => ?_
      cases found with
      | some found => exact .pure hu hfound
      | none => exact ih hu

theorem settles_foundFirst (context : Context) (name : String) (arity : Nat) (h : I s.table) :
    Settles I (FoundFits arity) (foundFirst resolveAlias context name arity) s := by
  have ht := hI.regular h
  refine .table_bind ?_ fun u hu => ?_
  · cases hword : (if arity = 0 then s.table.foundKeyword name else none) with
    | some special =>
      refine .pure h fun found hfound => ?_
      obtain ⟨id, rfl, rfl⟩ := Option.map_eq_some_iff.1 hfound
      split at hword
      · next harity => exact ⟨TypeTable.has_foundKeyword ht hword, fun hne => absurd harity hne⟩
      · cases hword
    | none =>
      cases henclosing : context.enclosing.findSome? (s.table.foundInType · name arity) with
      | some id =>
        refine .pure h fun found hfound => ?_
        obtain rfl : .type id = found := Option.some.inj hfound
        obtain ⟨outer, -, hfound⟩ := List.exists_of_findSome?_eq_some henclosing
        exact TypeTable.fits_foundInType ht.toSound hfound
      | none => exact settles_foundInNamespaces halias _ name arity _ h
  · simp only [hu.foundKeyword_eq, hu.foundInType_eq ht.toSound]

end

omit hI in
theorem settles_foundInside {outer : Found} (h : I s.table) (houter : outer.Fits s.table 0)
    (name : String) (arity : Nat) : Settles I (FoundFits arity) (foundInside outer name arity) s := by
  cases outer with
  | inNamespace namespaceName =>
    exact .table_bind (.pure h (s.table.fits_foundIn namespaceName name arity))
      fun u hu => by simp only [hu.foundIn_eq]
  | type id =>
    refine .table_bind (.pure h fun found hfound => ?_) fun u hu => ?_
    · obtain ⟨id', hid', rfl⟩ := Option.map_eq_some_iff.1 hfound
      exact TypeTable.fits_lookupNested hid'
    · simp only [TypeTable.constructedFrom, hu.shape_eq houter.1, hu.lookupNested_eq]

theorem settles_withArguments {found : Found} {arguments : List TypeId} (h : I s.table)
    (hfound : found.Fits s.table arguments.length) (harguments : ∀ a ∈ arguments, s.table.Has a) :
    Settles I (fun t found => found.Fits t 0) (withArguments found arguments) s := by
  cases found with
  | inNamespace name => exact .pure h trivial
  | type definition =>
    exact (settles_construct hI h hfound harguments).bind fun id u hu _ hid => .pure hu ⟨hid, nofun⟩

theorem settles_lookupInside (segments : List (String × List TypeId)) {outer : Found} (h : I s.table)
    (houter : outer.Fits s.table 0) (hsegments : ∀ segment ∈ segments, ∀ a ∈ segment.2, s.table.Has a) :
    Settles I (fun t o => ∀ id ∈ o, t.Has id) (lookupInside outer segments) s := by
  induction segments generalizing outer s with
  | nil =>
    refine .pure h fun id hid => ?_
    cases outer with
    | inNamespace name => cases hid
    | type id' => exact Option.some.inj hid ▸ houter.1
  | cons segment segments ih =>
    obtain ⟨hfirst, hrest⟩ := List.forall_mem_cons.1 hsegments
    refine (settles_foundInside h houter segment.1 segment.2.length).bind fun found u hu hsu hfound => ?_
    cases found with
    | none => exact .pure hu nofun
    | some found =>
      refine (settles_withArguments hI hu (hfound found rfl) fun a ha => (hfirst a ha).mono hsu).bind
        fun found v hv huv hfound => ih hv hfound fun segment hsegment a ha => ?_
      exact (hrest segment hsegment a ha).mono (TypeTable.Growth.trans hsu huv)

variable {resolveAlias : ResolveAlias}
  (halias : ∀ target s, I s.table → Settles I (FoundFits 0) (resolveAlias target) s)
include halias

theorem settles_lookup (context : Context) (isGlobal : Bool) (segments : List (String × List TypeId))
    (h : I s.table) (hsegments : ∀ segment ∈ segments, ∀ a ∈ segment.2, s.table.Has a) :
    Settles I (fun t o => ∀ id ∈ o, t.Has id) (lookup resolveAlias context isGlobal segments) s := by
  cases segments with
  | nil => exact .pure h nofun
  | cons segment segments =>
    obtain ⟨hfirst, hrest⟩ := List.forall_mem_cons.1 hsegments
    have hinside (first : Option Found) (u : BindState) (hu : I u.table) (hsu : s.table.Extends u.table)
        (hfound : FoundFits segment.2.length u.table first) :
        Settles I (fun t o => ∀ id ∈ o, t.Has id) (lookupFrom segment.2 segments first) u := by
      cases first with
      | none => exact .pure hu nofun
      | some found =>
        refine (settles_withArguments hI hu (hfound found rfl) fun a ha => (hfirst a ha).mono hsu).bind
          fun found v hv huv hfound => settles_lookupInside hI segments hv hfound ?_
        exact fun segment hsegment a ha =>
          (hrest segment hsegment a ha).mono (TypeTable.Growth.trans hsu huv)
    rw [Bind.lookup]
    split
    · refine .table_bind (.bind (.pure h (s.table.fits_foundIn "" segment.1 segment.2.length)) hinside)
        fun u hu => by rw [hu.foundIn_eq]
    · exact (settles_foundFirst hI halias context segment.1 segment.2.length h).bind hinside

/-! ### Types -/

theorem settles_namedType (context : Context) (isGlobal : Bool) (segments : List NameSegment) (span : Span)
    {arguments : List (List TypeId)} (h : I s.table)
    (harguments : ∀ ids ∈ arguments, ∀ id ∈ ids, s.table.Has id) :
    Settles I TypeTable.Has (namedType resolveAlias context isGlobal segments span arguments) s := by
  have hkind {u : TypeTable} (hu : s.table.Extends u) :
      arguments.any (·.any (u.kind · = .error)) = arguments.any (·.any (s.table.kind · = .error)) := by
    refine any_congr fun ids hids => any_congr fun id hid => ?_
    rw [TypeTable.Keeps.kind_eq (.of_extends hu) (harguments ids hids id hid)]
  refine .table_bind ?_ fun u hu => by rw [hkind hu]
  split
  · exact settles_error hI h _
  · refine (settles_lookup hI halias context isGlobal _ h fun segment hsegment =>
      harguments _ (List.of_mem_zip hsegment).2).bind fun found u hu _ hfound => ?_
    cases found with
    | some id => exact .pure hu (hfound id rfl)
    | none => exact (settles_report hu _ _ _).bind fun _ v hv _ _ => settles_error hI hv _

omit halias in
theorem settles_arrayType {element : TypeId} (h : I s.table) (helement : s.table.Has element) (rank : Nat) :
    Settles I TypeTable.Has (arrayType element rank) s := by
  refine .table_bind ?_ fun u hu => by rw [TypeTable.Keeps.kind_eq (.of_extends hu) helement]
  split
  · exact .pure h helement
  · exact settles_intern hI (.array element (max rank 1)) h rfl
      (decide_eq_true (Nat.le_max_right rank 1)) (fun p hp => List.mem_singleton.1 hp ▸ helement) nofun

omit halias in
theorem settles_nullableType {inner : TypeId} (h : I s.table) (hinner : s.table.Has inner) :
    Settles I TypeTable.Has (nullableType inner) s := by
  refine .table_bind ?_ fun u hu => by rw [hu.isValueType_eq hinner, hu.nullableUnderlying_eq hinner]
  split
  · -- There is a definition of nullable types now if there is one later.
    have hrun (u : BindState) (hu : s.table.Extends u.table) : onTable (·.nullable inner) u
        = (s.table.lookup TypeTable.nullableName).elim (Pure.pure inner)
          (fun definition => onTable (·.construct definition [inner])) u := by
      show ((u.table.nullable inner).1, { u with table := (u.table.nullable inner).2 }) = _
      rw [TypeTable.nullable, hu.lookup_eq]
      cases s.table.lookup TypeTable.nullableName <;> rfl
    refine .congr hrun ?_
    cases hlookup : s.table.lookup TypeTable.nullableName with
    | none => exact .pure h hinner
    | some definition =>
      exact settles_construct hI h (TypeTable.fits_of_lookup hlookup _)
        fun a ha => List.mem_singleton.1 ha ▸ hinner
  · exact .pure h hinner

end

mutual

theorem settles_typeWith (hI : Admits I) {resolveAlias : ResolveAlias}
    (halias : ∀ target s, I s.table → Settles I (FoundFits 0) (resolveAlias target) s)
    (context : Context) : (expr : TypeExpr) → {s : BindState} → I s.table →
    Settles I TypeTable.Has (typeWith resolveAlias context expr) s
  | .named isGlobal segments span, s, h => by
    exact (settles_argumentsWith hI halias context segments h).bind fun arguments u hu _ harguments =>
      settles_namedType hI halias context isGlobal segments span hu harguments
  | .array element rank span, s, h => by
    exact (settles_typeWith hI halias context element h).bind fun id u hu _ hid =>
      settles_arrayType hI hu hid rank
  | .nullable inner span, s, h => by
    exact (settles_typeWith hI halias context inner h).bind fun id u hu _ hid =>
      settles_nullableType hI hu hid
  | .unsupported span, s, h => by
    exact settles_error hI h "?"

theorem settles_argumentsWith (hI : Admits I) {resolveAlias : ResolveAlias}
    (halias : ∀ target s, I s.table → Settles I (FoundFits 0) (resolveAlias target) s)
    (context : Context) : (segments : List NameSegment) → {s : BindState} → I s.table →
    Settles I (fun t lists => ∀ ids ∈ lists, ∀ id ∈ ids, t.Has id)
      (argumentsWith resolveAlias context segments) s
  | [], s, h => by
    exact .pure h (List.forall_mem_nil _)
  | .mk name arguments :: segments, s, h => by
    refine (settles_typesWith hI halias context arguments h).bind fun ids u hu _ hids => ?_
    exact (settles_argumentsWith hI halias context segments hu).bind fun lists v hv huv hlists =>
      .pure hv (List.forall_mem_cons.2 ⟨fun id hid => (hids id hid).mono huv, hlists⟩)

theorem settles_typesWith (hI : Admits I) {resolveAlias : ResolveAlias}
    (halias : ∀ target s, I s.table → Settles I (FoundFits 0) (resolveAlias target) s)
    (context : Context) : (exprs : List TypeExpr) → {s : BindState} → I s.table →
    Settles I (fun t ids => ∀ id ∈ ids, t.Has id) (typesWith resolveAlias context exprs) s
  | [], s, h => by
    exact .pure h (List.forall_mem_nil _)
  | expr :: exprs, s, h => by
    refine (settles_typeWith hI halias context expr h).bind fun id u hu _ hid => ?_
    exact (settles_typesWith hI halias context exprs hu).bind fun ids v hv huv hids =>
      .pure hv (List.forall_mem_cons.2 ⟨hid.mono huv, hids⟩)

end

section

variable (hI : Admits I)

include hI

theorem settles_aliasTarget (target : TypeExpr) (s : BindState) (h : I s.table) :
    Settles I (FoundFits 0) (aliasTarget target) s := by
  cases target with
  | named isGlobal segments span =>
    have hnone (target : TypeExpr) (s : BindState) (h : I s.table) :
        Settles I (FoundFits 0) ((fun _ => Pure.pure none : ResolveAlias) target) s := .pure h nofun
    refine .table_bind ?_ fun u hu => by rw [hu.isNamespace_eq]
    split
    · exact .pure h fun found hfound => Option.some.inj hfound ▸ trivial
    · refine (settles_argumentsWith hI hnone {} segments h).bind fun arguments u hu _ harguments => ?_
      refine (settles_lookup hI hnone {} isGlobal _ hu fun segment hsegment =>
        harguments _ (List.of_mem_zip hsegment).2).bind fun found v hv _ hfound => .pure hv ?_
      intro found' hfound'
      obtain ⟨id, hid, rfl⟩ := Option.map_eq_some_iff.1 hfound'
      exact ⟨hfound id hid, nofun⟩
  | _ => exact .pure h nofun

theorem settles_type (context : Context) (expr : TypeExpr) (h : I s.table) :
    Settles I TypeTable.Has (type context expr) s :=
  settles_typeWith hI (settles_aliasTarget hI) context expr h

/-! ### Attributes and properties -/

theorem settles_constant (context : Context) (value : Expr) (h : I s.table) :
    Settles I (fun _ _ => True) (constant context value) s := by
  cases value with
  | typeOf expr span =>
    refine (settles_type hI context expr h).bind fun id u hu _ hid => ?_
    refine .table_bind ?_ fun v hv => by rw [TypeTable.Keeps.kind_eq (.of_extends hv) hid]
    split <;> exact .pure hu trivial
  | _ => exact .pure h trivial

theorem settles_attributeClass (context : Context) (a : Attribute) (h : I s.table) :
    Settles I (fun _ _ => True) (attributeClass context a) s := by
  rw [attributeClass]
  split
  · next isGlobal segments span hname =>
    refine (settles_argumentsWith hI (settles_aliasTarget hI) context segments h).bind
      fun arguments u hu _ harguments => ?_
    have hfull (names : List String) {v : BindState} (hv : I v.table) (huv : u.table.Extends v.table) :
        Settles I (fun t o => ∀ id ∈ o, t.Has id)
          (lookup aliasTarget context isGlobal (names.zip arguments)) v :=
      settles_lookup hI (settles_aliasTarget hI) context isGlobal _ hv fun segment hsegment a ha =>
        (harguments _ (List.of_mem_zip hsegment).2 a ha).mono huv
    refine (hfull _ hu (.refl _)).bind fun found v hv huv _ => ?_
    cases found with
    | some id => exact .pure hv trivial
    | none => exact ⟨(hfull _ hv huv).toGives.imp fun _ _ _ => trivial, (hfull _ hv huv).again⟩
  · exact .pure h trivial

end

/-- From the table on the action has the result. -/
def Lasts (I : TypeTable → Prop) (x : Bind α) (t : TypeTable) (a : α) : Prop :=
  ∀ u : BindState, I u.table → t.Extends u.table → (x u).1 = a

theorem Lasts.mono {x : Bind α} {t u : TypeTable} {a : α} (hextends : t.Extends u) (h : Lasts I x t a) :
    Lasts I x u a := fun v hv huv => h v hv (TypeTable.Growth.trans hextends huv)

theorem Settles.lasts {fits : TypeTable → α → Prop} {x : Bind α} (h : Settles I fits x s) :
    Gives BindState.table I (fun t a => fits t a ∧ Lasts I x t a) x s :=
  ⟨h.inv, h.growth, h.value, fun u hu hextends => (h.again u hu hextends).1⟩

/-- The symbol has the class and the values of the arguments that are found from the table on. -/
def AttributeLasts (I : TypeTable → Prop) (context : Context) (t : TypeTable) (a : Attribute)
    (symbol : AppliedAttribute) : Prop :=
  ∃ cls constructors values, symbol = a.applied cls constructors values ∧
    Lasts I (attributeClass context a) t cls ∧ List.Forall₂
      (fun argument => Lasts I (constant context argument.value) t) a.writtenArguments values

theorem AttributeLasts.mono {context : Context} {t u : TypeTable} {a : Attribute}
    {symbol : AppliedAttribute} (hextends : t.Extends u) (h : AttributeLasts I context t a symbol) :
    AttributeLasts I context u a symbol := by
  obtain ⟨cls, constructors, values, heq, hcls, hvalues⟩ := h
  exact ⟨cls, constructors, values, heq, hcls.mono hextends, hvalues.imp fun _ _ h => h.mono hextends⟩

theorem gives_appliedAttribute (hI : Admits I) (context : Context) (a : Attribute) (h : I s.table) :
    Gives BindState.table I (AttributeLasts I context · a) (appliedAttribute context a) s := by
  refine (settles_attributeClass hI context a h).lasts.bind fun cls u hu _ hcls => ?_
  have hrest (v : BindState) (hv : I v.table) (huv : u.table.Extends v.table) :
      Gives BindState.table I (AttributeLasts I context · a) (do
        let values ← a.writtenArguments.mapM fun argument => constant context argument.value
        let t ← table
        return a.applied cls ((cls.map t.constructors).getD []) values) v := by
    refine (Gives.mapM (R := fun t argument => Lasts I (constant context argument.value) t)
      Lasts.mono (fun argument _ w hw _ => ?_) hv).bind fun values w hw hvw hvalues => ?_
    · exact (settles_constant hI context argument.value hw).lasts.imp fun _ _ h => h.2
    · exact ⟨hw, .refl _, cls, _, values, rfl,
        hcls.2.mono (TypeTable.Growth.trans huv hvw), hvalues⟩
  cases cls with
  | none => exact (settles_report hu _ _ _).toGives.bind fun _ v hv huv _ => hrest v hv huv
  | some id => exact hrest u hu (.refl _)

theorem gives_property (hI : Admits I) (context : Context) (p : Property) (h : I s.table) :
    Gives BindState.table I (fun t symbol => t.Has symbol.type ∧
        Lasts I (type context p.type) t symbol.type ∧
        List.Forall₂ (AttributeLasts I context t) p.ownAttributes symbol.attributes)
      (property context p) s := by
  refine (settles_type hI context p.type h).lasts.bind fun id u hu _ hid => ?_
  refine (Gives.mapM (R := AttributeLasts I context) AttributeLasts.mono
    (fun a _ v hv _ => gives_appliedAttribute hI context a hv) hu).bind fun attributes v hv huv hall => ?_
  exact .pure hv ⟨hid.1.mono huv, hid.2.mono huv, hall⟩

/-! ## Declarations -/

theorem gives_table_bind {fits : TypeTable → α → Prop} {next : TypeTable → Bind α}
    (h : Gives BindState.table I fits (next s.table) s) :
    Gives BindState.table I fits (table >>= next) s :=
  ⟨h.inv, h.growth, h.value⟩

theorem gives_forM {x : α → Bind Unit} {as : List α}
    (h : ∀ a ∈ as, ∀ u, I u.table → Gives BindState.table I (fun _ _ => True) (x a) u)
    (hs : I s.table) : Gives BindState.table I (fun _ _ => True) (as.forM x) s := by
  induction as generalizing s with
  | nil => exact .pure hs trivial
  | cons a as ih =>
    exact (h a List.mem_cons_self s hs).bind fun _ u hu _ _ =>
      ih (fun a' ha => h a' (List.mem_cons_of_mem _ ha)) hu

/-- The invariant is kept when a type is asked for, when the declared type gets more members, and
    when a property is bound and added to it. -/
structure Accepts (I : TypeTable → Prop) (d : Declared) : Prop extends Admits I where
  update : ∀ {t : TypeTable} {f : Entry → Entry}, I t → Entry.Keeps f → (∀ e, (f e).depth = e.depth) →
    (∀ e, (f e).instantiated = e.instantiated) → (∀ other ∈ (f (t.entry d.id)).named, t.Has other) →
    I (t.update d.id f)
  addProperty : ∀ p ∈ d.declaration.properties, ∀ s : BindState, I s.table →
    I (addProperty d p s).2.table

section

variable {d : Declared} (hI : Accepts I d)
include hI

theorem gives_update {f : Entry → Entry} (h : I s.table) (hkeeps : Entry.Keeps f)
    (hdepth : ∀ e, (f e).depth = e.depth) (hmark : ∀ e, (f e).instantiated = e.instantiated)
    (hnamed : ∀ other ∈ (f (s.table.entry d.id)).named, s.table.Has other) :
    Gives BindState.table I (fun _ _ => True) (changeTable (·.update d.id f)) s :=
  ⟨hI.update h hkeeps hdepth hmark hnamed, .update d.id hkeeps.shape hkeeps.special, trivial⟩

theorem gives_setBase {base : TypeId} (h : I s.table) (hbase : s.table.Has base) :
    Gives BindState.table I (fun _ _ => True) (changeTable (·.setBase d.id base)) s :=
  gives_update hI h (keeps_setBase base) (fun _ => rfl) (fun _ => rfl) fun _ hother =>
    (Entry.mem_named_setBase hother).elim (fun heq => heq ▸ hbase) (hI.regular h).named

theorem gives_addConstructor {parameters : List ParameterSymbol} (h : I s.table)
    (hparameters : ∀ p ∈ parameters, s.table.Has p.type) :
    Gives BindState.table I (fun _ _ => True) (changeTable (·.addConstructor d.id parameters)) s :=
  gives_update hI h ⟨fun _ => rfl, fun _ => rfl, fun _ => rfl⟩ (fun _ => rfl) (fun _ => rfl)
    fun _ hother => (Entry.mem_named_addConstructor hother).elim
      (fun ⟨p, hp, heq⟩ => heq ▸ hparameters p hp) (hI.regular h).named

theorem gives_baseType (isFirst : Bool) (expr : TypeExpr) (h : I s.table) :
    Gives BindState.table I (fun _ _ => True) (baseType d isFirst expr) s := by
  refine (settles_type hI.toAdmits d.context expr h).toGives.bind fun id u hu _ hid =>
    gives_table_bind ?_
  refine .ite ?_ (.ite (gives_setBase hI hu hid) (.pure hu trivial))
  refine gives_update hI hu ⟨fun e => ?_, fun e => ?_, fun e => ?_⟩ (fun e => ?_) (fun e => ?_)
    fun _ hother => (Entry.mem_named_addInterface hother).elim (fun heq => heq ▸ hid)
      (hI.regular hu).named
  all_goals
    split <;> rfl

theorem gives_setDefaultBase (h : I s.table) :
    Gives BindState.table I (fun _ _ => True) (setDefaultBase d) s := by
  refine gives_table_bind ?_
  split
  · split
    · next base hbase =>
      refine gives_setBase hI h ?_
      revert hbase
      intro hbase
      unfold defaultBase at hbase
      split at hbase
      · exact TypeTable.has_special? (hI.regular h) hbase
      · exact TypeTable.index_lt_of_lookup hbase
      · exact TypeTable.index_lt_of_lookup hbase
      · cases hbase
    · exact .pure h trivial
  · exact .pure h trivial

theorem gives_constructor (list : List Parameter) (h : I s.table) :
    Gives BindState.table I (fun _ _ => True) (constructor d list) s := by
  refine (Gives.mapM (R := fun t _ (symbol : ParameterSymbol) => t.Has symbol.type)
    (fun hextends h => h.mono hextends) (fun p _ u hu _ => ?_) h).bind fun symbols u hu _ hsymbols =>
      gives_addConstructor hI hu fun symbol hsymbol => ?_
  · exact (settles_type hI.toAdmits d.context p.type hu).toGives.bind fun id v hv _ hid => .pure hv hid
  · obtain ⟨p, -, hp⟩ := exists_of_forall₂ hsymbols hsymbol
    exact hp

theorem gives_member {m : Member} (hm : m ∈ d.declaration.members) (h : I s.table) :
    Gives BindState.table I (fun _ _ => True) (member d m) s := by
  cases m with
  | property p =>
    refine ⟨hI.addProperty p (List.mem_filterMap.2 ⟨_, hm, rfl⟩) s h, ?_, trivial⟩
    refine TypeTable.Growth.trans (gives_property hI.toAdmits d.context p h).growth ?_
    exact .addProperty _ d.id _
  | constructor c =>
    exact .ite (.pure h trivial) (gives_constructor hI c.parameters h)
  | nested declaration => exact .pure h trivial
  | other span => exact .pure h trivial

/-- Binding a declaration keeps the invariant. -/
theorem gives_declaration (h : I s.table) :
    Gives BindState.table I (fun _ _ => True) (declaration d) s := by
  have hbases {u : BindState} (hu : I u.table) :
      Gives BindState.table I (fun _ _ => True) (baseTypes d) u := by
    rw [baseTypes]
    split
    · exact (gives_forM (fun base _ v hv => gives_baseType hI _ base.1 hv) hu).bind
        fun _ v hv _ _ => gives_setDefaultBase hI hv
    · exact gives_setDefaultBase hI hu
  have himplicit {u : BindState} (hu : I u.table) :
      Gives BindState.table I (fun _ _ => True) (implicitConstructor d) u := by
    refine gives_table_bind ?_
    exact .ite (gives_addConstructor hI hu (List.forall_mem_nil _)) (.pure hu trivial)
  have hmembers {u : BindState} (hu : I u.table) : Gives BindState.table I (fun _ _ => True)
      (d.declaration.members.forM (member d) >>= fun _ => implicitConstructor d) u :=
    (gives_forM (fun m hm v hv => gives_member hI hm hv) hu).bind fun _ v hv _ _ => himplicit hv
  refine (hbases h).bind fun _ u hu _ _ => ?_
  rw [members]
  cases d.declaration.header.primaryParameters with
  | none => exact hmembers hu
  | some list => exact (gives_constructor hI list hu).bind fun _ v hv _ _ => hmembers hv

end

end Bind

end SettingsLint
