import SettingsLint.Proofs.Binding.DeclaredTypes
import SettingsLint.Proofs.Types.Origins

/-! # What names resolve to

Unless an alias is in the way, a name that resolves stands for a type of this name: a
definition, a type parameter, or a generic type made from a definition. Words of the language
stand for special types. The class of an attribute is called like the attribute, with
`Attribute` appended or not.
-/

namespace SettingsLint

open Placed (places)

/-! ## The names of declarations -/

mutual

theorem TypeDeclaration.places_subset {d : TypeDeclaration} : (declaration : TypeDeclaration) →
    d ∈ declaration.withNested → places d ⊆ places declaration
  | .mk header members, hd => by
    rcases List.mem_cons.1 hd with rfl | hd
    · exact List.Subset.refl _
    · rw [places_declaration]
      exact List.subset_append_of_subset_right _ (Member.places_subset members hd)

theorem Member.places_subset {d : TypeDeclaration} : (members : List Member) →
    d ∈ Member.nestedIn members → places d ⊆ places members
  | [], hd => absurd hd List.not_mem_nil
  | .nested declaration :: members, hd => by
    rcases List.mem_append.1 hd with hd | hd
    · exact List.subset_append_of_subset_left _ (TypeDeclaration.places_subset declaration hd)
    · exact List.subset_append_of_subset_right _ (Member.places_subset members hd)
  | .property _ :: members, hd => by
    exact List.subset_append_of_subset_right _ (Member.places_subset members hd)
  | .constructor _ :: members, hd => by
    exact List.subset_append_of_subset_right _ (Member.places_subset members hd)
  | .other _ :: members, hd => by
    exact List.subset_append_of_subset_right _ (Member.places_subset members hd)

end

mutual

theorem UnitMember.places_subset {d : TypeDeclaration} : (member : UnitMember) →
    d ∈ member.declarations → Placed.places d ⊆ Placed.places member
  | .scope header members, hd => by
    rw [places_scope]
    exact List.subset_append_of_subset_right _ (UnitMember.placesIn_subset members hd)
  | .type declaration, hd => TypeDeclaration.places_subset declaration hd

theorem UnitMember.placesIn_subset {d : TypeDeclaration} : (members : List UnitMember) →
    d ∈ UnitMember.declarationsIn members → Placed.places d ⊆ Placed.places members
  | [], hd => absurd hd List.not_mem_nil
  | member :: members, hd => by
    rcases List.mem_append.1 hd with hd | hd
    · exact List.subset_append_of_subset_left _ (UnitMember.places_subset member hd)
    · exact List.subset_append_of_subset_right _ (UnitMember.placesIn_subset members hd)

end

namespace Source

/-- The names in the declarations of a text are plain. -/
theorem isPlain_declaration (text : String) {d : TypeDeclaration}
    (hd : d ∈ (parse text).unit.declarations) : Placed.IsPlain d := by
  intro p hp
  apply isPlain_unit_parse text p
  rw [places_sourceUnit, List.mem_append, List.mem_append]
  exact .inl (.inr (UnitMember.placesIn_subset _ hd hp))

/-- The types of a declared text are from the library or from the text. -/
theorem madeFrom_declared (text : String) :
    (parse text).unit.declared.table.MadeFrom (parse text).unit.declarations := by
  refine DeclareState.table_declareUnit (fun d hd => ⟨fun t ns containing ht => ?_⟩)
    (TypeTable.madeFrom_withLibrary _)
  refine ht.declare ns _ containing ?_ (fun _ _ => .source d hd rfl) fun n hn => .inr ⟨d, hd, hn⟩
  cases d with
  | mk header members =>
    exact header.isPlainName (Placed.isPlain_declaration.1 (isPlain_declaration text hd)).1

end Source

/-! ## What names stand for -/

namespace TypeTable

/-- What can be found under a name with a number of type arguments. -/
inductive Calls (t : TypeTable) (name : String) (arity : Nat) (id : TypeId) : Prop where
  | definition {namespaceName unique : String} {containing : Option TypeId} {kind : TypeKind}
    {parameters : List TypeId}
    (shape : t.shape id = .definition name namespaceName unique containing kind parameters)
    (arity : parameters.length = arity)
  | parameter (shape : t.shape id = .typeParameter name) (arity : arity = 0)
  | word {keyword : SpecialType} (special : t.specialOf id = some keyword)
    (definition : t.isDefinition id = true) (keyword : keyword.keyword?.isSome = true)
    (word : (t.foundKeyword name).isSome = true)

/-- What a name can stand for, with type arguments or without. -/
inductive Resolves (t : TypeTable) (name : String) (id : TypeId) : Prop where
  | plain (calls : t.Calls name 0 id)
  | generic {definition : TypeId} {arguments : List TypeId} (calls : t.Calls name arguments.length definition)
    (nonempty : arguments ≠ []) (shape : t.shape id = .constructed definition arguments)

variable {declared : List TypeDeclaration} {t t' : TypeTable} {name : String} {arity : Nat} {id : TypeId}

theorem Calls.mono (h : t.Calls name arity id) (hext : t.Extends t') : t'.Calls name arity id := by
  cases h with
  | definition hshape harity =>
    exact .definition ((hext.shape_eq (index_lt_of_shape hshape)).trans hshape) harity
  | parameter hshape harity =>
    exact .parameter ((hext.shape_eq (index_lt_of_typeParameter hshape)).trans hshape) harity
  | word hspecial hdefinition hkeyword hword =>
    obtain ⟨hlt, hdefinition⟩ := (Keeps.of_extends hext).isDefinition hdefinition
    refine .word ((hext.special_eq hlt).trans hspecial) hdefinition hkeyword ?_
    rw [foundKeyword] at hword ⊢
    simp only [special?, hext.specials_eq] at hword ⊢
    exact hword

theorem Resolves.mono (h : t.Resolves name id) (hext : t.Extends t') : t'.Resolves name id := by
  cases h with
  | plain hcalls => exact .plain (hcalls.mono hext)
  | generic hcalls hne hshape =>
    have hlt : id.index < t.size := by
      apply Nat.lt_of_not_le
      intro hge
      rw [shape_of_le hge] at hshape
      cases hshape
    exact .generic (hcalls.mono hext) hne ((hext.shape_eq hlt).trans hshape)

/-! ## Looking up -/

namespace MadeFrom

/-- What has a unique name that ends in a name is called so. -/
theorem calls_of_lookup (h : t.MadeFrom declared) {unique : String} (hname : IsPlainName name)
    (hends : EndsInName unique name arity) (hlookup : t.lookup unique = some id) :
    t.Calls name arity id := by
  have hdefines := defines_of_lookup hlookup
  cases hshape : t.shape id with
  | definition name' ns unique' containing kind parameters =>
    rw [hshape] at hdefines
    have hunique : unique' = unique := of_decide_eq_true hdefines
    have hdefined := h.definition hshape
    obtain ⟨hnames, harity⟩ := (hunique ▸ hdefined.ends).unique hends hdefined.plain hname
    exact .definition (hnames ▸ hshape) harity
  | _ =>
    rw [hshape] at hdefines
    cases hdefines

theorem calls_lookupIn (h : t.MadeFrom declared) {namespaceName : String} (hname : IsPlainName name)
    (hlookup : t.lookupIn namespaceName name arity = some id) : t.Calls name arity id :=
  h.calls_of_lookup hname (endsInName_metadataName _ _ _) hlookup

theorem calls_lookupNested (h : t.MadeFrom declared) {outer : TypeId} (hname : IsPlainName name)
    (hlookup : t.lookupNested outer name arity = some id) : t.Calls name arity id := by
  obtain ⟨unique, -, hlookup⟩ := Option.bind_eq_some_iff.1 hlookup
  exact h.calls_of_lookup hname (endsInName_nestedMetadataName _ _ _) hlookup

theorem calls_foundIn (h : t.MadeFrom declared) {namespaceName : String} (hname : IsPlainName name)
    (hfound : t.foundIn namespaceName name arity = some (.type id)) : t.Calls name arity id := by
  rw [foundIn] at hfound
  split at hfound
  · next hlookup =>
    rw [Option.some.injEq, Found.type.injEq] at hfound
    exact h.calls_lookupIn hname (hfound ▸ hlookup)
  · dsimp only at hfound
    split at hfound <;> simp at hfound

/-- A type parameter that is found has the name, and so has a nested type. -/
theorem calls_foundInType (h : t.MadeFrom declared) {outer : TypeId} (hname : IsPlainName name)
    (hfound : t.foundInType outer name arity = some id) : t.Calls name arity id := by
  rw [foundInType] at hfound
  cases hparameter : (if arity = 0 then (t.typeParameters outer).find? (t.name · = name) else none) with
  | none =>
    rw [hparameter] at hfound
    exact h.calls_lookupNested hname hfound
  | some parameter =>
    rw [hparameter] at hfound
    obtain rfl : parameter = id := Option.some.inj hfound
    split at hparameter
    · next harity =>
      have hmem := List.mem_of_find?_eq_some hparameter
      have hcalled : t.name parameter = name := by simpa using List.find?_some hparameter
      rw [typeParameters] at hmem
      split at hmem
      · next hshape =>
        obtain ⟨n, hn⟩ := (h.definition hshape).parameters parameter hmem
        rw [TypeTable.name, hn] at hcalled
        exact .parameter (hcalled ▸ hn) harity
      · cases hmem
    · cases hparameter

theorem calls_findImported (h : t.MadeFrom declared) {usings : List UsingDirective}
    (hname : IsPlainName name) (hfound : findImported t usings name arity = some id) :
    t.Calls name arity id := by
  obtain ⟨directive, -, hfound⟩ := List.exists_of_findSome?_eq_some hfound
  split at hfound
  · exact h.calls_lookupIn hname hfound
  · cases hfound

theorem calls_foundKeyword (h : t.MadeFrom declared) (hfound : t.foundKeyword name = some (some id)) :
    t.Calls name 0 id := by
  have hword : (t.foundKeyword name).isSome = true := by rw [hfound]; rfl
  -- Both a keyword and `dynamic` stand for a type that has a keyword.
  have hspecial : ∃ special : SpecialType, special.keyword?.isSome = true ∧ t.special? special = some id := by
    rw [foundKeyword] at hfound
    split at hfound
    · next special hkeyword =>
      have hfind := List.find?_some hkeyword
      exact ⟨special, by rw [of_decide_eq_true hfind]; rfl, Option.some.inj hfound⟩
    · split at hfound
      · exact ⟨.object, rfl, Option.some.inj hfound⟩
      · cases hfound
  obtain ⟨special, hkeyword, hspecial⟩ := hspecial
  obtain ⟨_, _, hspecials, -⟩ := List.lookup_eq_some_iff.1 hspecial
  obtain ⟨hmarked, hdefinition⟩ := h.special (hspecials ▸ List.mem_append_right _ List.mem_cons_self)
  exact .word hmarked hdefinition hkeyword hword

end MadeFrom

end TypeTable

/-! ## Binding names -/

namespace Bind

variable {declared : List TypeDeclaration} {resolveAlias : ResolveAlias} {name : String} {arity : Nat}
  {s : BindState} {id : TypeId}

/-- Where no alias has the name, the directives only bring in types of the name. -/
theorem foundInScopes_of_no_alias (resolveAlias : ResolveAlias) (arity : Nat) (hname : IsPlainName name) (hmade : s.table.MadeFrom declared) :
    (scopes : List UsingScope) → (∀ scope ∈ scopes, findAlias scope.usings name = none) →
    (foundInScopes resolveAlias name arity scopes s).2 = s ∧
      ∀ id, (foundInScopes resolveAlias name arity scopes s).1 = some (.type id) →
        s.table.Calls name arity id
  | [], _ => ⟨rfl, fun id h => by cases h⟩
  | scope :: scopes, hno => by
    obtain ⟨hfirst, hrest⟩ := List.forall_mem_cons.1 hno
    have husings : foundInUsings resolveAlias scope.usings name arity s
        = ((findImported s.table scope.usings name arity).map .type, s) := by
      rw [foundInUsings, hfirst, ite_self]
      rfl
    rw [foundInScopes, bind_apply, husings]
    cases himported : findImported s.table scope.usings name arity with
    | none => exact foundInScopes_of_no_alias resolveAlias arity hname hmade scopes hrest
    | some id =>
      refine ⟨rfl, fun id' h => ?_⟩
      obtain rfl : id = id' := Found.type.inj (Option.some.inj h)
      exact hmade.calls_findImported hname himported

theorem foundInNamespaces_of_no_alias (hname : IsPlainName name) (hmade : s.table.MadeFrom declared)
    {scopes : List UsingScope} (hno : ∀ scope ∈ scopes, findAlias scope.usings name = none) :
    (namespaces : List String) →
    (foundInNamespaces resolveAlias scopes name arity namespaces s).2 = s ∧
      ∀ id, (foundInNamespaces resolveAlias scopes name arity namespaces s).1 = some (.type id) →
        s.table.Calls name arity id
  | [] => ⟨rfl, fun id h => by cases h⟩
  | namespaceName :: outer => by
    rw [foundInNamespaces, bind_apply, show table s = (s.table, s) from rfl]
    cases hfound : s.table.foundIn namespaceName name arity with
    | some found =>
      refine ⟨rfl, fun id h => ?_⟩
      obtain rfl : found = .type id := Option.some.inj h
      exact hmade.calls_foundIn hname hfound
    | none =>
      have hhere := foundInScopes_of_no_alias resolveAlias arity hname hmade
        (scopes.filter (·.namespaceName = namespaceName)) fun scope hscope =>
          hno scope (List.mem_filter.1 hscope).1
      dsimp only
      rw [bind_apply, hhere.1]
      cases hin : (foundInScopes resolveAlias name arity
          (scopes.filter (·.namespaceName = namespaceName)) s).1 with
      | some found =>
        refine ⟨rfl, fun id h => hhere.2 id ?_⟩
        rw [hin]
        exact h
      | none => exact foundInNamespaces_of_no_alias hname hmade hno outer

/-- Where no alias has the name, a first name stands for a type of the name. -/
theorem foundFirst_of_no_alias (hname : IsPlainName name) (hmade : s.table.MadeFrom declared)
    {context : Context} (hno : ∀ scope ∈ context.scopes, findAlias scope.usings name = none) :
    (foundFirst resolveAlias context name arity s).2 = s ∧
      ∀ id, (foundFirst resolveAlias context name arity s).1 = some (.type id) →
        s.table.Calls name arity id := by
  rw [foundFirst, bind_apply, show table s = (s.table, s) from rfl]
  cases hword : (if arity = 0 then s.table.foundKeyword name else none) with
  | some special =>
    refine ⟨rfl, fun id h => ?_⟩
    split at hword
    · next harity =>
      obtain ⟨id', rfl, hid⟩ := Option.map_eq_some_iff.1 h
      rw [← Found.type.inj hid, harity]
      exact hmade.calls_foundKeyword hword
    · cases hword
  | none =>
    cases henclosing : context.enclosing.findSome? (s.table.foundInType · name arity) with
    | some id =>
      refine ⟨rfl, fun id' h => ?_⟩
      obtain rfl : id = id' := Found.type.inj (Option.some.inj h)
      obtain ⟨outer, -, hfound⟩ := List.exists_of_findSome?_eq_some henclosing
      exact hmade.calls_foundInType hname hfound
    | none => exact foundInNamespaces_of_no_alias hname hmade hno _

/-- Type arguments make a generic type of what is called so. -/
theorem resolves_withArguments (hrecorded : s.table.Recorded) {arguments : List TypeId} {found : Found}
    (h : ∀ id, found = .type id → s.table.Calls name arguments.length id)
    (hid : (withArguments found arguments s).1 = .type id) :
    (withArguments found arguments s).2.table.Resolves name id := by
  cases found with
  | inNamespace namespaceName => cases hid
  | type definition =>
    obtain rfl : (s.table.construct definition arguments).1 = id := Found.type.inj hid
    show (s.table.construct definition arguments).2.Resolves name _
    have hcalls := h definition rfl
    cases arguments with
    | nil => exact .plain hcalls
    | cons argument arguments =>
      refine .generic (hcalls.mono (TypeTable.Growth.construct s.table definition _ 0))
        (List.cons_ne_nil _ _) ?_
      exact hrecorded.shape_intern _ 0

/-- What is found inside a type or a namespace is called by the name. -/
theorem calls_foundInside (hname : IsPlainName name) (hmade : s.table.MadeFrom declared) {outer : Found} (h : (foundInside outer name arity s).1 = some (.type id)) :
    s.table.Calls name arity id := by
  cases outer with
  | inNamespace namespaceName => exact hmade.calls_foundIn hname h
  | type outer =>
    obtain ⟨id', hlookup, hid⟩ := Option.map_eq_some_iff.1 h
    exact hmade.calls_lookupNested hname (Found.type.inj hid ▸ hlookup)

/-- The type that a qualified name stands for is called by its last part. -/
theorem resolves_lookupInside (segments : List (String × List TypeId))
    (hplain : ∀ segment ∈ segments, IsPlainName segment.1) (hmade : s.table.MadeFrom declared)
    {outer : Found} (houter : segments = [] → ∀ id, outer = .type id → s.table.Resolves name id) (h : (lookupInside outer segments s).1 = some id) :
    (lookupInside outer segments s).2.table.Resolves ((segments.map (·.1)).getLastD name) id := by
  induction segments generalizing outer name s with
  | nil =>
    cases outer with
    | inNamespace namespaceName => cases h
    | type id' =>
      obtain rfl : id' = id := Option.some.inj h
      exact houter rfl _ rfl
  | cons segment segments ih =>
    obtain ⟨first, arguments⟩ := segment
    obtain ⟨hfirst, hrest⟩ := List.forall_mem_cons.1 hplain
    have hinside : (foundInside outer first arguments.length s).2 = s := by
      cases outer <;> rfl
    rw [lookupInside, bind_apply, hinside] at h ⊢
    cases hfound : (foundInside outer first arguments.length s).1 with
    | none =>
      rw [hfound] at h
      cases h
    | some found =>
      rw [hfound] at h
      rw [List.map_cons, List.getLastD_cons]
      have hext : s.table.Extends (withArguments found arguments s).2.table :=
        Steps.steps (R := fun s t => TypeTable.Extends s.table t.table) s
      refine ih hrest (hmade.of_extends hext) (fun _ id' hid => resolves_withArguments hmade.recorded ?_ hid) h
      rintro id'' rfl
      exact calls_foundInside hfirst hmade hfound

/-- Where no alias has the last part of a name, the type that the name stands for is called by
    that part. -/
theorem resolves_lookup [halias : ∀ target, Steps (fun s t => TypeTable.Extends s.table t.table)
      (resolveAlias target)] {context : Context} {isGlobal : Bool} {segments : List (String × List TypeId)}
    {last : String} (hlast : (segments.map (·.1)).getLast? = some last)
    (hplain : ∀ segment ∈ segments, IsPlainName segment.1) (hmade : s.table.MadeFrom declared)
    (hno : ∀ scope ∈ context.scopes, findAlias scope.usings last = none)
    (h : (lookup resolveAlias context isGlobal segments s).1 = some id) :
    (lookup resolveAlias context isGlobal segments s).2.table.Resolves last id := by
  cases segments with
  | nil => cases h
  | cons segment segments =>
    obtain ⟨first, arguments⟩ := segment
    obtain ⟨hfirst, hrest⟩ := List.forall_mem_cons.1 hplain
    rw [List.map_cons, List.getLast?_cons, Option.some.injEq, ← List.getLastD_eq_getLast?] at hlast
    subst hlast
    let found : Bind (Option Found) :=
      if isGlobal then do return (← table).foundIn "" first arguments.length
      else foundFirst resolveAlias context first arguments.length
    have hsteps : Steps (fun s t => TypeTable.Extends s.table t.table) found := inferInstance
    -- An alias can only be in the way of a name that has no other parts.
    have hfound (hnil : segments = []) (id : TypeId) (hid : (found s).1 = some (.type id)) :
        (found s).2.table.Calls first arguments.length id := by
      rw [hnil] at hno
      cases isGlobal with
      | true => exact hmade.calls_foundIn hfirst hid
      | false =>
        obtain ⟨hsame, hcalls⟩ := foundFirst_of_no_alias hfirst hmade hno
        exact (congrArg BindState.table hsame) ▸ hcalls id hid
    have hlookup : lookup resolveAlias context isGlobal ((first, arguments) :: segments)
        = found >>= lookupFrom arguments segments := by
      cases isGlobal <;> rfl
    rw [hlookup, bind_apply] at h ⊢
    have hmade' := hmade.of_extends (hsteps.steps s)
    generalize found s = result at *
    obtain ⟨first', s'⟩ := result
    cases first' with
    | none => cases h
    | some found =>
      have hext : s'.table.Extends (withArguments found arguments s').2.table :=
        Steps.steps (R := fun s t => TypeTable.Extends s.table t.table) s'
      refine resolves_lookupInside segments hrest (hmade'.of_extends hext) (fun hnil id' hid => ?_) h
      exact resolves_withArguments hmade'.recorded (fun id'' hid' => hfound hnil id'' (congrArg some hid')) hid

/-! ## The class of an attribute -/

theorem length_argumentsWith (resolveAlias : ResolveAlias) (context : Context)
    (segments : List NameSegment) (s : BindState) :
    (argumentsWith resolveAlias context segments s).1.length = segments.length := by
  induction segments generalizing s with
  | nil =>
    rfl
  | cons segment segments ih =>
    obtain ⟨name, arguments⟩ := segment
    exact congrArg Nat.succ (ih _)

theorem isPlainName_append {name name' : String} (h : IsPlainName name) (h' : IsPlainName name') :
    IsPlainName (name ++ name') := by
  intro c hc
  rw [String.toList_append, List.mem_append] at hc
  exact hc.elim (h c) (h' c)

/-- The names that an attribute is written with are plain. -/
theorem isPlainName_of_attribute {a : Attribute} (h : Placed.IsPlain a) {isGlobal : Bool}
    {segments : List NameSegment} {span : Span} (hname : a.name = .named isGlobal segments span) :
    ∀ name ∈ segments.map (·.name.name), IsPlainName name := by
  intro name hmem
  obtain ⟨segment, hsegment, rfl⟩ := List.mem_map.1 hmem
  apply h (.name segment.name.name segment.name.span)
  have hplace : Place.name segment.name.name segment.name.span ∈ places segments := by
    refine mem_places_list.2 ⟨segment, hsegment, ?_⟩
    cases segment with
    | mk name arguments =>
      exact List.mem_append_left _ List.mem_cons_self
  simp [hname, hplace]

/-- The class of an attribute that no alias is called like is called like the attribute, with
    `Attribute` appended or not. -/
theorem resolves_attributeClass {context : Context} {a : Attribute} (hplain : Placed.IsPlain a)
    (hmade : s.table.MadeFrom declared)
    (hno : ∀ scope ∈ context.scopes, findAlias scope.usings a.simpleName = none ∧
      findAlias scope.usings (a.simpleName ++ "Attribute") = none)
    (h : (attributeClass context a s).1 = some id) :
    ∃ name ∈ [a.simpleName ++ "Attribute", a.simpleName],
      (attributeClass context a s).2.table.Resolves name id := by
  rw [attributeClass] at h ⊢
  cases hname : a.name with
  | named isGlobal segments span =>
    rw [hname] at h
    dsimp only at h ⊢
    rw [bind_apply] at h ⊢
    have hlength := length_argumentsWith aliasTarget context segments s
    have hextends : s.table.Extends (argumentsWith aliasTarget context segments s).2.table :=
      (steps_argumentsWith (R := fun s t => TypeTable.Extends s.table t.table) inferInstance context
        segments).steps s
    revert h hlength hextends
    generalize argumentsWith aliasTarget context segments s = result
    obtain ⟨arguments, s'⟩ := result
    intro h (hlength : arguments.length = _) hextends
    have hmade' : s'.table.MadeFrom declared := hmade.of_extends hextends
    rcases segments.eq_nil_or_concat with rfl | ⟨init, segment, rfl⟩
    · rw [List.eq_nil_of_length_eq_zero hlength] at h
      cases h
    · have hnames := isPlainName_of_attribute hplain hname
      have hsimple : a.simpleName = segment.name.name := by
        simp [Attribute.simpleName, hname, TypeExpr.simpleName?]
      rw [List.concat_eq_append, List.map_append, List.map_singleton, ← hsimple] at hnames h ⊢
      rw [List.dropLast_concat] at h ⊢
      obtain ⟨hinit, hlast⟩ := List.forall_mem_append.1 hnames
      rw [List.forall_mem_singleton] at hlast
      -- Each of the two names is looked up with the arguments of the parts.
      have hlookup {last : String} {s' : BindState} (hlast : IsPlainName last)
          (hmade : s'.table.MadeFrom declared)
          (hno : ∀ scope ∈ context.scopes, findAlias scope.usings last = none)
          (hid : (lookup aliasTarget context isGlobal
            ((init.map (·.name.name) ++ [last]).zip arguments) s').1 = some id) :
          (lookup aliasTarget context isGlobal
            ((init.map (·.name.name) ++ [last]).zip arguments) s').2.table.Resolves last id := by
        have hzip : ((init.map (·.name.name) ++ [last]).zip arguments).map (·.1)
            = init.map (·.name.name) ++ [last] := List.map_fst_zip (by simp [hlength])
        have hplain : ∀ segment ∈ (init.map (·.name.name) ++ [last]).zip arguments,
            IsPlainName segment.1 := fun segment hsegment =>
          List.forall_mem_append.2 ⟨hinit, List.forall_mem_singleton.2 hlast⟩ _
            (List.of_mem_zip hsegment).1
        exact resolves_lookup (by rw [hzip, List.getLast?_concat]) hplain hmade hno hid
      rw [bind_apply] at h ⊢
      generalize hfirst : lookup aliasTarget context isGlobal
        ((init.map (·.name.name) ++ [a.simpleName ++ "Attribute"]).zip arguments) s' = first at h ⊢
      obtain ⟨found, s''⟩ := first
      cases found with
      | some id' =>
        obtain rfl : id' = id := Option.some.inj h
        have hattribute : IsPlainName "Attribute" := isPlainName_of_all (by decide)
        have hresolves := hlookup (isPlainName_append hlast hattribute) hmade'
          (fun scope hscope => (hno scope hscope).2) (congrArg Prod.fst hfirst)
        rw [hfirst] at hresolves
        exact ⟨_, List.mem_cons_self, hresolves⟩
      | none =>
        have hextends' : s'.table.Extends s''.table := by
          have hsteps := Steps.steps (R := fun s t => TypeTable.Extends s.table t.table)
            (x := lookup aliasTarget context isGlobal
              ((init.map (·.name.name) ++ [a.simpleName ++ "Attribute"]).zip arguments)) s'
          rwa [hfirst] at hsteps
        exact ⟨_, List.mem_cons_of_mem _ List.mem_cons_self,
          hlookup hlast (hmade'.of_extends hextends') (fun scope hscope => (hno scope hscope).1) h⟩
  | _ =>
    rw [hname] at h
    cases h

end Bind

end SettingsLint
