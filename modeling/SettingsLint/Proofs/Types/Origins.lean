import SettingsLint.Proofs.Types.Keys
import SettingsLint.Tree.Declaration
import SettingsLint.Types.Library

/-! # Where the types of a table come from

Before anything is bound, each definition of a table is a library type or comes from a
declaration of the source, and its unique name ends in its own name. So what is looked up under a
name has this name. `TypeTable.MadeFrom` collects these facts. Declaring keeps them, and so does
all that happens to a table afterwards.
-/

namespace SettingsLint

/-! ## The end of a unique name -/

/-- The text ends in the name and the mark for the number of type parameters, and a dot or a plus
    stands before these if anything does. -/
def EndsInName (unique name : String) (arity : Nat) : Prop :=
  ∃ before : List Char, unique.toList = before ++ (name ++ aritySuffix arity).toList ∧
    ∀ c ∈ before.getLast?, c = '.' ∨ c = '+'

theorem endsInName_metadataName (namespaceName name : String) (arity : Nat) :
    EndsInName (metadataName namespaceName name arity) name arity := by
  refine ⟨_, TypeKey.toList_metadataName_top namespaceName name arity, fun c hc => ?_⟩
  split at hc
  · cases hc
  · rw [List.getLast?_append] at hc
    exact .inl (Option.some.inj hc).symm

theorem endsInName_nestedMetadataName (outer name : String) (arity : Nat) :
    EndsInName (nestedMetadataName outer name arity) name arity := by
  refine ⟨outer.toList ++ ['+'], ?_, fun c hc => ?_⟩
  · rw [TypeKey.toList_nestedMetadataName, List.append_assoc, List.singleton_append]
  · rw [List.getLast?_append] at hc
    exact .inr (Option.some.inj hc).symm

/-- What follows the last of the marks is fixed by the whole. -/
theorem append_right_eq_of_getLast? {mark : Char → Prop} {before before' after after' : List Char}
    (h : before ++ after = before' ++ after') (hbefore : ∀ c ∈ before.getLast?, mark c)
    (hbefore' : ∀ c ∈ before'.getLast?, mark c) (hafter : ∀ c ∈ after, ¬ mark c)
    (hafter' : ∀ c ∈ after', ¬ mark c) : after = after' := by
  -- A longer end would have the mark before the shorter end in it.
  have hshorter {as bs cs more : List Char} (hlast : ∀ c ∈ as.getLast?, mark c) (has : as = bs ++ more)
      (hmore : ∀ c ∈ more ++ cs, ¬ mark c) : more = [] := by
    rcases more.eq_nil_or_concat with hnil | ⟨init, c, rfl⟩
    · exact hnil
    · have hend : as.getLast? = some c := by
        rw [has, List.concat_eq_append, ← List.append_assoc, List.getLast?_concat]
      exact absurd (hlast c hend) (hmore c (by simp))
  rcases List.append_eq_append_iff.1 h with ⟨more, hmore, hrest⟩ | ⟨more, hmore, hrest⟩
  · rw [hrest, hshorter hbefore' hmore (hrest ▸ hafter), List.nil_append]
  · rw [hrest, hshorter hbefore hmore (hrest ▸ hafter'), List.nil_append]

/-- Name and number of type parameters are fixed by the unique name. -/
theorem EndsInName.unique {unique name name' : String} {arity arity' : Nat}
    (h : EndsInName unique name arity) (h' : EndsInName unique name' arity')
    (hname : IsPlainName name) (hname' : IsPlainName name') : name = name' ∧ arity = arity' := by
  obtain ⟨before, htext, hbefore⟩ := h
  obtain ⟨before', htext', hbefore'⟩ := h'
  have hnone {name : String} (hname : IsPlainName name) (arity : Nat) :
      ∀ c ∈ (name ++ aritySuffix arity).toList, ¬ (c = '.' ∨ c = '+') := by
    rintro c hc (rfl | rfl)
    · exact not_mem_name_aritySuffix (fun hmem => (hname _ hmem).1 rfl) (by decide) (by decide) arity hc
    · exact not_mem_name_aritySuffix (fun hmem => (hname _ hmem).2.1 rfl) (by decide) (by decide) arity hc
  have hends := append_right_eq_of_getLast? (htext.symm.trans htext') hbefore hbefore'
    (hnone hname arity) (hnone hname' arity')
  exact name_aritySuffix_injective hname hname' (String.toList_injective hends)

/-! ## Origins -/

/-- What a definition with the name, namespace, outer type, number of type parameters and special
    type comes from: a library type, or one of the declarations. -/
inductive IsFrom (declared : List TypeDeclaration) (name namespaceName : String)
    (containing : Option TypeId) (arity : Nat) (special : Option SpecialType) : Prop where
  | library (type : LibraryType) (mem : type ∈ LibraryType.all) (name : name = type.name)
    (namespaceName : namespaceName = type.namespaceName) (containing : containing = none)
    (arity : arity = type.typeParameters.length) (special : special = none ∨ special = type.special)
  | source (declaration : TypeDeclaration) (mem : declaration ∈ declared)
    (name : name = declaration.name.name)

/-- What is known of a definition of the table with the special type. -/
structure TypeTable.DefinedFrom (declared : List TypeDeclaration) (t : TypeTable)
    (name namespaceName unique : String) (containing : Option TypeId) (parameters : List TypeId)
    (special : Option SpecialType) : Prop where
  plain : IsPlainName name
  ends : EndsInName unique name parameters.length
  origin : IsFrom declared name namespaceName containing parameters.length special
  parameters : ∀ p ∈ parameters, ∃ n, t.shape p = .typeParameter n

/-- The name is one of a type parameter of the library or of the declarations. -/
def IsParameterName (declared : List TypeDeclaration) (name : String) : Prop :=
  (∃ type ∈ LibraryType.all, name ∈ type.typeParameters) ∨
    ∃ d ∈ declared, name ∈ d.header.typeParameters.map (·.name)

/-- The definitions and type parameters of the table come from the library or from the
    declarations. -/
structure TypeTable.MadeFrom (declared : List TypeDeclaration) (t : TypeTable) : Prop where
  definition : ∀ {id name namespaceName unique containing kind parameters},
    t.shape id = .definition name namespaceName unique containing kind parameters →
    t.DefinedFrom declared name namespaceName unique containing parameters (t.specialOf id)
  parameter : ∀ {id name}, t.shape id = .typeParameter name → IsParameterName declared name
  special : ∀ {special id}, (special, id) ∈ t.specials →
    t.specialOf id = some special ∧ t.isDefinition id = true
  recorded : t.Recorded

namespace TypeTable

variable {declared : List TypeDeclaration} {t t' : TypeTable} {id : TypeId}

theorem index_lt_of_typeParameter {name : String} (h : t.shape id = .typeParameter name) :
    id.index < t.size := by
  apply Nat.lt_of_not_le
  intro hge
  rw [shape_of_le hge] at h
  cases h

theorem exists_definition (h : t.isDefinition id = true) :
    ∃ name namespaceName unique containing kind parameters,
      t.shape id = .definition name namespaceName unique containing kind parameters := by
  rw [isDefinition, metadataName?] at h
  split at h
  · next hshape => exact ⟨_, _, _, _, _, _, hshape⟩
  · cases h

theorem isDefinition_of_shape {name namespaceName unique : String}
    {containing : Option TypeId} {kind : TypeKind} {parameters : List TypeId}
    (h : t.shape id = .definition name namespaceName unique containing kind parameters) :
    t.isDefinition id = true := by
  rw [isDefinition, metadataName?, h]
  rfl

theorem specialOf_push_self (t : TypeTable) (shape : Shape) (depth : Nat) :
    (t.push shape depth).2.specialOf ⟨t.size⟩ = none := by
  show ((t.entries.push _)[t.entries.size]?.getD default).special = none
  rw [Array.getElem?_push_size]
  rfl

theorem specialOf_declare (t : TypeTable) (namespaceName name : String) (kind : TypeKind)
    (parameters : List String) (containing : Option TypeId) :
    (t.declare namespaceName name kind parameters containing).2.specialOf
      (t.declare namespaceName name kind parameters containing).1 = none := by
  cases containing <;> exact specialOf_push_self _ _ _

theorem Keeps.isDefinition (h : t.Keeps t') (hid : t.isDefinition id = true) :
    id.index < t.size ∧ t'.isDefinition id = true := by
  obtain ⟨_, _, _, _, _, _, hshape⟩ := exists_definition hid
  have hlt := index_lt_of_shape hshape
  exact ⟨hlt, isDefinition_of_shape ((h.shape_eq hlt).trans hshape)⟩

theorem DefinedFrom.mono {name namespaceName unique : String} {containing : Option TypeId}
    {parameters : List TypeId} {special : Option SpecialType}
    (h : t.DefinedFrom declared name namespaceName unique containing parameters special)
    (hkeeps : t.Keeps t') :
    t'.DefinedFrom declared name namespaceName unique containing parameters special where
  plain := h.plain
  ends := h.ends
  origin := h.origin
  parameters p hp := by
    obtain ⟨n, hn⟩ := h.parameters p hp
    exact ⟨n, (hkeeps.shape_eq (index_lt_of_typeParameter hn)).trans hn⟩

namespace MadeFrom

theorem empty : TypeTable.empty.MadeFrom declared where
  definition h := by cases h
  parameter h := by cases h
  special h := by cases h
  recorded := @fun shape _ hfind => by cases shape <;> cases hfind

/-- What is built later is neither a definition nor a type parameter. -/
theorem of_extends (h : t.MadeFrom declared) (hext : t.Extends t') : t'.MadeFrom declared := by
  have hold {id : TypeId} (hbuilt : (t'.shape id).isBuilt = false) : id.index < t.size := by
    apply Nat.lt_of_not_le
    intro hge
    rw [hext.isBuilt_shape hge] at hbuilt
    cases hbuilt
  refine ⟨@fun id _ _ _ _ _ _ hshape => ?_, @fun id _ hshape => ?_, @fun _ id hmem => ?_,
    hext.recorded h.recorded⟩
  · have hlt : id.index < t.size := hold (by rw [hshape]; rfl)
    rw [hext.special_eq hlt]
    exact (h.definition ((hext.shape_eq hlt).symm.trans hshape)).mono (.of_extends hext)
  · have hlt : id.index < t.size := hold (by rw [hshape]; rfl)
    exact h.parameter ((hext.shape_eq hlt).symm.trans hshape)
  · rw [hext.specials_eq] at hmem
    obtain ⟨hspecial, hdef⟩ := h.special hmem
    obtain ⟨hlt, hdef'⟩ := (Keeps.of_extends hext).isDefinition hdef
    exact ⟨(hext.special_eq hlt).trans hspecial, hdef'⟩

/-! ## Declaring -/

theorem push (h : t.MadeFrom declared) {shape : Shape}
    (hdefinition : ∀ {name namespaceName unique containing kind parameters},
      shape = .definition name namespaceName unique containing kind parameters →
      t.DefinedFrom declared name namespaceName unique containing parameters none)
    (hparameter : ∀ {name}, shape = .typeParameter name → IsParameterName declared name) :
    (t.push shape 0).2.MadeFrom declared := by
  have hkeeps := Keeps.push t shape 0
  have hspecial {id : TypeId} (hlt : id.index < t.size) :
      (t.push shape 0).2.specialOf id = t.specialOf id := congrArg Entry.special (entry_push_of_lt hlt)
  have hnew := specialOf_push_self t shape 0
  -- A type of the new table is one of the old ones, the new one, or none at all.
  have hcases (id : TypeId) : id.index < t.size ∨ id = ⟨t.size⟩ ∨ (t.push shape 0).2.size ≤ id.index := by
    rcases Nat.lt_trichotomy id.index t.size with hlt | heq | hgt
    · exact .inl hlt
    · exact .inr (.inl (congrArg TypeId.mk heq))
    · exact .inr (.inr (by rwa [size_push]))
  refine ⟨@fun id _ _ _ _ _ _ hshape => ?_, @fun id _ hshape => ?_, @fun _ id hmem => ?_,
    h.recorded.push shape 0⟩
  · rcases hcases id with hlt | rfl | hge
    · rw [hspecial hlt]
      exact (h.definition ((hkeeps.shape_eq hlt).symm.trans hshape)).mono hkeeps
    · rw [hnew]
      exact (hdefinition ((shape_push_self t shape 0).symm.trans hshape)).mono hkeeps
    · cases (shape_of_le hge).symm.trans hshape
  · rcases hcases id with hlt | rfl | hge
    · exact h.parameter ((hkeeps.shape_eq hlt).symm.trans hshape)
    · exact hparameter ((shape_push_self t shape 0).symm.trans hshape)
    · cases (shape_of_le hge).symm.trans hshape
  · obtain ⟨hmarked, hdef⟩ := h.special hmem
    obtain ⟨hlt, hdef'⟩ := hkeeps.isDefinition hdef
    exact ⟨(hspecial hlt).trans hmarked, hdef'⟩

theorem pushTypeParameters (names : List String) (h : t.MadeFrom declared)
    (hnames : ∀ n ∈ names, IsParameterName declared n) :
    (t.pushTypeParameters names).2.MadeFrom declared ∧ ∀ p ∈ (t.pushTypeParameters names).1,
      ∃ n, (t.pushTypeParameters names).2.shape p = .typeParameter n := by
  induction names generalizing t with
  | nil => exact ⟨h, fun p hp => absurd hp List.not_mem_nil⟩
  | cons name names ih =>
    obtain ⟨hname, hnames⟩ := List.forall_mem_cons.1 hnames
    have hpush : (t.push (.typeParameter name) 0).2.MadeFrom declared :=
      h.push (fun hshape => by cases hshape) fun hshape => by
        rw [← Shape.typeParameter.inj hshape]
        exact hname
    obtain ⟨hmade, hshapes⟩ := ih hpush hnames
    refine ⟨hmade, fun p hp => ?_⟩
    rcases List.mem_cons.1 hp with rfl | hp
    · refine ⟨name, ((keeps_pushTypeParameters names _).shape_eq ?_).trans (shape_push_self t _ 0)⟩
      show t.size < (t.push (.typeParameter name) 0).2.size
      rw [size_push]
      exact Nat.lt_succ_self _
    · exact hshapes p hp

theorem addNamespace (h : t.MadeFrom declared) (name : String) :
    (t.addNamespace name).MadeFrom declared where
  definition hshape :=
    have hdefined := h.definition hshape
    ⟨hdefined.plain, hdefined.ends, hdefined.origin, hdefined.parameters⟩
  parameter := h.parameter
  special := h.special
  recorded := h.recorded

/-- Declaring a type keeps the facts if the type is from the library or the source. -/
theorem declare (h : t.MadeFrom declared) (namespaceName : String) {name : String} (kind : TypeKind)
    {parameters : List String} (containing : Option TypeId) (hplain : IsPlainName name)
    (hfrom : ∀ ns, (containing = none → ns = namespaceName) →
      IsFrom declared name ns containing parameters.length none)
    (hparameters : ∀ n ∈ parameters, IsParameterName declared n) :
    (t.declare namespaceName name kind parameters containing).2.MadeFrom declared := by
  have hmade (ns unique : String) (hns : containing = none → ns = namespaceName)
      (hends : EndsInName unique name parameters.length) :
      (((t.addNamespace ns).pushTypeParameters parameters).2.push (.definition name ns unique containing kind
        ((t.addNamespace ns).pushTypeParameters parameters).1)).2.MadeFrom declared := by
    obtain ⟨hmade, hshapes⟩ := (h.addNamespace ns).pushTypeParameters parameters hparameters
    refine hmade.push (fun hshape => ?_) fun hshape => by cases hshape
    obtain ⟨rfl, rfl, rfl, rfl, -, rfl⟩ := hshape
    have hlength := length_pushTypeParameters parameters (t.addNamespace ns)
    exact ⟨hplain, hlength ▸ hends, hlength ▸ hfrom ns hns, hshapes⟩
  cases containing with
  | none => exact hmade _ _ (fun _ => rfl) (endsInName_metadataName _ _ _)
  | some outer => exact hmade _ _ (fun hnone => by cases hnone) (endsInName_nestedMetadataName _ _ _)

/-- Marking a library type as the special type that it is keeps the facts. -/
theorem setSpecial (h : t.MadeFrom declared) {type : LibraryType} (hmem : type ∈ LibraryType.all)
    {id : TypeId} {unique : String} {kind : TypeKind} {parameters : List TypeId}
    (hid : t.shape id = .definition type.name type.namespaceName unique none kind parameters)
    (hlength : parameters.length = type.typeParameters.length) {special : SpecialType}
    (hspecial : type.special = some special) (hnone : t.specialOf id = none) :
    (t.setSpecial id special).MadeFrom declared := by
  have hdef := isDefinition_of_shape hid
  rw [TypeTable.setSpecial, if_pos hdef, update_eq]
  generalize hf : (fun i e => if id.index = i then { e with special := some special } else e
    : Nat → Entry → Entry) = f
  let marked : TypeTable := { t with entries := t.entries.mapIdx f }
  have hkeeps : t.Keeps marked := by
    refine ⟨Nat.le_of_eq Array.size_mapIdx.symm, fun {other} hother => ?_⟩
    rw [shape, entry_mapIdx t hother, ← hf]
    dsimp only
    split <;> rfl
  have hold {other : TypeId} (hother : marked.shape other ≠ .error "") : other.index < t.size := by
    apply Nat.lt_of_not_le
    intro hge
    exact hother (shape_of_le (Nat.le_trans (Nat.le_of_eq Array.size_mapIdx) hge))
  have hmarked {other : TypeId} (hother : other.index < t.size) :
      marked.specialOf other = if id.index = other.index then some special else t.specialOf other := by
    rw [specialOf, entry_mapIdx t hother, ← hf]
    dsimp only
    split <;> rfl
  have hdefined {other : TypeId} {name namespaceName unique : String} {containing : Option TypeId}
      {kind : TypeKind} {parameters : List TypeId}
      (hshape : marked.shape other = .definition name namespaceName unique containing kind parameters) :
      marked.DefinedFrom declared name namespaceName unique containing parameters
        (marked.specialOf other) := by
    have hlt := hold (by rw [hshape]; rintro ⟨⟩)
    have hbefore := (hkeeps.shape_eq hlt).symm.trans hshape
    have hknown := (h.definition hbefore).mono hkeeps
    rw [hmarked hlt]
    split
    · next heq =>
      rw [← show id = other from congrArg TypeId.mk heq, hid] at hbefore
      obtain ⟨rfl, rfl, -, rfl, -, rfl⟩ := hbefore
      exact ⟨hknown.plain, hknown.ends,
        .library type hmem rfl rfl rfl hlength (.inr hspecial.symm), hknown.parameters⟩
    · exact hknown
  have hspecials {s : SpecialType} {other : TypeId} (hother : (s, other) ∈ (special, id) :: t.specials) :
      marked.specialOf other = some s ∧ marked.isDefinition other = true := by
    rcases List.mem_cons.1 hother with heq | hother
    · obtain ⟨rfl, rfl⟩ := Prod.mk.inj heq
      obtain ⟨hlt, hdef'⟩ := hkeeps.isDefinition hdef
      exact ⟨(hmarked hlt).trans (if_pos rfl), hdef'⟩
    · obtain ⟨hother, hdef⟩ := h.special hother
      obtain ⟨hlt, hdef'⟩ := hkeeps.isDefinition hdef
      refine ⟨(hmarked hlt).trans ((if_neg fun heq => ?_).trans hother), hdef'⟩
      rw [← show id = other from congrArg TypeId.mk heq, hnone] at hother
      cases hother
  refine ⟨fun hshape => ?_, @fun other _ hshape => ?_, hspecials, @fun _ _ hfind => ?_⟩
  · have hknown := hdefined hshape
    exact ⟨hknown.plain, hknown.ends, hknown.origin, hknown.parameters⟩
  · have hlt : other.index < t.size := hold (show marked.shape other ≠ _ by
      rw [show marked.shape other = _ from hshape]
      rintro ⟨⟩)
    exact h.parameter ((hkeeps.shape_eq hlt).symm.trans hshape)
  · obtain ⟨hlt, hshape⟩ := h.recorded hfind
    exact ⟨Nat.lt_of_lt_of_le hlt hkeeps.size_le, (hkeeps.shape_eq hlt).trans hshape⟩

end MadeFrom

end TypeTable

/-! ## The library -/

namespace LibraryType

open TypeTable (Growth MadeFrom)

variable {declared : List TypeDeclaration}

/-- The names of library types are plain. -/
theorem isPlainName_of_mem {type : LibraryType} (h : type ∈ all) : IsPlainName type.name := by
  have hall : all.all (fun type => type.name.toList.all fun c => c != '.' && c != '+' && c != '`')
      = true := by decide +kernel
  exact isPlainName_of_all (List.all_eq_true.1 hall type h)

theorem madeFrom_declareIn {type : LibraryType} (hmem : type ∈ all) {t : TypeTable}
    (h : t.MadeFrom declared) : (type.declareIn t).2.MadeFrom declared := by
  have hdeclared := h.declare type.namespaceName type.kind none (isPlainName_of_mem hmem)
    (fun ns hns => .library type hmem rfl (hns rfl) rfl rfl (.inl rfl))
    fun n hn => .inl ⟨type, hmem, hn⟩
  rw [declareIn]
  dsimp only
  split
  · next special hspecial =>
    obtain ⟨ns, kind, ids, hlength, hns, hshape⟩ := (TypeTable.declares_declare t type.namespaceName
      type.name type.kind type.typeParameters none).shape
    rw [hns rfl] at hshape
    exact hdeclared.setSpecial hmem hshape hlength hspecial (TypeTable.specialOf_declare _ _ _ _ _ _)
  · exact hdeclared

theorem madeFrom_declareAll (types : List LibraryType) (hmem : ∀ type ∈ types, type ∈ all)
    {t : TypeTable} (h : t.MadeFrom declared) : (declareAll types t).2.MadeFrom declared := by
  induction types generalizing t with
  | nil => exact h
  | cons type types ih =>
    obtain ⟨htype, htypes⟩ := List.forall_mem_cons.1 hmem
    exact ih htypes (madeFrom_declareIn htype h)

end LibraryType

/-- The types of the library come from the library. -/
theorem TypeTable.madeFrom_withLibrary (declared : List TypeDeclaration) :
    withLibrary.MadeFrom declared := by
  have hdeclared : (LibraryType.declareAll LibraryType.all .empty).2.MadeFrom declared :=
    LibraryType.madeFrom_declareAll LibraryType.all (fun _ h => h) MadeFrom.empty
  exact hdeclared.of_extends LibraryType.growth_withLibrary

end SettingsLint
