import SettingsLint.Proofs.Binding.Settling
import SettingsLint.Proofs.Types.InterfaceClosure
import SettingsLint.Proofs.Types.LibraryTable

/-! # What arrays and nullable types inherit

An array has the common base of arrays, and a nullable type what the type of nullable values names.
Both come from the library, unless a source declares types of its own under their names. Then all that
is inherited are some plain definitions, the roots, which name nothing but roots themselves.
`TypeTable.Rooted` says this of a table: it holds of the library, and types that are put behind those
of the library and completion keep it.
-/

namespace SettingsLint

namespace TypeTable

variable {roots : List TypeId} {names : List String} {start t u : TypeTable} {id : TypeId}
  {s : Substitution}

/-- The unique name of the definition that the members of a type come from. -/
def template? (t : TypeTable) (id : TypeId) : Option String :=
  match t.shape id with
  | .array _ _ => some arrayBaseName
  | _ => t.metadataName? (t.constructedFrom id)

/-- The base and the interfaces of the type are roots, and its type parameters are none. -/
structure NamesRoots (roots : List TypeId) (t : TypeTable) (id : TypeId) : Prop where
  base : ∀ b ∈ t.base id, b ∈ roots
  interfaces : ∀ i ∈ t.interfaces id, i ∈ roots
  parameters : ∀ p ∈ t.typeParameters id, p ∉ roots

/-- What the library says of the type, as far as the names are not declared by the source. -/
structure Modest (roots : List TypeId) (names : List String) (t : TypeTable) (id : TypeId) : Prop where
  root : id ∈ roots → t.isDefinition id = true
  arrayBase : arrayBaseName ∈ names → t.metadataName? id = some arrayBaseName → id ∈ roots
  nullable : nullableName ∈ names → t.metadataName? id = some nullableName →
    t.shape id = .definition "Nullable" "System" nullableName none .structType (t.typeParameters id) ∧
      t.specialOf id = none
  special : (t.specialOf id).isSome = true → t.isDefinition id = true
  inherits : id ∈ roots ∨ (∃ name ∈ names, t.template? id = some name) → t.NamesRoots roots id
  constructors : (t.arrayElement id).isSome = true → t.constructors id = []

/-- All types are as the library has them, as far as the names are not declared by the source. -/
def Rooted (roots : List TypeId) (names : List String) (t : TypeTable) : Prop :=
  ∀ id, t.Modest roots names id

/-! ## Tables with the same entries -/

theorem isDefinition_congr (h : u.shape id = t.shape id) : u.isDefinition id = t.isDefinition id := by
  rw [isDefinition, isDefinition, metadataName?, metadataName?, h]

/-- Old types keep their template. -/
theorem Keeps.template?_eq (h : t.Keeps u) (ht : t.Sound) (hid : id.index < t.size) :
    u.template? id = t.template? id := by
  rw [template?, template?, constructedFrom, constructedFrom, h.shape_eq hid]
  cases hshape : t.shape id with
  | constructed generic arguments =>
    have hgeneric : generic.index < t.size := Nat.lt_trans (ht.older (hshape ▸ List.mem_cons_self)) hid
    rw [metadataName?, metadataName?, h.shape_eq hgeneric]
  | array element rank => rfl
  | _ =>
    rw [metadataName?, metadataName?, h.shape_eq hid]

/-- What is known of a type depends on its shape, its mark and its template, and on what it names. -/
theorem Modest.of_shape (h : t.Modest roots names id) (hshape : u.shape id = t.shape id)
    (hspecial : u.specialOf id = t.specialOf id) (htemplate : u.template? id = t.template? id)
    (hinherits : id ∈ roots ∨ (∃ name ∈ names, t.template? id = some name) → u.NamesRoots roots id)
    (hconstructors : (t.arrayElement id).isSome = true → u.constructors id = t.constructors id) :
    u.Modest roots names id where
  root := by
    rw [isDefinition_congr hshape]
    exact h.root
  arrayBase := by
    rw [metadataName?, hshape]
    exact h.arrayBase
  nullable := by
    rw [metadataName?, typeParameters_congr hshape, hshape, hspecial]
    exact h.nullable
  special := by
    rw [isDefinition_congr hshape, hspecial]
    exact h.special
  inherits := by
    rw [htemplate]
    exact hinherits
  constructors := by
    rw [arrayElement, hshape]
    exact fun hid => (hconstructors hid).trans (h.constructors hid)

theorem NamesRoots.of_members (h : t.NamesRoots roots id) (hshape : u.shape id = t.shape id)
    (hmembers : (u.entry id).members = (t.entry id).members) : u.NamesRoots roots id := by
  have hbase : u.base id = t.base id := congrArg Members.base hmembers
  have hinterfaces : u.interfaces id = t.interfaces id := congrArg Members.interfaces hmembers
  refine ⟨?_, ?_, ?_⟩
  · rw [hbase]
    exact h.base
  · rw [hinterfaces]
    exact h.interfaces
  · rw [typeParameters_congr hshape]
    exact h.parameters

/-- A type with the same entry is as it was. -/
theorem Modest.of_members (h : t.Modest roots names id) (hkeeps : t.Keeps u) (ht : t.Sound)
    (hid : id.index < t.size) (hspecial : u.specialOf id = t.specialOf id)
    (hmembers : (u.entry id).members = (t.entry id).members) : u.Modest roots names id := by
  have hconstructors : u.constructors id = t.constructors id := congrArg Members.constructors hmembers
  refine h.of_shape (hkeeps.shape_eq hid) hspecial (hkeeps.template?_eq ht hid) ?_ fun _ => hconstructors
  exact fun hplain => (h.inherits hplain).of_members (hkeeps.shape_eq hid) hmembers

/-- A type with nothing but its shape names nothing. -/
theorem modest_of_bare (depth : Nat) (hroot : id ∉ roots) (hdefinition : t.isDefinition id = false)
    (hentry : t.entry id = { shape := t.shape id, depth }) : t.Modest roots names id := by
  have hname : t.metadataName? id = none := by
    rwa [isDefinition, Option.isSome_eq_false_iff, Option.isNone_iff_eq_none] at hdefinition
  have hparameters : t.typeParameters id = [] := by
    rw [metadataName?] at hname
    rw [typeParameters]
    split
    · next hshape =>
      rw [hshape] at hname
      cases hname
    · rfl
  refine ⟨fun h => absurd h hroot, fun _ h => ?_, fun _ h => ?_, fun h => ?_, fun _ => ⟨?_, ?_, ?_⟩,
    fun _ => ?_⟩
  · rw [hname] at h
    cases h
  · rw [hname] at h
    cases h
  · rw [specialOf, hentry] at h
    cases h
  · rw [TypeTable.base, hentry]
    rintro _ ⟨⟩
  · rw [TypeTable.interfaces, hentry]
    rintro _ ⟨⟩
  · rw [hparameters]
    rintro _ ⟨⟩
  · rw [TypeTable.constructors, hentry]

theorem Rooted.index_lt (h : t.Rooted roots names) (hid : id ∈ roots) : id.index < t.size :=
  ((Keeps.refl t).isDefinition ((h id).root hid)).1

/-! ## Completion -/

/-- A definition has no parts in which parameters could stand. -/
theorem substitute_definition (hid : t.isDefinition id = true)
    (hs : id ∉ s.parameters) (depth : Nat) : substitute s depth id t = (id, t) := by
  have hnone : s.apply? id = none := by
    rw [ Substitution.apply?, Option.map_eq_none_iff, List.idxOf?_eq_none_iff]
    exact hs
  obtain ⟨_, _, _, _, _, _, hshape⟩ := exists_definition hid
  rw [substitute, hnone]
  simp only [bind, StateT.bind, get, getThe, MonadStateOf.get, StateT.get, pure]
  rw [hshape]
  rfl

theorem mapM_substitute {ids : List TypeId} (depth : Nat)
    (h : ∀ i ∈ ids, t.isDefinition i = true ∧ i ∉ s.parameters) :
    ids.mapM (substitute s depth) t = (ids, t) := by
  induction ids with
  | nil => rfl
  | cons i ids ih =>
    obtain ⟨hi, hrest⟩ := List.forall_mem_cons.1 h
    rw [List.mapM_cons]
    show (do let is ← ids.mapM (substitute s depth); return _ :: is : StateM TypeTable _)
      (substitute s depth i t).2 = _
    rw [substitute_definition hi.1 hi.2]
    show (_ :: (ids.mapM (substitute s depth) t).1, (ids.mapM (substitute s depth) t).2) = _
    rw [ih hrest]

/-- Roots are inherited as they are. -/
theorem members_roots (declared : Entry) (depth : Nat)
    (hbase : ∀ b ∈ declared.base, t.isDefinition b = true ∧ b ∉ s.parameters)
    (hinterfaces : ∀ i ∈ declared.interfaces, t.isDefinition i = true ∧ i ∉ s.parameters) :
    (members s depth declared t).1.base = declared.base ∧
      (members s depth declared t).1.interfaces = declared.interfaces := by
  have hfirst : declared.base.mapM (substitute s depth) t = (declared.base, t) := by
    cases hdeclared : declared.base with
    | none => rfl
    | some b =>
      obtain ⟨hb, hs⟩ := hbase b hdeclared
      show (some (substitute s depth b t).1, (substitute s depth b t).2) = _
      rw [substitute_definition hb hs]
  have hsecond := mapM_substitute depth hinterfaces
  show ((declared.base.mapM (substitute s depth) t).1 = _) ∧
    (declared.interfaces.mapM (substitute s depth) (declared.base.mapM (substitute s depth) t).2).1 = _
  rw [hfirst, hsecond]
  exact ⟨rfl, rfl⟩

theorem members_congr {depth : Nat} {e e' : Entry} (h : e.members = e'.members) :
    members s depth e = members s depth e' := by
  show (e.members.base.mapM _ >>= fun _ => e.members.interfaces.mapM _ >>= fun _ =>
    e.members.constructors.mapM _ >>= fun _ => _) = _
  rw [h]
  rfl

/-- What filling in makes of the members of a type: it leaves them alone, takes those of the definition
    behind the type, or gives an array its base. -/
theorem members_instantiate_cases (hid : id.index < t.size) :
    ((instantiate id t).2.entry id).members = (t.entry id).members ∨
    (∃ generic arguments depth, t.shape id = .constructed generic arguments ∧
      ((instantiate id t).2.entry id).members =
        (members ⟨t.typeParameters generic, arguments⟩ depth (t.entry generic) (t.marked id)).1) ∨
    ∃ element rank, t.shape id = .array element rank ∧ ((instantiate id t).2.entry id).members =
      { (t.entry id).members with base := t.lookup arrayBaseName } := by
  have hmarked (other : TypeId) : ((t.marked id).entry other).members = (t.entry other).members := by
    by_cases heq : id = other
    · rw [← heq, entry_marked t hid, if_pos rfl]
      rfl
    · exact congrArg Entry.members (entry_update_of_ne heq)
  have hextends : t.Extends (t.marked id) := .update id (fun _ => rfl) fun _ => rfl
  have hlt : id.index < (t.marked id).size := by rwa [size_marked]
  rw [instantiate_eq, withMembersOf, shape_marked]
  cases hshape : t.shape id with
  | constructed generic arguments =>
    dsimp only
    split
    · refine .inr (.inl ⟨generic, arguments, ((t.marked id).entry id).depth + 1, rfl, ?_⟩)
      have hspawns := spawns_members ⟨(t.marked id).typeParameters generic, arguments⟩
        (((t.marked id).entry id).depth + 1) ((t.marked id).entry generic) (t.marked id)
      rw [entry_update_self (Nat.lt_of_lt_of_le hlt hspawns.size_le),
        typeParameters_congr (shape_marked t id generic)]
      show (members _ _ _ (t.marked id)).1 = _
      rw [members_congr (hmarked generic)]
    · exact .inl (hmarked id)
  | array element rank =>
    refine .inr (.inr ⟨element, rank, rfl, ?_⟩)
    rw [entry_update_self hlt, hextends.lookup_eq, ← hmarked id]
    rfl
  | _ => exact .inl (hmarked id)

/-- Filling in the members of a type gives it roots if its template is one of the names. -/
theorem Rooted.namesRoots_instantiate (h : t.Rooted roots names) (ht : t.Regular)
    (hid : id.index < t.size) (hplain : id ∈ roots ∨ ∃ name ∈ names, t.template? id = some name) :
    (instantiate id t).2.NamesRoots roots id := by
  have hextends : t.Extends (instantiate id t).2 := walks_instantiate id t
  have hold := (h id).inherits hplain
  -- A type that is built is no root, so its template has one of the names.
  have hbuilt (hdefinition : t.isDefinition id = false) : ∃ name ∈ names, t.template? id = some name :=
    hplain.resolve_left fun hroot => Bool.false_ne_true (hdefinition.symm.trans ((h id).root hroot))
  rcases members_instantiate_cases hid with hmembers | ⟨generic, arguments, depth, hshape, hmembers⟩ |
    ⟨element, rank, hshape, hmembers⟩
  · exact hold.of_members (hextends.shape_eq hid) hmembers
  · have hgeneric := ht.generic hshape
    obtain ⟨name, hname, htemplate⟩ := hbuilt (by rw [isDefinition, metadataName?, hshape]; rfl)
    have hnames : t.NamesRoots roots generic := by
      refine (h generic).inherits (.inr ⟨name, hname, ?_⟩)
      obtain ⟨_, _, _, _, _, _, hself⟩ := exists_definition hgeneric
      rw [template?, constructedFrom, hshape] at htemplate
      rw [template?, constructedFrom, hself]
      exact htemplate
    have hroot {r : TypeId} (hr : r ∈ roots) : (t.marked id).isDefinition r = true ∧
        r ∉ t.typeParameters generic :=
      ⟨(isDefinition_congr (shape_marked t id r)).trans ((h r).root hr), fun hp => hnames.parameters r hp hr⟩
    obtain ⟨hbase, hinterfaces⟩ := members_roots
      (s := ⟨t.typeParameters generic, arguments⟩) (t.entry generic) depth
      (fun b hb => hroot (hnames.base b hb)) fun i hi => hroot (hnames.interfaces i hi)
    rw [← hmembers] at hbase hinterfaces
    have hinterfaces : (instantiate id t).2.interfaces id = t.interfaces generic := hinterfaces
    refine ⟨fun b hb => hnames.base b (hbase.symm.trans hb), hinterfaces ▸ hnames.interfaces, ?_⟩
    rw [typeParameters, hextends.shape_eq hid, hshape]
    rintro _ ⟨⟩
  · obtain ⟨name, hname, htemplate⟩ := hbuilt (by rw [isDefinition, metadataName?, hshape]; rfl)
    rw [template?, hshape] at htemplate
    obtain rfl : arrayBaseName = name := Option.some.inj htemplate
    have hinterfaces : (instantiate id t).2.interfaces id = t.interfaces id :=
      congrArg Members.interfaces hmembers
    refine ⟨fun b hb => ?_, hinterfaces ▸ hold.interfaces, ?_⟩
    · have hlookup : t.lookup arrayBaseName = some b := (congrArg Members.base hmembers).symm.trans hb
      exact (h b).arrayBase hname (metadataName?_of_lookup hlookup)
    · rw [typeParameters, hextends.shape_eq hid, hshape]
      rintro _ ⟨⟩

/-- Types that are built in a table have nothing but their shape. -/
theorem Rooted.modest_of_new (h : t.Rooted roots names) (depth : Nat) (hextends : t.Extends u)
    (hid : t.size ≤ id.index)
    (hentry : id.index < u.size → u.entry id = { shape := u.shape id, depth }) :
    u.Modest roots names id := by
  have hroot : id ∉ roots := fun hroot => Nat.not_lt.2 hid (h.index_lt hroot)
  have hdefinition : u.isDefinition id = false := by
    have hbuilt := hextends.isBuilt_shape hid
    rw [isDefinition, metadataName?]
    split
    · next hshape =>
      rw [hshape] at hbuilt
      cases hbuilt
    · rfl
  by_cases hlt : id.index < u.size
  · exact modest_of_bare depth hroot hdefinition (hentry hlt)
  · refine modest_of_bare 0 hroot hdefinition ?_
    rw [TypeTable.shape, entry_of_le (Nat.not_lt.1 hlt)]
    rfl

theorem Rooted.instantiate (h : t.Rooted roots names) (ht : t.Regular) (hid : id.index < t.size) :
    (instantiate id t).2.Rooted roots names := by
  intro other
  have hextends : t.Extends (TypeTable.instantiate id t).2 := walks_instantiate id t
  have hinstantiates := instantiates_instantiate hid
  by_cases hold : other.index < t.size
  · by_cases heq : other = id
    · subst heq
      refine (h other).of_shape (hextends.shape_eq hid) (hextends.special_eq hid)
        ((Keeps.of_extends hextends).template?_eq ht.toSound hid) (h.namesRoots_instantiate ht hid)
        fun harray => ?_
      rcases members_instantiate_cases hid with hmembers | ⟨_, _, _, hshape, -⟩ | ⟨_, _, -, hmembers⟩
      · exact congrArg Members.constructors hmembers
      · rw [arrayElement, hshape] at harray
        cases harray
      · exact congrArg Members.constructors hmembers
    · exact (h other).of_members (.of_extends hextends) ht.toSound hold (hextends.special_eq hold)
        (by rw [hinstantiates.entry_eq hold heq])
  · exact h.modest_of_new _ hextends (Nat.not_lt.1 hold) fun hnew =>
      (hinstantiates.entry_new (Nat.not_lt.1 hold) hnew).2

theorem Rooted.fillInterfaces (h : t.Rooted roots names) (ht : t.Sound) :
    t.fillInterfaces.Rooted roots names := by
  intro id
  have hextends : t.Extends t.fillInterfaces := .change (fun _ _ => rfl) fun _ _ => rfl
  by_cases hid : id.index < t.size
  · exact (h id).of_members (.of_extends hextends) ht hid (hextends.special_eq hid)
      (by rw [entry_fillInterfaces t hid]; rfl)
  · exact h.modest_of_new 0 hextends (Nat.not_lt.1 hid) fun hlt =>
      absurd (size_fillInterfaces t ▸ hlt) hid

/-- Asking for a type that is built from others keeps what is known. -/
theorem Rooted.intern (h : t.Rooted roots names) (ht : t.Sound) {shape : Shape}
    (hbuilt : shape.isBuilt = true) : (t.intern shape).2.Rooted roots names := by
  intro id
  have hextends : t.Extends (t.intern shape).2 := Growth.intern t shape 0 hbuilt
  have hspawns := Spawns.intern t shape 0
  by_cases hid : id.index < t.size
  · exact (h id).of_members (.of_extends hextends) ht hid (hextends.special_eq hid)
      (by rw [hspawns.entry_eq hid])
  · exact h.modest_of_new 0 hextends (Nat.not_lt.1 hid) (hspawns.entry_new (Nat.not_lt.1 hid))

/-- Completion keeps what is known of the types. -/
theorem Rooted.complete (h : t.Rooted roots names) (ht : t.Derived) : t.complete.Rooted roots names := by
  refine (complete_induct (P := fun t => t.Derived ∧ t.Rooted roots names) ?_ ?_ ⟨ht, h⟩).2
  · rintro t i hi ⟨hderived, hrooted⟩
    refine ⟨hderived.visit hi, ?_⟩
    rw [visit]
    split
    · exact hrooted
    · exact hrooted.instantiate hderived.toRegular hi
  · rintro t ⟨hderived, hrooted⟩
    exact ⟨hderived.fillInterfaces, hrooted.fillInterfaces hderived.toSound⟩

/-- Types behind those of a table keep what is known of it, if none of them has one of the names. -/
theorem Rooted.beyond (h : start.Rooted roots names) (hstart : start.Sound) (hbeyond : start.Beyond t)
    (hnames : ∀ id : TypeId, start.size ≤ id.index → ∀ name ∈ names, t.metadataName? id ≠ some name) :
    t.Rooted roots names := by
  intro id
  have hkeeps : start.Keeps t :=
    ⟨hbeyond.size_le, fun hid => congrArg Entry.shape (hbeyond.entry_eq hid)⟩
  by_cases hid : id.index < start.size
  · exact (h id).of_members hkeeps hstart hid (congrArg Entry.special (hbeyond.entry_eq hid))
      (congrArg Entry.members (hbeyond.entry_eq hid))
  · have hroot : id ∉ roots := fun hroot => hid (h.index_lt hroot)
    have hbehind := Nat.not_lt.1 hid
    cases hdefinition : t.isDefinition id with
    | false => exact modest_of_bare 0 hroot hdefinition (hbeyond.bare hbehind hdefinition)
    | true =>
      obtain ⟨_, _, unique, _, _, _, hshape⟩ := exists_definition hdefinition
      refine ⟨fun _ => hdefinition, fun hmem heq => absurd heq (hnames id hbehind _ hmem),
        fun hmem heq => absurd heq (hnames id hbehind _ hmem), fun _ => hdefinition,
        fun hplain => ?_, fun harray => ?_⟩
      · obtain ⟨name, hmem, htemplate⟩ := hplain.resolve_left hroot
        rw [template?, constructedFrom, hshape] at htemplate
        exact absurd htemplate (hnames id hbehind name hmem)
      · rw [arrayElement, hshape] at harray
        cases harray

end TypeTable

/-! ## The library -/

namespace LibraryType

open TypeTable (arrayBaseName nullableName)

/-- The unique names of what arrays and nullable types inherit. -/
def rootNames : List String :=
  ["System.Object", "System.ValueType", "System.Array", "System.Collections.IList",
    "System.Collections.ICollection", "System.Collections.IEnumerable"]

/-- What arrays and nullable types inherit from the library. -/
def roots : List TypeId := rootNames.filterMap (install .empty).lookup

/-- The definitions of the library that arrays and nullable types come from name roots only. -/
theorem install_names_roots : ∀ id ∈ (install .empty).ids,
    ((install .empty).metadataName? id = some arrayBaseName → id ∈ roots) ∧
    ((install .empty).metadataName? id = some nullableName →
      (install .empty).shape id = .definition "Nullable" "System" nullableName none .structType
        ((install .empty).typeParameters id) ∧ (install .empty).specialOf id = none) ∧
    (id ∈ roots ∨ (install .empty).metadataName? id = some nullableName →
      (∀ b ∈ ((install .empty).base id).toList, b ∈ roots) ∧
      (∀ i ∈ (install .empty).interfaces id, i ∈ roots) ∧
      ∀ p ∈ (install .empty).typeParameters id, p ∉ roots) := by
  decide +kernel

theorem rooted_install {names : List String} (hnames : names ⊆ [arrayBaseName, nullableName]) :
    (install .empty).Rooted roots names := by
  intro id
  have hroot {id : TypeId} (hid : id ∈ roots) : (install .empty).isDefinition id = true := by
    obtain ⟨unique, -, hlookup⟩ := List.mem_filterMap.1 hid
    exact TypeTable.isDefinition_of_lookup hlookup
  cases hdefinition : (install .empty).isDefinition id with
  | false =>
    refine TypeTable.modest_of_bare 0 (fun hid => ?_) hdefinition
      (beyond_install.bare (Nat.zero_le _) hdefinition)
    exact Bool.false_ne_true (hdefinition.symm.trans (hroot hid))
  | true =>
    obtain ⟨_, _, _, _, _, _, hshape⟩ := TypeTable.exists_definition hdefinition
    have hmem : id ∈ (install .empty).ids := by
      rw [TypeTable.ids, List.mem_map]
      exact ⟨id.index, List.mem_range.2 (TypeTable.index_lt_of_shape hshape), rfl⟩
    obtain ⟨harray, hnullable, hinherits⟩ := install_names_roots id hmem
    refine ⟨hroot, fun _ => harray, fun _ => hnullable, fun _ => hdefinition, fun hplain => ?_,
      fun harray => ?_⟩
    · have hplain : id ∈ roots ∨ (install .empty).metadataName? id = some nullableName := by
        rcases hplain with hid | ⟨name, hname, htemplate⟩
        · exact .inl hid
        · rw [TypeTable.template?, TypeTable.constructedFrom, hshape] at htemplate
          rcases List.mem_pair.1 (hnames hname) with rfl | rfl
          · exact .inl (harray htemplate)
          · exact .inr htemplate
      obtain ⟨hbase, hinterfaces, hparameters⟩ := hinherits hplain
      exact ⟨fun b hb => hbase b (Option.mem_toList.2 hb), hinterfaces, hparameters⟩
    · rw [TypeTable.arrayElement, hshape] at harray
      cases harray

end LibraryType

namespace TypeTable

variable {roots : List TypeId} {names : List String} {t : TypeTable} {id : TypeId}

/-- The table of the library is as the library has it. -/
theorem rooted_withLibrary (hnames : names ⊆ [arrayBaseName, nullableName]) :
    withLibrary.Rooted LibraryType.roots names :=
  (LibraryType.rooted_install hnames).complete (LibraryType.beyond_install.derived derived_empty)

/-! ## Inherited interfaces -/

open Relation (ReflTransGen TransGen) in
/-- A type that names roots only has roots for all its interfaces. -/
theorem Rooted.mem_roots (h : t.Rooted roots names) (hid : t.NamesRoots roots id) {i : TypeId}
    (hi : i ∈ t.collectInterfaces id) : i ∈ roots := by
  obtain ⟨b, hbase, hinterface⟩ := mem_collectInterfaces.1 hi
  clear hi
  have hnames {r : TypeId} (hr : r ∈ roots) : t.NamesRoots roots r := (h r).inherits (.inl hr)
  have hb : t.NamesRoots roots b := by
    clear hinterface
    induction hbase with
    | refl => exact hid
    | tail _ hlink ih => exact hnames (ih.base _ hlink)
  induction hinterface with
  | single hlink => exact hb.interfaces _ hlink.1
  | tail _ hlink ih => exact (hnames ih).interfaces _ hlink.1

/-- A sound table that is as the library has it, with all interfaces filled in. -/
structure Backed (roots : List TypeId) (names : List String) (t : TypeTable) : Prop extends t.Sound where
  rooted : t.Rooted roots names
  inherited : ∀ {id : TypeId}, t.NamesRoots roots id → ∀ i ∈ t.allInterfaces id, i ∈ roots

theorem Rooted.backed_complete (h : t.Rooted roots names) (ht : t.Derived) :
    t.complete.Backed roots names where
  toSound := ht.complete.toSound
  rooted := h.complete ht
  inherited hid _ hi := (h.complete ht).mem_roots hid (allInterfaces_complete t _ ▸ hi)

/-- A type that is asked for later has no interfaces. -/
theorem Backed.intern (h : t.Backed roots names) {shape : Shape} (hbuilt : shape.isBuilt = true)
    (hproper : shape.isProper = true) (hparts : ∀ p ∈ shape.parts, p.index < t.size) :
    (t.intern shape).2.Backed roots names where
  toSound := h.toSound.intern hparts hproper 0
  rooted := h.rooted.intern h.toSound hbuilt
  inherited {id} hid i hi := by
    have hextends : t.Extends (t.intern shape).2 := Growth.intern t shape 0 hbuilt
    have hspawns := Spawns.intern t shape 0
    by_cases hlt : id.index < t.size
    · have hentry := hspawns.entry_eq hlt
      rw [TypeTable.allInterfaces, hentry] at hi
      exact h.inherited (hid.of_members (hextends.shape_eq hlt).symm (by rw [hentry])) i hi
    · -- A new type has nothing but its shape, and what is no type has nothing at all.
      by_cases hnew : id.index < (t.intern shape).2.size
      · rw [TypeTable.allInterfaces, hspawns.entry_new (Nat.not_lt.1 hlt) hnew] at hi
        cases hi
      · rw [TypeTable.allInterfaces, entry_of_le (Nat.not_lt.1 hnew)] at hi
        cases hi

end TypeTable

end SettingsLint
