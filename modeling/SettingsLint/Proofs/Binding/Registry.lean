import SettingsLint.Proofs.Binding.TypeProperties
import SettingsLint.Proofs.Types.Keys

/-! # Declared types and their keys

The first pass over a unit registers every declaration under the key of its type. Declarations
with the same key share one type, which stands where the first of them stands; declarations
with other keys do not. So the declared types are the keys without repetitions, and a type has
the properties of all declarations with its key.

The pass lists a declaration after those nested in it, the unit before them. Declarations with
one key are never nested in each other, so they come in the same order either way.
-/

namespace SettingsLint

/-! ## Keys of declarations -/

/-- The name of the namespace inside another one. -/
def NamespaceHeader.nameWithin (header : NamespaceHeader) (outer : String) : String :=
  if outer = "" then header.dottedName else outer ++ "." ++ header.dottedName

mutual

/-- The declaration and those nested in it with the keys of their types, in source order.
    `make` makes the key of the declaration itself. -/
def TypeDeclaration.keyed (make : String → Nat → TypeKey) :
    TypeDeclaration → List (TypeKey × TypeDeclaration)
  | .mk header members =>
    let own := make header.name.name header.typeParameters.length
    (own, .mk header members) :: Member.keyedIn own members

/-- The declarations among the members of a type with the keys of their types. -/
def Member.keyedIn (outer : TypeKey) : List Member → List (TypeKey × TypeDeclaration)
  | [] => []
  | .nested declaration :: members => declaration.keyed outer.nested ++ Member.keyedIn outer members
  | .property _ :: members => Member.keyedIn outer members
  | .constructor _ :: members => Member.keyedIn outer members
  | .other _ :: members => Member.keyedIn outer members

end

mutual

/-- The declarations in a member of a unit with the keys of their types. -/
def UnitMember.keyed (namespaceName : String) : UnitMember → List (TypeKey × TypeDeclaration)
  | .scope header members => UnitMember.keyedIn (header.nameWithin namespaceName) members
  | .type declaration => declaration.keyed (.top namespaceName)

/-- The declarations in the members of a unit with the keys of their types. -/
def UnitMember.keyedIn (namespaceName : String) :
    List UnitMember → List (TypeKey × TypeDeclaration)
  | [] => []
  | member :: members => member.keyed namespaceName ++ UnitMember.keyedIn namespaceName members

end

/-- The declarations of the unit with the keys of their types, in source order. -/
def SourceUnit.keyed (unit : SourceUnit) : List (TypeKey × TypeDeclaration) :=
  UnitMember.keyedIn "" unit.members

mutual

theorem TypeDeclaration.map_snd_keyed (make : String → Nat → TypeKey) :
    (declaration : TypeDeclaration) → (declaration.keyed make).map (·.2) = declaration.withNested
  | .mk _ members => congrArg (_ :: ·) (Member.map_snd_keyedIn _ members)

theorem Member.map_snd_keyedIn (outer : TypeKey) :
    (members : List Member) → (Member.keyedIn outer members).map (·.2) = Member.nestedIn members
  | [] => rfl
  | .nested declaration :: members => by
    rw [Member.keyedIn, Member.nestedIn, List.map_append, declaration.map_snd_keyed,
      Member.map_snd_keyedIn outer members]
  | .property _ :: members => Member.map_snd_keyedIn outer members
  | .constructor _ :: members => Member.map_snd_keyedIn outer members
  | .other _ :: members => Member.map_snd_keyedIn outer members

end

mutual

theorem UnitMember.map_snd_keyed (namespaceName : String) :
    (member : UnitMember) → (member.keyed namespaceName).map (·.2) = member.declarations
  | .scope _ members => UnitMember.map_snd_keyedIn _ members
  | .type declaration => declaration.map_snd_keyed _

theorem UnitMember.map_snd_keyedIn (namespaceName : String) : (members : List UnitMember) →
    (UnitMember.keyedIn namespaceName members).map (·.2) = UnitMember.declarationsIn members
  | [] => rfl
  | member :: members => by
    rw [keyedIn, declarationsIn, List.map_append, member.map_snd_keyed, map_snd_keyedIn _ members]

end

/-- Without their keys these are the declarations of the unit. -/
theorem SourceUnit.map_snd_keyed (unit : SourceUnit) : unit.keyed.map (·.2) = unit.declarations :=
  UnitMember.map_snd_keyedIn "" unit.members

/-! ## Nested declarations first -/

mutual

/-- Like `keyed`, with the declaration after those nested in it. -/
def TypeDeclaration.keyedLast (make : String → Nat → TypeKey) :
    TypeDeclaration → List (TypeKey × TypeDeclaration)
  | .mk header members =>
    let own := make header.name.name header.typeParameters.length
    Member.keyedLastIn own members ++ [(own, .mk header members)]

/-- Like `keyedIn`, with each declaration after those nested in it. -/
def Member.keyedLastIn (outer : TypeKey) : List Member → List (TypeKey × TypeDeclaration)
  | [] => []
  | .nested declaration :: members =>
    declaration.keyedLast outer.nested ++ Member.keyedLastIn outer members
  | .property _ :: members => Member.keyedLastIn outer members
  | .constructor _ :: members => Member.keyedLastIn outer members
  | .other _ :: members => Member.keyedLastIn outer members

end

mutual

/-- Like `keyed`, with each declaration after those nested in it. -/
def UnitMember.keyedLast (namespaceName : String) : UnitMember → List (TypeKey × TypeDeclaration)
  | .scope header members => UnitMember.keyedLastIn (header.nameWithin namespaceName) members
  | .type declaration => declaration.keyedLast (.top namespaceName)

/-- Like `keyedIn`, with each declaration after those nested in it. -/
def UnitMember.keyedLastIn (namespaceName : String) :
    List UnitMember → List (TypeKey × TypeDeclaration)
  | [] => []
  | member :: members =>
    member.keyedLast namespaceName ++ UnitMember.keyedLastIn namespaceName members

end

mutual

/-- A declaration is as deep as its key, and those nested in it are deeper. -/
theorem TypeDeclaration.depth_keyed {make : String → Nat → TypeKey} {n : Nat}
    (hmake : ∀ name arity, n ≤ (make name arity).depth) : (declaration : TypeDeclaration) →
    ∀ e ∈ declaration.keyed make, n ≤ e.1.depth
  | .mk header members, e, he => by
    rcases List.mem_cons.1 he with rfl | he
    · exact hmake _ _
    · have hown := hmake header.name.name header.typeParameters.length
      have hdeeper := Member.depth_keyedIn _ members e he
      omega

theorem Member.depth_keyedIn (outer : TypeKey) : (members : List Member) →
    ∀ e ∈ Member.keyedIn outer members, outer.depth < e.1.depth
  | [], _, he => nomatch he
  | .nested declaration :: members, e, he => by
    rcases List.mem_append.1 he with he | he
    · exact declaration.depth_keyed (fun _ _ => Nat.le_refl (outer.depth + 1)) e he
    · exact Member.depth_keyedIn outer members e he
  | .property _ :: members, e, he => Member.depth_keyedIn outer members e he
  | .constructor _ :: members, e, he => Member.depth_keyedIn outer members e he
  | .other _ :: members, e, he => Member.depth_keyedIn outer members e he

end

mutual

theorem TypeDeclaration.filter_keyedLast (key : TypeKey) (make : String → Nat → TypeKey) :
    (declaration : TypeDeclaration) → (declaration.keyedLast make).filter (·.1 = key)
      = (declaration.keyed make).filter (·.1 = key)
  | .mk header members => by
    have hmembers := Member.filter_keyedLastIn key
      (make header.name.name header.typeParameters.length) members
    rw [TypeDeclaration.keyedLast, TypeDeclaration.keyed, List.filter_append, hmembers]
    by_cases hkey : make header.name.name header.typeParameters.length = key
    · -- What is nested has other keys, so it does not matter on which side it stands.
      have hnested : (Member.keyedIn (make header.name.name header.typeParameters.length)
          members).filter (·.1 = key) = [] := by
        rw [List.filter_eq_nil_iff]
        intro e he heq
        have hdeeper := Member.depth_keyedIn _ members e he
        rw [of_decide_eq_true heq, hkey] at hdeeper
        omega
      rw [List.filter_cons_of_pos (by simpa using hkey),
        List.filter_cons_of_pos (by simpa using hkey), hnested]
      rfl
    · rw [List.filter_cons_of_neg (by simpa using hkey), List.filter_cons_of_neg (by simpa using hkey)]
      simp

theorem Member.filter_keyedLastIn (key outer : TypeKey) : (members : List Member) →
    (Member.keyedLastIn outer members).filter (·.1 = key)
      = (Member.keyedIn outer members).filter (·.1 = key)
  | [] => rfl
  | .nested declaration :: members => by
    rw [Member.keyedLastIn, Member.keyedIn, List.filter_append, List.filter_append,
      declaration.filter_keyedLast key, Member.filter_keyedLastIn key outer members]
  | .property _ :: members => Member.filter_keyedLastIn key outer members
  | .constructor _ :: members => Member.filter_keyedLastIn key outer members
  | .other _ :: members => Member.filter_keyedLastIn key outer members

end

mutual

theorem UnitMember.filter_keyedLast (key : TypeKey) (namespaceName : String) :
    (member : UnitMember) → (member.keyedLast namespaceName).filter (·.1 = key)
      = (member.keyed namespaceName).filter (·.1 = key)
  | .scope _ members => UnitMember.filter_keyedLastIn key _ members
  | .type declaration => declaration.filter_keyedLast key _

/-- Declarations with one key stand in the order of the source, whether nested ones come first or
    last. -/
theorem UnitMember.filter_keyedLastIn (key : TypeKey) (namespaceName : String) :
    (members : List UnitMember) → (UnitMember.keyedLastIn namespaceName members).filter (·.1 = key)
      = (UnitMember.keyedIn namespaceName members).filter (·.1 = key)
  | [] => rfl
  | member :: members => by
    rw [keyedLastIn, keyedIn, List.filter_append, List.filter_append, member.filter_keyedLast key,
      filter_keyedLastIn key _ members]

end

/-! ## Registering -/

theorem exists_right_of_mem_left {R : α → β → Prop} {as : List α} {bs : List β}
    (h : List.Forall₂ R as bs) {a : α} (ha : a ∈ as) : ∃ b ∈ bs, R a b :=
  exists_of_forall₂ h.flip ha

theorem forall₂_imp_of_mem_right {R S : α → β → Prop} {as : List α} {bs : List β}
    (h : List.Forall₂ R as bs) (himp : ∀ a, ∀ b ∈ bs, R a b → S a b) : List.Forall₂ S as bs := by
  induction h with
  | nil => exact .nil
  | cons hab _ ih =>
    obtain ⟨hfirst, hrest⟩ := List.forall_mem_cons.1 fun b hb a => himp a b hb
    exact .cons (hfirst _ hab) (ih fun a b hb => hrest b hb a)

namespace DeclareState

variable {s : DeclareState} {make : String → Nat → TypeKey}

/-- The declaration that was registered under a key. -/
structure Registered (s : DeclareState) (entry : TypeKey × TypeDeclaration) (d : Declared) : Prop where
  declaration : d.declaration = entry.2
  hasKey : s.table.HasKey entry.1 d.id
  mem_types : d.id ∈ s.types

/-- The types of the state are those with the keys, each where its key stands first, and are
    found under their keys. The declarations are registered under theirs. -/
structure Registers (s : DeclareState) (keys : List TypeKey)
    (entries : List (TypeKey × TypeDeclaration)) : Prop where
  plain : ∀ key ∈ keys, key.Plain
  types : List.Forall₂ s.table.HasKey keys.eraseDups s.types
  found : ∀ {key id}, id ∈ s.types → s.table.HasKey key id → s.table.lookup key.metadataName = some id
  declared : List.Forall₂ s.Registered entries s.declared

/-- The state has all types of the other one. -/
structure Grows (s s' : DeclareState) : Prop where
  table : s.table.Keeps s'.table
  types : ∀ {id}, id ∈ s.types → id ∈ s'.types

theorem Grows.refl (s : DeclareState) : s.Grows s := ⟨.refl _, id⟩

theorem Grows.trans {s' s'' : DeclareState} (h : s.Grows s') (g : s'.Grows s'') : s.Grows s'' :=
  ⟨h.table.trans g.table, fun hid => g.types (h.types hid)⟩

/-- The surroundings of a declaration give its key. -/
inductive Names (t : TypeTable) (context : Context) : Option TypeId → (String → Nat → TypeKey) → Prop
  | top : Names t context none (.top context.namespaceName)
  | nested {outer : TypeId} {key : TypeKey} (h : t.HasKey key outer) :
    Names t context (some outer) key.nested

theorem Names.uniqueName_eq {t : TypeTable} {context : Context} {containing : Option TypeId} (h : Names t context containing make) (name : String)
    (arity : Nat) :
    t.uniqueName context.namespaceName name arity containing = (make name arity).metadataName := by
  cases h with
  | top => rfl
  | nested h =>
    rw [TypeTable.uniqueName, h.metadataName?_eq]
    rfl

/-- The type that is declared has the key of its declaration. -/
theorem Names.hasKey_of_declares {t t' : TypeTable} {context : Context} {containing : Option TypeId} (h : Names t context containing make) {name : String}
    {parameters : List String} {id : TypeId}
    (hdeclares : t.Declares context.namespaceName name parameters containing id t') :
    t'.HasKey (make name parameters.length) id := by
  obtain ⟨ns, kind, ids, hlength, hns, hshape⟩ := hdeclares.shape
  rw [h.uniqueName_eq, ← hlength] at hshape
  rw [← hlength]
  cases h with
  | top =>
    obtain rfl := hns rfl
    exact .top hshape
  | nested h => exact .nested (h.mono hdeclares.keeps) hshape

/-- What is found under the key of a declaration, the library included. -/
def known (s : DeclareState) (context : Context) (containing : Option TypeId)
    (header : DeclarationHeader) : Option TypeId :=
  match containing with
  | some outer => s.table.lookupNested outer header.name.name header.typeParameters.length
  | none => s.table.lookupIn context.namespaceName header.name.name header.typeParameters.length

theorem known_eq {context : Context} {containing : Option TypeId} (h : Names s.table context containing make)
    (header : DeclarationHeader) : s.known context containing header
      = s.table.lookup (make header.name.name header.typeParameters.length).metadataName := by
  cases h with
  | top => rfl
  | nested h =>
    rw [known, TypeTable.lookupNested, h.metadataName?_eq]
    rfl

/-- A declaration gets the type that is found under its key among the declared types, or else a
    new one. -/
theorem enter_cases {context : Context} {containing : Option TypeId} (h : Names s.table context containing make)
    (header : DeclarationHeader) :
    let key := make header.name.name header.typeParameters.length
    (∃ id ∈ s.types, s.table.lookup key.metadataName = some id ∧
      s.enter context containing header = (id, s)) ∨
    ((∀ id ∈ s.types, s.table.lookup key.metadataName ≠ some id) ∧ ∃ id t,
      s.table.Declares context.namespaceName header.name.name
        (header.typeParameters.map (·.name)) containing id t ∧
      s.enter context containing header = (id, { s with table := t, types := s.types ++ [id] })) := by
  intro key
  let new := s.table.declare context.namespaceName header.name.name header.kind.typeKind
    (header.typeParameters.map (·.name)) containing
  have henter : s.enter context containing header
      = match (s.known context containing header).filter (s.types.contains ·) with
        | some id => (id, s)
        | none => (new.1, { s with table := new.2, types := s.types ++ [new.1] }) := rfl
  rw [henter, known_eq h]
  cases hfilter : (s.table.lookup key.metadataName).filter (s.types.contains ·) with
  | some id =>
    obtain ⟨hlookup, hmem⟩ := Option.filter_eq_some_iff.1 hfilter
    exact .inl ⟨id, by simpa using hmem, hlookup, rfl⟩
  | none =>
    refine .inr ⟨fun id hid hlookup => ?_, _, _, s.table.declares_declare _ _ _ _ _, rfl⟩
    rw [hlookup, Option.filter_some, if_pos (by simpa using hid)] at hfilter
    cases hfilter

namespace Registers

variable {s : DeclareState} {keys : List TypeKey} {entries : List (TypeKey × TypeDeclaration)}

/-- The type that is found for a key has that key, if it is one of the declared types. -/
theorem hasKey_of_lookup (h : s.Registers keys entries) {key : TypeKey} {id : TypeId}
    (hplain : key.Plain) (hid : id ∈ s.types)
    (hlookup : s.table.lookup key.metadataName = some id) : key ∈ keys ∧ s.table.HasKey key id := by
  obtain ⟨key', hkey', hhas⟩ := exists_of_forall₂ h.types hid
  have hmem : key' ∈ keys := List.mem_eraseDups.1 hkey'
  have hdefines := TypeTable.defines_of_lookup hlookup
  have hname : key'.metadataName = key.metadataName := by
    cases hhas with
    | top hshape =>
      rw [hshape] at hdefines
      exact of_decide_eq_true hdefines
    | nested _ hshape =>
      rw [hshape] at hdefines
      exact of_decide_eq_true hdefines
  have hsame := TypeKey.metadataName_injective (h.plain key' hmem) hplain hname
  exact hsame ▸ ⟨hmem, hhas⟩

/-- Entering a declaration registers its key. -/
theorem enter (h : s.Registers keys entries) {context : Context} {containing : Option TypeId}
    {make : String → Nat → TypeKey} (hnames : Names s.table context containing make)
    (header : DeclarationHeader)
    (hplain : (make header.name.name header.typeParameters.length).Plain) :
    let r := s.enter context containing header
    let key := make header.name.name header.typeParameters.length
    r.2.Registers (keys ++ [key]) entries ∧ s.Grows r.2 ∧ r.2.table.HasKey key r.1 ∧
      r.1 ∈ r.2.types := by
  intro r key
  have hkeys : ∀ k ∈ keys ++ [key], k.Plain := by
    intro k hk
    rcases List.mem_append.1 hk with hk | hk
    · exact h.plain k hk
    · exact List.mem_singleton.1 hk ▸ hplain
  rcases enter_cases hnames header with ⟨id, hid, hlookup, heq⟩ | ⟨hnew, id, t, hdeclares, heq⟩
  · -- The key is known, so it is a repetition.
    obtain ⟨hmem, hhas⟩ := h.hasKey_of_lookup hplain hid hlookup
    have hsame : (keys ++ [key]).eraseDups = keys.eraseDups := by
      rw [List.eraseDups_append]
      simp [List.removeAll, key, hmem]
    have hr : r = (id, s) := heq
    rw [hr]
    exact ⟨⟨hkeys, hsame ▸ h.types, h.found, h.declared⟩, .refl s, hhas, hid⟩
  · have hr : r = (id, { s with table := t, types := s.types ++ [id] }) := heq
    have hunique : s.table.uniqueName context.namespaceName header.name.name
        (header.typeParameters.map (·.name)).length containing = key.metadataName := by
      rw [List.length_map]
      exact hnames.uniqueName_eq _ _
    have hfresh : key ∉ keys := by
      intro hmem
      obtain ⟨id', hid', hhas⟩ := exists_right_of_mem_left h.types (List.mem_eraseDups.2 hmem)
      exact hnew id' hid' (h.found hid' hhas)
    have hmore : (keys ++ [key]).eraseDups = keys.eraseDups ++ [key] := by
      rw [List.eraseDups_append]
      simp [List.removeAll, hfresh, List.eraseDups_cons]
    have hhas : t.HasKey key id := by
      have hmade := hnames.hasKey_of_declares hdeclares
      rwa [List.length_map] at hmade
    rw [hr]
    refine ⟨⟨hkeys, ?_, ?_, ?_⟩, ⟨hdeclares.keeps, List.mem_append_left _⟩, hhas,
      List.mem_append_right _ List.mem_cons_self⟩
    · rw [hmore]
      exact List.rel_append (h.types.imp fun _ _ hold => hold.mono hdeclares.keeps) (.cons hhas .nil)
    · intro key' id' hid' hhas'
      rw [hdeclares.lookup, hunique]
      rcases List.mem_append.1 hid' with hold | hself
      · obtain ⟨key'', -, hhas''⟩ := exists_of_forall₂ h.types hold
        obtain rfl := hhas'.unique (hhas''.mono hdeclares.keeps)
        have hlookup := h.found hold hhas''
        -- The new type does not hide an old one, which would have been found under its key.
        have hother : key.metadataName ≠ key'.metadataName := by
          intro hsame
          exact hnew id' hold (Eq.trans (congrArg s.table.lookup hsame) hlookup)
        rw [if_neg hother, hlookup]
      · rw [List.mem_singleton.1 hself] at hhas' ⊢
        rw [hhas'.unique hhas, if_pos rfl]
    · refine h.declared.imp fun entry d hold => ⟨hold.declaration, hold.hasKey.mono hdeclares.keeps, ?_⟩
      exact List.mem_append_left _ hold.mem_types

/-- A declaration is listed under its key. -/
theorem list (h : s.Registers keys entries) {entry : TypeKey × TypeDeclaration} {d : Declared}
    (hd : s.Registered entry d) :
    ({ s with declared := s.declared ++ [d] } : DeclareState).Registers keys (entries ++ [entry]) where
  plain := h.plain
  types := h.types
  found := h.found
  declared := by
    have hmove {e : TypeKey × TypeDeclaration} {c : Declared} (hc : s.Registered e c) :
        Registered { s with declared := s.declared ++ [d] } e c := ⟨hc.1, hc.2, hc.3⟩
    exact List.rel_append (h.declared.imp fun _ _ hc => hmove hc) (.cons (hmove hd) .nil)

end Registers

mutual

/-- Declaring a type registers it and the types nested in it. -/
theorem registers_declareType (context : Context) {containing : Option TypeId}
    {make : String → Nat → TypeKey} {s : DeclareState} {keys : List TypeKey}
    {entries : List (TypeKey × TypeDeclaration)} (h : s.Registers keys entries)
    (hnames : Names s.table context containing make) : (declaration : TypeDeclaration) →
    (∀ e ∈ declaration.keyed make, e.1.Plain) →
    (s.declareType context containing declaration).Registers
      (keys ++ (declaration.keyed make).map (·.1)) (entries ++ declaration.keyedLast make) ∧
    s.Grows (s.declareType context containing declaration)
  | .mk header members, hplain => by
    obtain ⟨hown, hnested⟩ := List.forall_mem_cons.1 hplain
    obtain ⟨henter, hgrows, hkey, hmem⟩ := h.enter hnames header hown
    let key := make header.name.name header.typeParameters.length
    let id := (s.enter context containing header).1
    let inside : Context := { context with enclosing := id :: context.enclosing }
    obtain ⟨hinner, hgrows'⟩ := registers_declareNested inside henter hkey members hnested
    have hregistered : Registered _ (key, .mk header members) ⟨id, .mk header members, inside⟩ :=
      ⟨rfl, hkey.mono hgrows'.table, hgrows'.types hmem⟩
    have hkeys : keys ++ ((TypeDeclaration.mk header members).keyed make).map (·.1)
        = keys ++ [key] ++ (Member.keyedIn key members).map (·.1) := by
      rw [List.append_assoc]
      rfl
    rw [hkeys, TypeDeclaration.keyedLast, ← List.append_assoc]
    exact ⟨hinner.list hregistered, hgrows.trans ⟨hgrows'.table, hgrows'.types⟩⟩

/-- Declaring the types among the members of a type registers them. -/
theorem registers_declareNested (context : Context) {outer : TypeId} {key : TypeKey}
    {s : DeclareState} {keys : List TypeKey} {entries : List (TypeKey × TypeDeclaration)}
    (h : s.Registers keys entries) (hkey : s.table.HasKey key outer) : (members : List Member) →
    (∀ e ∈ Member.keyedIn key members, e.1.Plain) →
    (s.declareNested context outer members).Registers
      (keys ++ (Member.keyedIn key members).map (·.1)) (entries ++ Member.keyedLastIn key members) ∧
    s.Grows (s.declareNested context outer members)
  | [], _ => by
    rw [Member.keyedIn, Member.keyedLastIn, List.map_nil, List.append_nil,
      List.append_nil]
    exact ⟨h, .refl s⟩
  | .nested declaration :: members, hplain => by
    obtain ⟨hfirst, hrest⟩ := List.forall_mem_append.1 hplain
    obtain ⟨hdeclared, hgrows⟩ := registers_declareType context h (.nested hkey) declaration hfirst
    obtain ⟨hall, hgrows'⟩ := registers_declareNested context hdeclared (hkey.mono hgrows.table)
      members hrest
    rw [Member.keyedIn, Member.keyedLastIn, List.map_append, ← List.append_assoc,
      ← List.append_assoc]
    exact ⟨hall, hgrows.trans hgrows'⟩
  | .property _ :: members, hplain => registers_declareNested context h hkey members hplain
  | .constructor _ :: members, hplain => registers_declareNested context h hkey members hplain
  | .other _ :: members, hplain => registers_declareNested context h hkey members hplain

end

mutual

theorem registers_declareMember (context : Context) {s : DeclareState} {keys : List TypeKey}
    {entries : List (TypeKey × TypeDeclaration)} (h : s.Registers keys entries) :
    (member : UnitMember) → (∀ e ∈ member.keyed context.namespaceName, e.1.Plain) →
    (s.declareMember context member).Registers
      (keys ++ (member.keyed context.namespaceName).map (·.1))
      (entries ++ member.keyedLast context.namespaceName)
  | .scope header members, hplain => by
    let name := header.nameWithin context.namespaceName
    exact registers_declareMembers ⟨name, ⟨name, header.usings⟩ :: context.scopes, []⟩ h members hplain
  | .type declaration, hplain => (registers_declareType context h .top declaration hplain).1

theorem registers_declareMembers (context : Context) {s : DeclareState} {keys : List TypeKey}
    {entries : List (TypeKey × TypeDeclaration)} (h : s.Registers keys entries) :
    (members : List UnitMember) →
    (∀ e ∈ UnitMember.keyedIn context.namespaceName members, e.1.Plain) →
    (s.declareMembers context members).Registers
      (keys ++ (UnitMember.keyedIn context.namespaceName members).map (·.1))
      (entries ++ UnitMember.keyedLastIn context.namespaceName members)
  | [], _ => by
    rw [UnitMember.keyedIn, UnitMember.keyedLastIn, List.map_nil, List.append_nil,
      List.append_nil]
    exact h
  | member :: members, hplain => by
    obtain ⟨hfirst, hrest⟩ := List.forall_mem_append.1 hplain
    have hmember := registers_declareMember context h member hfirst
    have hall := registers_declareMembers context hmember members hrest
    rw [UnitMember.keyedIn, UnitMember.keyedLastIn, List.map_append,
      ← List.append_assoc, ← List.append_assoc]
    exact hall

end

end DeclareState

/-- The declared types of a unit with plain names are those with the keys of its declarations. -/
theorem SourceUnit.registers_declared {unit : SourceUnit} (h : ∀ e ∈ unit.keyed, e.1.Plain) :
    unit.declared.Registers (unit.keyed.map (·.1)) (UnitMember.keyedLastIn "" unit.members) := by
  have hstart : DeclareState.Registers { table := .withLibrary } [] [] :=
    ⟨List.forall_mem_nil _, .nil, fun hid _ => absurd hid List.not_mem_nil, .nil⟩
  exact DeclareState.registers_declareMembers ⟨"", [⟨"", unit.usings⟩], []⟩ hstart unit.members h

/-! ## The types of a model -/

theorem nodup_eraseDups [BEq α] [LawfulBEq α] (as : List α) : as.eraseDups.Nodup := by
  induction hn : as.length using Nat.strongRecOn generalizing as with
  | _ n ih =>
    cases as with
    | nil => exact List.nodup_nil
    | cons a as =>
      have hshorter : (as.filter (!· == a)).length < n := by
        have := List.length_filter_le (!· == a) as
        rw [← hn, List.length_cons]
        omega
      rw [List.eraseDups_cons, List.nodup_cons]
      exact ⟨by simp, ih _ hshorter _ rfl⟩

namespace DeclareState.Registers

variable {s : DeclareState} {keys : List TypeKey} {entries : List (TypeKey × TypeDeclaration)}

/-- No type is listed twice. -/
theorem nodup_types (h : s.Registers keys entries) : s.types.Nodup := by
  have hall : ∀ {ks : List TypeKey} {ids : List TypeId}, List.Forall₂ s.table.HasKey ks ids →
      ks.Nodup → ids.Nodup := by
    intro ks ids hks
    induction hks with
    | nil => exact fun _ => List.nodup_nil
    | cons hkey hrest ih =>
      intro hnodup
      obtain ⟨hnot, hnodup⟩ := List.nodup_cons.1 hnodup
      refine List.nodup_cons.2 ⟨fun hmem => ?_, ih hnodup⟩
      obtain ⟨key', hkey', hhas⟩ := exists_of_forall₂ hrest hmem
      exact hnot (hkey.unique hhas ▸ hkey')
  exact hall h.types (nodup_eraseDups keys)

/-- The declarations that share a type are those with its key. -/
theorem filter_declared (h : s.Registers keys entries) {key : TypeKey} {id : TypeId}
    (hid : id ∈ s.types) (hkey : s.table.HasKey key id) :
    (s.declared.filter (·.id = id)).map (·.declaration)
      = (entries.filter (·.1 = key)).map (·.2) := by
  have hsame {entry : TypeKey × TypeDeclaration} {d : Declared} (hd : s.Registered entry d) :
      d.id = id ↔ entry.1 = key := by
    constructor
    · intro heq
      exact (heq ▸ hd.hasKey).unique hkey
    · intro heq
      have hfound := h.found hd.mem_types hd.hasKey
      rw [heq, h.found hid hkey] at hfound
      exact (Option.some.inj hfound).symm
  have hall : ∀ {es : List (TypeKey × TypeDeclaration)} {ds : List Declared},
      List.Forall₂ s.Registered es ds → (ds.filter (·.id = id)).map (·.declaration)
        = (es.filter (·.1 = key)).map (·.2) := by
    intro es ds hes
    induction hes with
    | nil => rfl
    | @cons entry d es ds hd _ ih =>
      by_cases heq : d.id = id
      · rw [List.filter_cons_of_pos (by simpa using heq),
          List.filter_cons_of_pos (by simpa using (hsame hd).mp heq), List.map_cons, List.map_cons,
          hd.declaration, ih]
      · rw [List.filter_cons_of_neg (by simpa using heq),
          List.filter_cons_of_neg (by simpa using fun hk => heq ((hsame hd).mpr hk)), ih]
  exact hall h.declared

end DeclareState.Registers

end SettingsLint
