import SettingsLint.Main

/-! # Declarations and where they stand

A declaration stands at the end of a path through the unit, given by the numbers of the members
on the way. `declarations` lists the declaration of every such path, in the order of the paths:
a declaration comes before those nested in it, and these in the order of the source.
-/

namespace SettingsLint

/-! ## Following a path -/

/-- The declaration at the end of a path through the members. -/
def TypeDeclaration.at? : List Nat → TypeDeclaration → Option TypeDeclaration
  | [], declaration => some declaration
  | i :: path, declaration =>
    match declaration.members[i]? with
    | some (.nested inner) => inner.at? path
    | _ => none

/-- The declaration at the end of a path that starts in the member. -/
def Member.at? (path : List Nat) : Member → Option TypeDeclaration
  | .nested declaration => declaration.at? path
  | _ => none

/-- The declaration at the end of a path that starts in the member of a unit. -/
def UnitMember.at? : List Nat → UnitMember → Option TypeDeclaration
  | path, .type declaration => declaration.at? path
  | [], .scope _ _ => none
  | i :: path, .scope _ members =>
    match members[i]? with
    | some member => member.at? path
    | none => none

/-- The declaration at the end of a path through the unit. -/
def SourceUnit.at? (unit : SourceUnit) : List Nat → Option TypeDeclaration
  | [] => none
  | i :: path => unit.members[i]?.bind (·.at? path)

theorem TypeDeclaration.at?_cons (i : Nat) (path : List Nat) (declaration : TypeDeclaration) :
    declaration.at? (i :: path) = declaration.members[i]?.bind (·.at? path) := by
  rw [at?]
  cases declaration.members[i]? with
  | none => rfl
  | some member => cases member <;> rfl

theorem UnitMember.at?_scope (i : Nat) (path : List Nat) (header : NamespaceHeader)
    (members : List UnitMember) :
    (UnitMember.scope header members).at? (i :: path) = members[i]?.bind (·.at? path) := by
  rw [at?]
  cases members[i]? <;> rfl

/-! ## Paths through a list -/

/-- What the function lists for the members, with the number of the member before each path. -/
def pathsThrough (f : α → List (List Nat × β)) (i : Nat) : List α → List (List Nat × β)
  | [] => []
  | a :: as => (f a).map (fun e => (i :: e.1, e.2)) ++ pathsThrough f (i + 1) as

theorem mem_pathsThrough {f : α → List (List Nat × β)} {i : Nat} {as : List α} {path : List Nat}
    {b : β} : (path, b) ∈ pathsThrough f i as ↔
      ∃ j rest a, path = (i + j) :: rest ∧ as[j]? = some a ∧ (rest, b) ∈ f a := by
  induction as generalizing i with
  | nil => simp [pathsThrough]
  | cons a as ih =>
    rw [pathsThrough, List.mem_append, ih]
    constructor
    · rintro (h | ⟨j, rest, c, rfl, hc, hb⟩)
      · obtain ⟨⟨rest, b'⟩, hb, heq⟩ := List.mem_map.mp h
        cases heq
        exact ⟨0, rest, a, rfl, rfl, hb⟩
      · exact ⟨j + 1, rest, c, by rw [Nat.add_right_comm, Nat.add_assoc], hc, hb⟩
    · rintro ⟨j, rest, c, rfl, hc, hb⟩
      cases j with
      | zero =>
        obtain rfl : a = c := Option.some.inj hc
        exact .inl (List.mem_map.mpr ⟨(rest, b), hb, rfl⟩)
      | succ j => exact .inr ⟨j, rest, c, by rw [Nat.add_right_comm, Nat.add_assoc], hc, hb⟩

/-- The paths through a list are in order if those through each member are. -/
theorem pairwise_pathsThrough {f : α → List (List Nat × β)} {as : List α}
    (h : ∀ a ∈ as, (f a).Pairwise fun e e' => e.1 < e'.1) (i : Nat) :
    (pathsThrough f i as).Pairwise fun e e' => e.1 < e'.1 := by
  induction as generalizing i with
  | nil => exact .nil
  | cons a as ih =>
    obtain ⟨hfirst, hrest⟩ := List.forall_mem_cons.mp h
    rw [pathsThrough, List.pairwise_append, List.pairwise_map]
    refine ⟨hfirst.imp fun hlt => List.cons_lt_cons_self.mpr hlt, ih hrest _, ?_⟩
    -- A path through an earlier member has the smaller number in front.
    rintro e he ⟨path, b⟩ hpath
    obtain ⟨e', -, rfl⟩ := List.mem_map.mp he
    obtain ⟨j, rest, c, rfl, -⟩ := mem_pathsThrough.1 hpath
    exact List.Lex.rel (by omega)

/-! ## Declarations with their paths -/

mutual

/-- The declaration and those nested in it with their paths. -/
def TypeDeclaration.pathed : TypeDeclaration → List (List Nat × TypeDeclaration)
  | .mk header members => ([], .mk header members) :: Member.pathedIn 0 members

def Member.pathed : Member → List (List Nat × TypeDeclaration)
  | .nested declaration => declaration.pathed
  | .property _ => []
  | .constructor _ => []
  | .other _ => []

/-- The declarations in members, which are counted from `i` on, with their paths. -/
def Member.pathedIn (i : Nat) : List Member → List (List Nat × TypeDeclaration)
  | [] => []
  | member :: members =>
    member.pathed.map (fun e => (i :: e.1, e.2)) ++ Member.pathedIn (i + 1) members

end

mutual

def UnitMember.pathed : UnitMember → List (List Nat × TypeDeclaration)
  | .scope _ members => UnitMember.pathedIn 0 members
  | .type declaration => declaration.pathed

/-- The declarations in members of a unit, which are counted from `i` on, with their paths. -/
def UnitMember.pathedIn (i : Nat) : List UnitMember → List (List Nat × TypeDeclaration)
  | [] => []
  | member :: members =>
    member.pathed.map (fun e => (i :: e.1, e.2)) ++ UnitMember.pathedIn (i + 1) members

end

theorem Member.pathedIn_eq (i : Nat) (members : List Member) :
    Member.pathedIn i members = pathsThrough Member.pathed i members := by
  induction members generalizing i with
  | nil => rfl
  | cons member members ih => rw [pathedIn, pathsThrough, ih]

theorem UnitMember.pathedIn_eq (i : Nat) (members : List UnitMember) :
    UnitMember.pathedIn i members = pathsThrough UnitMember.pathed i members := by
  induction members generalizing i with
  | nil => rfl
  | cons member members ih => rw [pathedIn, pathsThrough, ih]

theorem map_snd_step (i : Nat) (es : List (List Nat × TypeDeclaration)) :
    (es.map fun e => (i :: e.1, e.2)).map (·.2) = es.map (·.2) := by
  rw [List.map_map]
  rfl

mutual

theorem TypeDeclaration.map_snd_pathed : (declaration : TypeDeclaration) →
    declaration.pathed.map (·.2) = declaration.withNested
  | .mk _ members => congrArg (_ :: ·) (Member.map_snd_pathedIn 0 members)

theorem Member.map_snd_pathedIn (i : Nat) : (members : List Member) →
    (Member.pathedIn i members).map (·.2) = Member.nestedIn members
  | [] => rfl
  | .nested declaration :: members => by
    rw [Member.pathedIn, List.map_append, map_snd_step, Member.map_snd_pathedIn (i + 1) members]
    exact congrArg (· ++ _) declaration.map_snd_pathed
  | .property _ :: members => Member.map_snd_pathedIn (i + 1) members
  | .constructor _ :: members => Member.map_snd_pathedIn (i + 1) members
  | .other _ :: members => Member.map_snd_pathedIn (i + 1) members

end

mutual

theorem UnitMember.map_snd_pathed : (member : UnitMember) →
    member.pathed.map (·.2) = member.declarations
  | .scope _ members => UnitMember.map_snd_pathedIn 0 members
  | .type declaration => declaration.map_snd_pathed

theorem UnitMember.map_snd_pathedIn (i : Nat) : (members : List UnitMember) →
    (UnitMember.pathedIn i members).map (·.2) = UnitMember.declarationsIn members
  | [] => rfl
  | member :: members => by
    rw [pathedIn, declarationsIn, List.map_append, map_snd_step, member.map_snd_pathed,
      map_snd_pathedIn (i + 1) members]

end

mutual

theorem TypeDeclaration.mem_pathed : (declaration : TypeDeclaration) → ∀ path d,
    (path, d) ∈ declaration.pathed ↔ declaration.at? path = some d
  | .mk header members, path, d => by
    rw [TypeDeclaration.pathed, List.mem_cons, Member.pathedIn_eq, mem_pathsThrough]
    cases path with
    | nil => simp [TypeDeclaration.at?, eq_comm]
    | cons i path =>
      rw [TypeDeclaration.at?_cons, Option.bind_eq_some_iff]
      constructor
      · rintro (h | ⟨j, rest, member, heq, hmember, hd⟩)
        · cases h
        · obtain ⟨rfl, rfl⟩ : i = 0 + j ∧ path = rest := by simpa using heq
          rw [Nat.zero_add]
          exact ⟨member, hmember, (Member.mem_pathed_of_mem members member
            (List.mem_of_getElem? hmember) path d).mp hd⟩
      · rintro ⟨member, hmember, hd⟩
        exact .inr ⟨i, path, member, by rw [Nat.zero_add], hmember, (Member.mem_pathed_of_mem members
          member (List.mem_of_getElem? hmember) path d).mpr hd⟩

theorem Member.mem_pathed : (member : Member) → ∀ path d,
    (path, d) ∈ member.pathed ↔ member.at? path = some d
  | .nested declaration, path, d => declaration.mem_pathed path d
  | .property _, _, _ => by simp [Member.pathed, Member.at?]
  | .constructor _, _, _ => by simp [Member.pathed, Member.at?]
  | .other _, _, _ => by simp [Member.pathed, Member.at?]

theorem Member.mem_pathed_of_mem : (members : List Member) → ∀ member ∈ members, ∀ path d,
    (path, d) ∈ member.pathed ↔ member.at? path = some d
  | [], _, h, _, _ => absurd h List.not_mem_nil
  | first :: members, member, h, path, d => by
    rcases List.mem_cons.mp h with heq | h
    · exact heq ▸ first.mem_pathed path d
    · exact Member.mem_pathed_of_mem members member h path d

end

mutual

theorem TypeDeclaration.pairwise_pathed : (declaration : TypeDeclaration) →
    declaration.pathed.Pairwise fun e e' => e.1 < e'.1
  | .mk header members => by
    have hmembers := pairwise_pathsThrough (Member.pairwise_pathed_of_mem members) 0
    rw [TypeDeclaration.pathed, List.pairwise_cons, Member.pathedIn_eq]
    refine ⟨?_, hmembers⟩
    rintro ⟨path, d⟩ hpath
    obtain ⟨j, rest, member, rfl, -⟩ := mem_pathsThrough.1 hpath
    exact List.Lex.nil

theorem Member.pairwise_pathed : (member : Member) → member.pathed.Pairwise fun e e' => e.1 < e'.1
  | .nested declaration => declaration.pairwise_pathed
  | .property _ => .nil
  | .constructor _ => .nil
  | .other _ => .nil

theorem Member.pairwise_pathed_of_mem : (members : List Member) → ∀ member ∈ members,
    member.pathed.Pairwise fun e e' => e.1 < e'.1
  | [], _, h => absurd h List.not_mem_nil
  | first :: members, member, h => by
    rcases List.mem_cons.mp h with heq | h
    · exact heq ▸ first.pairwise_pathed
    · exact Member.pairwise_pathed_of_mem members member h

end

mutual

theorem UnitMember.mem_pathed : (member : UnitMember) → ∀ path d,
    (path, d) ∈ member.pathed ↔ member.at? path = some d
  | .type declaration, path, d => by
    rw [UnitMember.at?]
    exact declaration.mem_pathed path d
  | .scope header members, path, d => by
    rw [pathed, pathedIn_eq, mem_pathsThrough]
    cases path with
    | nil => simp [at?]
    | cons i path =>
      rw [at?_scope, Option.bind_eq_some_iff]
      constructor
      · rintro ⟨j, rest, member, heq, hmember, hd⟩
        obtain ⟨rfl, rfl⟩ : i = 0 + j ∧ path = rest := by simpa using heq
        rw [Nat.zero_add]
        have hmem := List.mem_of_getElem? hmember
        exact ⟨member, hmember, (mem_pathed_of_mem members member hmem path d).mp hd⟩
      · rintro ⟨member, hmember, hd⟩
        have hmem := List.mem_of_getElem? hmember
        exact ⟨i, path, member, by rw [Nat.zero_add], hmember,
          (mem_pathed_of_mem members member hmem path d).mpr hd⟩

theorem UnitMember.mem_pathed_of_mem : (members : List UnitMember) → ∀ member ∈ members, ∀ path d,
    (path, d) ∈ member.pathed ↔ member.at? path = some d
  | [], _, h, _, _ => absurd h List.not_mem_nil
  | first :: members, member, h, path, d => by
    rcases List.mem_cons.mp h with heq | h
    · exact heq ▸ first.mem_pathed path d
    · exact mem_pathed_of_mem members member h path d

end

mutual

theorem UnitMember.pairwise_pathed : (member : UnitMember) →
    member.pathed.Pairwise fun e e' => e.1 < e'.1
  | .type declaration => declaration.pairwise_pathed
  | .scope _ members => by
    rw [pathed, pathedIn_eq]
    exact pairwise_pathsThrough (pairwise_pathed_of_mem members) 0

theorem UnitMember.pairwise_pathed_of_mem : (members : List UnitMember) → ∀ member ∈ members,
    member.pathed.Pairwise fun e e' => e.1 < e'.1
  | [], _, h => absurd h List.not_mem_nil
  | first :: members, member, h => by
    rcases List.mem_cons.mp h with heq | h
    · exact heq ▸ first.pairwise_pathed
    · exact pairwise_pathed_of_mem members member h

end

/-- The declarations of a unit are those at the ends of its paths, each once and in the order of
    the paths. -/
theorem SourceUnit.declarations_eq_at? (unit : SourceUnit) : ∃ paths : List (List Nat),
    paths.Pairwise (· < ·) ∧ (∀ path, path ∈ paths ↔ (unit.at? path).isSome = true) ∧
      paths.map unit.at? = unit.declarations.map some := by
  let pathed := UnitMember.pathedIn 0 unit.members
  have hmem (path : List Nat) (d : TypeDeclaration) :
      (path, d) ∈ pathed ↔ unit.at? path = some d := by
    -- A unit is read like the block of a namespace.
    have hblock : unit.at? path = (UnitMember.scope ⟨[], false, [], default⟩ unit.members).at? path := by
      cases path with
      | nil => rfl
      | cons i path => rw [UnitMember.at?_scope, SourceUnit.at?]
    rw [hblock]
    exact UnitMember.mem_pathed (.scope ⟨[], false, [], default⟩ unit.members) path d
  refine ⟨pathed.map (·.1), ?_, fun path => ?_, ?_⟩
  · rw [List.pairwise_map]
    exact UnitMember.pairwise_pathed (.scope ⟨[], false, [], default⟩ unit.members)
  · rw [List.mem_map, Option.isSome_iff_exists]
    constructor
    · rintro ⟨⟨p, d⟩, he, rfl⟩
      exact ⟨d, (hmem p d).mp he⟩
    · rintro ⟨d, hd⟩
      exact ⟨(path, d), (hmem path d).mpr hd, rfl⟩
  · have hall : pathed.map (unit.at? ·.1) = pathed.map (some ·.2) :=
      List.map_congr_left fun e he => (hmem e.1 e.2).mp he
    have hdeclarations : pathed.map (·.2) = unit.declarations :=
      UnitMember.map_snd_pathedIn 0 unit.members
    rw [List.map_map, ← hdeclarations, List.map_map]
    exact hall

end SettingsLint
