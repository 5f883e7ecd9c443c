import SettingsLint.Proofs.Types.Declaring

/-! # Sound tables

A table is sound if its types are built from older types of the same table, the facts about them
name types of the table, and every type that is built from others, or stands for a name, is there
once and is found by its shape. Tables are sound from the start, and everything that builds a table
keeps this, as long as it is asked about types of the table.
-/

namespace SettingsLint

/-- The types that a shape names. -/
def Shape.parts : Shape → List TypeId
  | .definition _ _ _ containing _ typeParameters => containing.toList ++ typeParameters
  | .constructed generic arguments => generic :: arguments
  | .array element _ => [element]
  | .typeParameter _ | .error _ => []

/-- Generic types have arguments, and arrays have a rank. -/
def Shape.isProper : Shape → Bool
  | .constructed _ arguments => !arguments.isEmpty
  | .array _ rank => 1 ≤ rank
  | _ => true

/-- The types that the facts of an entry name. -/
def Entry.named (e : Entry) : List TypeId :=
  e.base.toList ++ e.interfaces ++ e.constructors.flatMap (·.parameters.map (·.type))

theorem Entry.mem_named {e : Entry} {id : TypeId} : id ∈ e.named ↔
    e.base = some id ∨ id ∈ e.interfaces ∨ ∃ c ∈ e.constructors, ∃ p ∈ c.parameters, p.type = id := by
  simp only [named, List.mem_append, Option.mem_toList, List.mem_flatMap, List.mem_map, or_assoc]

namespace Entry

variable {e : Entry} {other : TypeId}

theorem mem_named_setBase {base : TypeId} (h : other ∈ ({ e with base := some base } : Entry).named) :
    other = base ∨ other ∈ e.named := by
  rcases mem_named.1 h with h | h | h
  · exact .inl (Option.some.inj h).symm
  · exact .inr (mem_named.2 (.inr (.inl h)))
  · exact .inr (mem_named.2 (.inr (.inr h)))

theorem mem_named_addInterface {interface : TypeId}
    (h : other ∈ (if e.interfaces.contains interface then e
      else { e with interfaces := e.interfaces ++ [interface] }).named) :
    other = interface ∨ other ∈ e.named := by
  split at h
  · exact .inr h
  · rcases mem_named.1 h with h | h | h
    · exact .inr (mem_named.2 (.inl h))
    · rcases List.mem_append.1 h with h | h
      · exact .inr (mem_named.2 (.inr (.inl h)))
      · exact .inl (List.mem_singleton.1 h)
    · exact .inr (mem_named.2 (.inr (.inr h)))

theorem mem_named_addConstructor {parameters : List ParameterSymbol}
    (h : other ∈ ({ e with constructors := e.constructors ++ [⟨parameters⟩] } : Entry).named) :
    (∃ p ∈ parameters, p.type = other) ∨ other ∈ e.named := by
  rcases mem_named.1 h with h | h | ⟨c, hc, p, hp, rfl⟩
  · exact .inr (mem_named.2 (.inl h))
  · exact .inr (mem_named.2 (.inr (.inl h)))
  · rcases List.mem_append.1 hc with hc | hc
    · exact .inr (mem_named.2 (.inr (.inr ⟨c, hc, p, hp, rfl⟩)))
    · rw [List.mem_singleton.1 hc] at hp
      exact .inl ⟨p, hp, rfl⟩

end Entry

namespace TypeTable

/-- The types of the table are built from older ones, their facts are about types of the table,
    and types with equal structure are the same and are found. -/
structure Sound (t : TypeTable) : Prop where
  older : ∀ {id part : TypeId}, part ∈ (t.shape id).parts → part.index < id.index
  proper : ∀ id : TypeId, (t.shape id).isProper = true
  named : ∀ {id other : TypeId}, other ∈ (t.entry id).named → other.index < t.size
  /-- The maps are the inverse of looking at the shape of a type. -/
  find?_eq_some_iff : ∀ {shape : Shape}, shape.isBuilt = true → ∀ id : TypeId,
    t.find? shape = some id ↔ id.index < t.size ∧ t.shape id = shape

variable {t : TypeTable}

theorem entry_push_self (t : TypeTable) (shape : Shape) (depth : Nat) :
    (t.push shape depth).2.entry ⟨t.size⟩ = { shape, depth } := by
  show (t.entries.push _)[t.entries.size]?.getD default = _
  rw [Array.getElem?_push_size]
  rfl

/-- The namespace that a declaration puts its type in. -/
def ownNamespace (t : TypeTable) (namespaceName : String) : Option TypeId → String
  | some outer => t.namespaceOf outer
  | none => namespaceName

/-- A declaration makes the namespace, the type parameters and then the type. -/
theorem declare_eq (t : TypeTable) (namespaceName name : String) (kind : TypeKind)
    (parameters : List String) (containing : Option TypeId) :
    t.declare namespaceName name kind parameters containing =
      let ns := t.ownNamespace namespaceName containing
      let (ids, t') := (t.addNamespace ns).pushTypeParameters parameters
      t'.push (.definition name ns (t.uniqueName namespaceName name parameters.length containing)
        containing kind ids) := by
  cases containing <;> rfl

theorem index_lt_of_parts {id part : TypeId} (h : part ∈ (t.shape id).parts) : id.index < t.size := by
  rcases Nat.lt_or_ge id.index t.size with inside | outside
  · exact inside
  · rw [shape_of_le outside] at h
    cases h

namespace Sound

theorem empty : TypeTable.empty.Sound where
  older h := absurd (index_lt_of_parts h) (Nat.not_lt_zero _)
  proper id := by
    rfl
  named h := by
    cases h
  find?_eq_some_iff {shape} _ id := by
    refine iff_of_false (fun hfind => ?_) fun h => absurd h.1 (Nat.not_lt_zero _)
    cases shape <;> cases hfind

theorem part_lt (h : t.Sound) {id part : TypeId} (hpart : part ∈ (t.shape id).parts) :
    part.index < t.size :=
  Nat.lt_trans (h.older hpart) (index_lt_of_parts hpart)

/-! ## Finding types by their shape -/

theorem recorded (h : t.Sound) : t.Recorded := by
  intro shape id hfind
  cases shape with
  | definition | typeParameter => cases hfind
  | constructed | array | error => exact (h.find?_eq_some_iff rfl id).1 hfind

/-- Types with equal structure are the same. -/
theorem unique (h : t.Sound) {id id' : TypeId} (hid : id.index < t.size) (hid' : id'.index < t.size)
    (hbuilt : (t.shape id).isBuilt = true) (hsame : t.shape id' = t.shape id) : id' = id :=
  Option.some.inj (((h.find?_eq_some_iff hbuilt id').2 ⟨hid', hsame⟩).symm.trans
    ((h.find?_eq_some_iff hbuilt id).2 ⟨hid, rfl⟩))

/-! ## Making types -/

theorem push (h : t.Sound) {shape : Shape} (hparts : ∀ p ∈ shape.parts, p.index < t.size)
    (hproper : shape.isProper = true) (hfresh : shape.isBuilt = true → t.find? shape = none)
    (depth : Nat) : (t.push shape depth).2.Sound := by
  have hself : (t.push shape depth).2.shape ⟨t.size⟩ = shape := shape_push_self t shape depth
  have hold {id : TypeId} (hid : id.index < t.size) :
      (t.push shape depth).2.shape id = t.shape id := congrArg Entry.shape (entry_push_of_lt hid)
  have hcases (id : TypeId) : id.index < t.size ∨ id = ⟨t.size⟩ ∨ t.size + 1 ≤ id.index := by
    rcases Nat.lt_trichotomy id.index t.size with hlt | heq | hgt
    · exact .inl hlt
    · exact .inr (.inl (congrArg TypeId.mk heq))
    · exact .inr (.inr hgt)
  have hout {id : TypeId} (hid : t.size + 1 ≤ id.index) :
      (t.push shape depth).2.size ≤ id.index := by rwa [size_push]
  constructor
  case older =>
    intro id part hpart
    rcases hcases id with hlt | rfl | hgt
    · exact h.older (hold hlt ▸ hpart)
    · exact hparts part (hself ▸ hpart)
    · rw [shape_of_le (hout hgt)] at hpart
      cases hpart
  case proper =>
    intro id
    rcases hcases id with hlt | rfl | hgt
    · rw [hold hlt]
      exact h.proper id
    · rwa [hself]
    · rw [shape_of_le (hout hgt)]
      rfl
  case named =>
    intro id other hother
    rw [size_push]
    rcases hcases id with hlt | rfl | hgt
    · rw [entry_push_of_lt hlt] at hother
      exact Nat.lt_succ_of_lt (h.named hother)
    · rw [entry_push_self] at hother
      cases hother
    · rw [entry_of_le (hout hgt)] at hother
      cases hother
  case find?_eq_some_iff =>
    intro shape' hbuilt id
    rw [find?_push, size_push]
    split
    · next hself =>
      -- only the new type has the new shape
      obtain ⟨rfl, -⟩ := hself
      rw [Option.some.injEq]
      refine ⟨?_, fun ⟨hid, hshape⟩ => ?_⟩
      · rintro rfl
        exact ⟨Nat.lt_succ_self _, hself⟩
      · rcases hcases id with hlt | rfl | hgt
        · have hfound := (h.find?_eq_some_iff hbuilt id).2 ⟨hlt, (hold hlt).symm.trans hshape⟩
          cases (hfresh hbuilt).symm.trans hfound
        · rfl
        · omega
    · next hother =>
      rw [h.find?_eq_some_iff hbuilt]
      rcases hcases id with hlt | rfl | hgt
      · rw [hold hlt, and_iff_right hlt, and_iff_right (Nat.lt_succ_of_lt hlt)]
      · refine iff_of_false (fun hid => absurd hid.1 (Nat.lt_irrefl _)) fun hid => hother ?_
        have hsame : shape' = shape := hid.2.symm.trans hself
        exact ⟨hsame, hsame ▸ hbuilt⟩
      · exact iff_of_false (fun hid => by omega) fun hid => by omega

theorem intern (h : t.Sound) {shape : Shape} (hparts : ∀ p ∈ shape.parts, p.index < t.size)
    (hproper : shape.isProper = true) (depth : Nat) : (t.intern shape depth).2.Sound := by
  rw [TypeTable.intern]
  split
  · exact h
  · next hfind => exact h.push hparts hproper (fun _ => hfind) depth

/-- What is made is in the table. -/
theorem intern_lt (h : t.Sound) (shape : Shape) (depth : Nat) :
    (t.intern shape depth).1.index < (t.intern shape depth).2.size := by
  rw [TypeTable.intern]
  split
  · next hfind => exact (h.recorded hfind).1
  · rw [size_push]
    exact Nat.lt_succ_self _

/-! ## Changing facts -/

/-- Changing facts about types keeps a table sound if the facts are about types of the table. -/
theorem change (h : t.Sound) {f : Nat → Entry → Entry} (hshape : ∀ i e, (f i e).shape = e.shape)
    (hnamed : ∀ {id other : TypeId}, id.index < t.size → other ∈ (f id.index (t.entry id)).named →
      other.index < t.size) : ({ t with entries := t.entries.mapIdx f } : TypeTable).Sound := by
  have hsize : ({ t with entries := t.entries.mapIdx f } : TypeTable).size = t.size :=
    Array.size_mapIdx
  have hsame (id : TypeId) :
      ({ t with entries := t.entries.mapIdx f } : TypeTable).shape id = t.shape id := by
    rcases Nat.lt_or_ge id.index t.size with hlt | hge
    · rw [TypeTable.shape, entry_mapIdx t hlt, hshape]
      rfl
    · rw [shape_of_le (hsize ▸ hge), shape_of_le hge]
  constructor
  case older =>
    intro id part hpart
    exact h.older (hsame id ▸ hpart)
  case proper =>
    intro id
    rw [hsame]
    exact h.proper id
  case named =>
    intro id other hother
    rw [hsize]
    rcases Nat.lt_or_ge id.index t.size with hlt | hge
    · rw [entry_mapIdx t hlt] at hother
      exact hnamed hlt hother
    · rw [entry_of_le (hsize ▸ hge)] at hother
      cases hother
  case find?_eq_some_iff =>
    intro shape hbuilt id
    rw [hsize, hsame]
    exact h.find?_eq_some_iff hbuilt id

theorem update (h : t.Sound) (id : TypeId) {f : Entry → Entry} (hshape : ∀ e, (f e).shape = e.shape)
    (hnamed : ∀ other ∈ (f (t.entry id)).named, other.index < t.size) : (t.update id f).Sound := by
  rw [update_eq]
  refine h.change (fun i e => ?_) fun {at_ other} _ hother => ?_
  · split
    · exact hshape e
    · rfl
  · split at hother
    · next heq =>
      have hself : at_ = id := congrArg TypeId.mk heq.symm
      exact hnamed other (hself ▸ hother)
    · exact h.named hother

theorem size_update (t : TypeTable) (id : TypeId) (f : Entry → Entry) :
    (t.update id f).size = t.size := Array.size_modify

/-! ## Declaring -/

theorem addNamespace (h : t.Sound) (name : String) : (t.addNamespace name).Sound where
  older := h.older
  proper := h.proper
  named := h.named
  find?_eq_some_iff := h.find?_eq_some_iff

/-- Type parameters are made one after the other, and all of them are in the table then. -/
theorem pushTypeParameters (names : List String) (h : t.Sound) :
    (t.pushTypeParameters names).2.Sound ∧
      ∀ p ∈ (t.pushTypeParameters names).1, p.index < (t.pushTypeParameters names).2.size := by
  induction names generalizing t with
  | nil => exact ⟨h, fun _ hp => nomatch hp⟩
  | cons name names ih =>
    have hnext : (t.push (.typeParameter name)).2.Sound :=
      h.push (fun _ hp => absurd hp List.not_mem_nil) rfl (fun hbuilt => by cases hbuilt) 0
    obtain ⟨hsound, hbelow⟩ := ih hnext
    refine ⟨hsound, fun p hp => ?_⟩
    rcases List.mem_cons.1 hp with rfl | hp
    · have hfirst : t.size < (t.push (.typeParameter name)).2.size := by
        rw [size_push]
        exact Nat.lt_succ_self _
      exact Nat.lt_of_lt_of_le hfirst (keeps_pushTypeParameters names _).size_le
    · exact hbelow p hp

theorem declare (h : t.Sound) (namespaceName name : String) (kind : TypeKind)
    (parameters : List String) {containing : Option TypeId}
    (hcontaining : ∀ outer ∈ containing, outer.index < t.size) :
    (t.declare namespaceName name kind parameters containing).2.Sound := by
  rw [declare_eq]
  obtain ⟨hsound, hbelow⟩ := (h.addNamespace (t.ownNamespace namespaceName containing)).pushTypeParameters
    parameters
  have hkeeps := keeps_pushTypeParameters parameters
    (t.addNamespace (t.ownNamespace namespaceName containing))
  refine hsound.push (fun p hp => ?_) rfl (fun hbuilt => by cases hbuilt) 0
  rcases List.mem_append.1 hp with hp | hp
  · exact Nat.lt_of_lt_of_le (hcontaining p (Option.mem_toList.1 hp)) hkeeps.size_le
  · exact hbelow p hp

/-! ## Building types -/

theorem construct (h : t.Sound) {definition : TypeId} {arguments : List TypeId}
    (hdefinition : definition.index < t.size) (harguments : ∀ a ∈ arguments, a.index < t.size)
    (depth : Nat) : (t.construct definition arguments depth).2.Sound := by
  rw [TypeTable.construct]
  split
  · exact h
  · next hne =>
    refine h.intern (fun p hp => ?_) (by simpa [Shape.isProper] using hne) depth
    rcases List.mem_cons.1 hp with rfl | hp
    · exact hdefinition
    · exact harguments p hp

theorem array (h : t.Sound) {element : TypeId} (helement : element.index < t.size)
    (rank depth : Nat) : (t.array element rank depth).2.Sound := by
  have hproper : (Shape.array element (max rank 1)).isProper = true :=
    decide_eq_true (Nat.le_max_right _ _)
  refine h.intern (fun p hp => ?_) hproper depth
  rw [List.mem_singleton.1 hp]
  exact helement

end Sound

theorem index_lt_of_lookup {t : TypeTable} {unique : String} {id : TypeId}
    (h : t.lookup unique = some id) : id.index < t.size := by
  have hdefines := defines_of_lookup h
  rcases Nat.lt_or_ge id.index t.size with inside | outside
  · exact inside
  · rw [shape_of_le outside] at hdefines
    cases hdefines

end TypeTable

end SettingsLint
