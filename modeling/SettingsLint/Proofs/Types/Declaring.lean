import SettingsLint.Proofs.Types.Growth

/-! # Declaring types

A declaration puts its type parameters and then its type at the end of the table. What was
there before keeps its shape, and of the names only the one of the new type is looked up in
another way than before.
-/

namespace SettingsLint.TypeTable

variable {t : TypeTable} {id : TypeId}

/-- The table has all the types of `t` with their shapes, and maybe more. -/
structure Keeps (t t' : TypeTable) : Prop where
  size_le : t.size ≤ t'.size
  shape_eq : ∀ {id : TypeId}, id.index < t.size → t'.shape id = t.shape id

namespace Keeps

theorem refl (t : TypeTable) : t.Keeps t := ⟨Nat.le_refl _, fun _ => rfl⟩

theorem trans {t t' t'' : TypeTable} (h : t.Keeps t') (g : t'.Keeps t'') : t.Keeps t'' where
  size_le := Nat.le_trans h.size_le g.size_le
  shape_eq hid := (g.shape_eq (Nat.lt_of_lt_of_le hid h.size_le)).trans (h.shape_eq hid)

theorem push (t : TypeTable) (shape : Shape) (depth : Nat) : t.Keeps (t.push shape depth).2 where
  size_le := by
    rw [size_push]
    exact Nat.le_succ _
  shape_eq hid := congrArg Entry.shape (entry_push_of_lt hid)

theorem of_extends {t t' : TypeTable} (h : t.Extends t') : t.Keeps t' := ⟨h.size_le, h.shape_eq⟩

end Keeps

theorem index_lt_of_shape {name namespaceName unique : String}
    {containing : Option TypeId} {kind : TypeKind} {parameters : List TypeId}
    (h : t.shape id = .definition name namespaceName unique containing kind parameters) :
    id.index < t.size := by
  apply Nat.lt_of_not_le
  intro hge
  rw [shape_of_le hge] at h
  cases h

/-! ## Looking up -/

theorem lookupBelow_eq_some {unique : String} {n : Nat}
    (h : t.lookupBelow unique n = some id) : (t.shape id).defines unique = true := by
  induction n with
  | zero => cases h
  | succ n ih =>
    rw [lookupBelow] at h
    split at h
    next hdefines => rwa [← Option.some.inj h]
    next => exact ih h

/-- What is found under a name defines the name. -/
theorem defines_of_lookup {unique : String}
    (h : t.lookup unique = some id) : (t.shape id).defines unique = true :=
  lookupBelow_eq_some (t.lookup_eq_lookupBelow unique ▸ h)

theorem metadataName?_of_lookup {unique : String}
    (h : t.lookup unique = some id) : t.metadataName? id = some unique := by
  have hdefines := defines_of_lookup h
  rw [metadataName?]
  cases hshape : t.shape id with
  | definition name namespaceName metadataName containing kind parameters =>
    rw [hshape] at hdefines
    exact congrArg some (of_decide_eq_true hdefines)
  | _ =>
    rw [hshape] at hdefines
    cases hdefines

theorem lookup_push (t : TypeTable) (shape : Shape) (depth : Nat) (unique : String) :
    (t.push shape depth).2.lookup unique
      = if shape.defines unique then some ⟨t.size⟩ else t.lookup unique := by
  have hbelow (n : Nat) (hn : n ≤ t.size) :
      (t.push shape depth).2.lookupBelow unique n = t.lookupBelow unique n := by
    induction n with
    | zero => rfl
    | succ n ih =>
      have hshape : (t.push shape depth).2.shape ⟨n⟩ = t.shape ⟨n⟩ := (Keeps.push t shape depth).shape_eq hn
      rw [lookupBelow, lookupBelow, hshape, ih (Nat.le_of_succ_le hn)]
  rw [lookup_eq_lookupBelow, lookup_eq_lookupBelow, size_push, lookupBelow, shape_push_self,
    hbelow _ (Nat.le_refl _)]

theorem lookup_addNamespace (t : TypeTable) (name unique : String) :
    (t.addNamespace name).lookup unique = t.lookup unique := rfl

theorem keeps_pushTypeParameters (names : List String) (t : TypeTable) :
    t.Keeps (t.pushTypeParameters names).2 := by
  induction names generalizing t with
  | nil => exact .refl t
  | cons name names ih => exact (Keeps.push t _ 0).trans (ih _)

theorem length_pushTypeParameters (names : List String) (t : TypeTable) :
    (t.pushTypeParameters names).1.length = names.length := by
  induction names generalizing t with
  | nil => rfl
  | cons name names ih => exact congrArg Nat.succ (ih _)

theorem lookup_pushTypeParameters (names : List String) (t : TypeTable) (unique : String) :
    (t.pushTypeParameters names).2.lookup unique = t.lookup unique := by
  induction names generalizing t with
  | nil => rfl
  | cons name names ih =>
    have hpush : (t.push (.typeParameter name)).2.lookup unique = t.lookup unique :=
      (lookup_push t _ 0 unique).trans (if_neg (by simp [Shape.defines]))
    exact (ih _).trans hpush

/-- A new type is the only one that can be a new definition. -/
theorem isDefinition_of_push {shape : Shape} {depth : Nat}
    (h : (t.push shape depth).2.isDefinition id = true) :
    t.isDefinition id = true ∨ id = ⟨t.size⟩ := by
  rcases Nat.lt_trichotomy id.index t.size with hlt | heq | hgt
  · left
    rwa [isDefinition, metadataName?, (Keeps.push t shape depth).shape_eq hlt] at h
  · exact .inr (congrArg TypeId.mk heq)
  · rw [isDefinition, metadataName?, shape_of_le (by rw [size_push]; exact hgt)] at h
    cases h

theorem isDefinition_of_pushTypeParameters (names : List String)
    (h : (t.pushTypeParameters names).2.isDefinition id = true) : t.isDefinition id = true := by
  induction names generalizing t with
  | nil => exact h
  | cons name names ih =>
    have hpushed : (t.push (.typeParameter name) 0).2.isDefinition id = true := ih h
    rcases isDefinition_of_push hpushed with hid | rfl
    · exact hid
    · rw [isDefinition, metadataName?, shape_push_self] at hpushed
      cases hpushed

/-! ## Declaring -/

/-- The unique name that a declaration gives its type. -/
def uniqueName (t : TypeTable) (namespaceName name : String) (arity : Nat) :
    Option TypeId → String
  | some outer => nestedMetadataName ((t.metadataName? outer).getD "") name arity
  | none => metadataName namespaceName name arity

/-- What a declaration makes of a table: a new type under its unique name. -/
structure Declares (t : TypeTable) (namespaceName name : String) (parameters : List String)
    (containing : Option TypeId) (id : TypeId) (t' : TypeTable) : Prop where
  keeps : t.Keeps t'
  fresh : t.size ≤ id.index
  shape : ∃ ns kind ids, ids.length = parameters.length ∧ (containing = none → ns = namespaceName) ∧
    t'.shape id = .definition name ns (t.uniqueName namespaceName name parameters.length containing)
      containing kind ids
  lookup : ∀ unique, t'.lookup unique
    = if t.uniqueName namespaceName name parameters.length containing = unique then some id
      else t.lookup unique
  only : ∀ {other : TypeId}, t'.isDefinition other = true → t.isDefinition other = true ∨ other = id

theorem declares_declare (t : TypeTable) (namespaceName name : String) (kind : TypeKind)
    (parameters : List String) (containing : Option TypeId) :
    Declares t namespaceName name parameters containing
      (t.declare namespaceName name kind parameters containing).1
      (t.declare namespaceName name kind parameters containing).2 := by
  -- The table before the type itself is added.
  have hmade (ns : String) : ∃ u ids, ids.length = parameters.length ∧ t.Keeps u ∧
      (∀ unique, u.lookup unique = t.lookup unique) ∧
      (∀ {other : TypeId}, u.isDefinition other = true → t.isDefinition other = true) ∧
      ∀ unique, ((t.addNamespace ns).pushTypeParameters parameters).2.push (.definition name ns unique
          containing kind ((t.addNamespace ns).pushTypeParameters parameters).1)
        = u.push (.definition name ns unique containing kind ids) := by
    refine ⟨_, _, length_pushTypeParameters parameters (t.addNamespace ns), ?_, ?_,
      fun hother => isDefinition_of_pushTypeParameters (t := t.addNamespace ns) parameters hother,
      fun _ => rfl⟩
    · have hkeeps : t.Keeps (t.addNamespace ns) := ⟨Nat.le_refl _, fun _ => rfl⟩
      exact hkeeps.trans (keeps_pushTypeParameters parameters _)
    · intro unique
      exact (lookup_pushTypeParameters parameters _ unique).trans (lookup_addNamespace t ns unique)
  have hpush {u : TypeTable} {ids : List TypeId} {ns : String} (hids : ids.length = parameters.length)
      (hkeeps : t.Keeps u) (hlookup : ∀ unique, u.lookup unique = t.lookup unique)
      (honly : ∀ {other : TypeId}, u.isDefinition other = true → t.isDefinition other = true)
      (hns : containing = none → ns = namespaceName) :
      let new := u.push (.definition name ns
        (t.uniqueName namespaceName name parameters.length containing) containing kind ids)
      Declares t namespaceName name parameters containing new.1 new.2 := by
    refine ⟨hkeeps.trans (.push u _ 0), hkeeps.size_le, ⟨ns, kind, ids, hids, hns, ?_⟩, fun unique => ?_,
      fun hother => (isDefinition_of_push hother).imp_left honly⟩
    · exact shape_push_self u _ 0
    · have hdefines := lookup_push u (.definition name ns
        (t.uniqueName namespaceName name parameters.length containing) containing kind ids) 0 unique
      rw [hlookup] at hdefines
      simp only [Shape.defines, decide_eq_true_eq] at hdefines
      exact hdefines
  cases containing with
  | none =>
    obtain ⟨u, ids, hids, hkeeps, hlookup, honly, heq⟩ := hmade namespaceName
    have hdeclare : t.declare namespaceName name kind parameters none = u.push (.definition name
        namespaceName (t.uniqueName namespaceName name parameters.length none) none kind ids) := heq _
    rw [hdeclare]
    exact hpush hids hkeeps hlookup honly fun _ => rfl
  | some outer =>
    obtain ⟨u, ids, hids, hkeeps, hlookup, honly, heq⟩ := hmade (t.namespaceOf outer)
    have hdeclare : t.declare namespaceName name kind parameters (some outer)
        = u.push (.definition name (t.namespaceOf outer)
          (t.uniqueName namespaceName name parameters.length (some outer)) (some outer) kind ids) := heq _
    rw [hdeclare]
    exact hpush hids hkeeps hlookup honly (by rintro ⟨⟩)

end SettingsLint.TypeTable
