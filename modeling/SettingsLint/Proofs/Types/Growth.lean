import SettingsLint.Main

/-! # How tables grow

After the types of a source are declared, a table changes in two ways only: types are made that
are built from others, and facts are filled in that are neither the shape of a type nor its
properties. `TypeTable.Growth R` says that the relation `R` allows this. Then completion goes
along `R`. Properties are added in one place of binding, which is left to the relation at hand.

`TypeTable.Extends` is the relation of this kind that lookups are kept by: a table with more
types, none of which is a definition.
-/

namespace SettingsLint

/-- The shapes of types that are built from others, and of those that stand for a name. -/
def Shape.isBuilt : Shape → Bool
  | .constructed _ _ | .array _ _ | .error _ => true
  | .definition .. | .typeParameter _ => false

theorem lookup_cons_eq_ite [DecidableEq α] (key key' : α) (b : β) (l : List (α × β)) :
    ((key, b) :: l).lookup key' = if key' = key then some b else l.lookup key' := by
  rw [List.lookup_cons]
  by_cases h : key' = key
  · rw [if_pos h, beq_iff_eq.2 h]
  · rw [if_neg h, beq_eq_false_iff_ne.2 h]

/-- A pair that is inserted is found, and the others are found as before. -/
theorem TypeMap.find?_insert {κ : Type} [DecidableEq κ] (m : TypeMap κ) (first first' id : TypeId)
    (second second' : κ) : (m.insert first second id).find? first' second'
      = if first' = first ∧ second' = second then some id else m.find? first' second' := by
  -- A list that is not there yet counts as empty.
  have hpadded (n : Nat) : (m.lists ++ Array.replicate n [])[first'.index]?.getD []
      = m.lists[first'.index]?.getD [] := by
    rw [Array.getElem?_append]
    split
    · rfl
    · next hge =>
      rw [Array.getElem?_eq_none (Nat.le_of_not_lt hge), Array.getElem?_replicate]
      split <;> rfl
  rw [insert, find?, find?, Array.getElem?_modify]
  by_cases hfirst : first.index = first'.index
  · have hself : first' = first := congrArg TypeId.mk hfirst.symm
    have hin : first'.index < (m.lists ++ Array.replicate (first.index + 1 - m.lists.size) []).size := by
      rw [Array.size_append, Array.size_replicate]
      omega
    rw [← hpadded, Array.getElem?_eq_getElem hin]
    simp only [hself, true_and]
    exact lookup_cons_eq_ite ..
  · have hother : ¬ (first' = first ∧ second' = second) := by
      rintro ⟨rfl, -⟩
      exact hfirst rfl
    rw [if_neg hfirst, hpadded, if_neg hother]

/-- The change of an entry leaves alone what the entry is and which properties it has. -/
structure Entry.Keeps (f : Entry → Entry) : Prop where
  shape : ∀ e, (f e).shape = e.shape
  special : ∀ e, (f e).special = e.special
  properties : ∀ e, (f e).properties = e.properties

namespace TypeTable

variable {R : TypeTable → TypeTable → Prop} {t : TypeTable} {id : TypeId}

/-- Steps along the relation can be put together. -/
class Chain (R : TypeTable → TypeTable → Prop) : Prop where
  refl : ∀ t, R t t
  trans : ∀ {t u v}, R t u → R u v → R t v

/-- The relation allows what happens to a table after its types are declared, other than
    adding properties. -/
class Growth (R : TypeTable → TypeTable → Prop) : Prop where
  refl : ∀ t, R t t
  trans : ∀ {t u v}, R t u → R u v → R t v
  intern : ∀ t shape depth, shape.isBuilt = true → R t (t.intern shape depth).2
  change : ∀ t f, (∀ i, Entry.Keeps (f i)) → R t { t with entries := t.entries.mapIdx f }

instance [hR : Growth R] : Chain R := ⟨hR.refl, hR.trans⟩

/-- Every relation of this kind leads from the one table to the other. -/
def Grows (t t' : TypeTable) : Prop := ∀ R, Growth R → R t t'

/-- Changing one entry is a change of all entries that leaves the others as they are. -/
theorem update_eq (t : TypeTable) (id : TypeId) (f : Entry → Entry) : t.update id f =
    { t with entries := t.entries.mapIdx fun i e => if id.index = i then f e else e } := by
  have hentries : t.entries.modify id.index f
      = t.entries.mapIdx fun i e => if id.index = i then f e else e := by
    refine Array.ext (by simp) fun i _ _ => ?_
    simp only [Array.getElem_modify, Array.getElem_mapIdx]
  rw [update, hentries]

/-! ## Completion -/

section

variable [hR : Growth R]

theorem Growth.update (t : TypeTable) (id : TypeId) {f : Entry → Entry} (hf : Entry.Keeps f) :
    R t (t.update id f) := by
  rw [update_eq]
  refine hR.change t _ fun i => ⟨fun e => ?_, fun e => ?_, fun e => ?_⟩
  · split
    · exact hf.shape e
    · rfl
  · split
    · exact hf.special e
    · rfl
  · split
    · exact hf.properties e
    · rfl

theorem Growth.construct (t : TypeTable) (definition : TypeId) (arguments : List TypeId)
    (depth : Nat) : R t (t.construct definition arguments depth).2 := by
  rw [TypeTable.construct]
  split
  · exact hR.refl t
  · exact hR.intern t _ depth rfl

end

/-- The action takes the table along the relation. -/
def Walks (R : TypeTable → TypeTable → Prop) (action : StateM TypeTable α) : Prop :=
  ∀ t, R t (action t).2

section

variable [hR : Chain R]

namespace Walks

theorem pure (a : α) : Walks R (pure a : StateM TypeTable α) := fun t => hR.refl t

theorem bind {action : StateM TypeTable α} {next : α → StateM TypeTable β} (h : Walks R action)
    (hnext : ∀ a, Walks R (next a)) : Walks R (action >>= next) :=
  fun t => hR.trans (h t) (hnext _ _)

omit hR in
theorem get_bind {next : TypeTable → StateM TypeTable α} (h : ∀ t, Walks R (next t)) :
    Walks R (get >>= next) := fun t => h t t

theorem mapM {action : α → StateM TypeTable β} (as : List α) (h : ∀ a, Walks R (action a)) :
    Walks R (as.mapM action) := by
  induction as with
  | nil => exact pure []
  | cons a as ih =>
    rw [List.mapM_cons]
    exact (h a).bind fun _ => ih.bind fun _ => pure _

theorem option_mapM {action : α → StateM TypeTable β} (o : Option α) (h : ∀ a, Walks R (action a)) :
    Walks R (o.mapM action) := by
  cases o with
  | none => exact pure none
  | some a => exact (h a).bind fun _ => pure _

end Walks

/-- Replacing type parameters goes along a relation that allows types to be made at the depth. -/
theorem walks_substitute {depth : Nat}
    (hintern : ∀ t shape, shape.isBuilt = true → R t (t.intern shape depth).2) (s : Substitution)
    (id : TypeId) : Walks R (substitute s depth id) := by
  induction hn : id.index using Nat.strongRecOn generalizing id with
  | ind n ih =>
    have hpart (part : TypeId) :
        Walks R (if part.index < id.index then substitute s depth part else pure part) := by
      split
      · next hlt => exact ih _ (hn ▸ hlt) part rfl
      · exact .pure part
    rw [substitute]
    split
    · exact .pure _
    · refine .get_bind fun t => ?_
      split
      · refine (Walks.mapM _ hpart).bind fun arguments t => ?_
        show R t (t.construct _ arguments depth).2
        rw [TypeTable.construct]
        split
        · exact hR.refl t
        · exact hintern t _ rfl
      · have harray (rank : Nat) (element : TypeId) :
            Walks R (modifyGet (·.array element rank depth)) :=
          fun t => hintern t _ rfl
        split
        · next hlt => exact (ih _ (hn ▸ hlt) _ rfl).bind (harray _)
        · exact (Walks.pure _).bind (harray _)
      · exact .pure id

theorem walks_substituteSignature {depth : Nat}
    (hintern : ∀ t shape, shape.isBuilt = true → R t (t.intern shape depth).2) (s : Substitution)
    (signature : Signature) : Walks R (substituteSignature s depth signature) :=
  Walks.bind (.mapM _ fun p => (walks_substitute hintern s p.type).bind fun _ => .pure _)
    fun _ => .pure _

end

section

variable [hR : Growth R]

theorem walks_instantiate (id : TypeId) : Walks R (instantiate id) := by
  have hmodify {f : Entry → Entry} (hf : Entry.Keeps f) : Walks R (modify (·.update id f)) :=
    fun t => Growth.update t id hf
  have hintern (depth : Nat) (t : TypeTable) (shape : Shape) (hbuilt : shape.isBuilt = true) :
      R t (t.intern shape depth).2 := hR.intern t shape depth hbuilt
  refine Walks.bind (hmodify ⟨fun _ => rfl, fun _ => rfl, fun _ => rfl⟩) fun _ => .get_bind fun t => ?_
  split
  · dsimp only
    split
    · refine (Walks.option_mapM _ (walks_substitute (hintern _) _)).bind fun base => ?_
      refine (Walks.mapM _ (walks_substitute (hintern _) _)).bind fun interfaces => ?_
      refine (Walks.mapM _ (walks_substituteSignature (hintern _) _)).bind fun constructors => ?_
      exact hmodify ⟨fun _ => rfl, fun _ => rfl, fun _ => rfl⟩
    · exact .pure ()
  · exact hmodify ⟨fun _ => rfl, fun _ => rfl, fun _ => rfl⟩
  · exact .pure ()

end

/-! ## More types -/

/-- What the maps give has the shape that was asked for. -/
def Recorded (t : TypeTable) : Prop := ∀ ⦃shape : Shape⦄ ⦃id : TypeId⦄, t.find? shape = some id →
  id.index < t.size ∧ t.shape id = shape

/-- The table has all that `t` has and maybe more types, none of which is a definition. -/
structure Extends (t t' : TypeTable) : Prop where
  size_le : t.size ≤ t'.size
  shape_eq : ∀ {id : TypeId}, id.index < t.size → t'.shape id = t.shape id
  isBuilt_shape : ∀ {id : TypeId}, t.size ≤ id.index → (t'.shape id).isBuilt = true
  special_eq : ∀ {id : TypeId}, id.index < t.size → t'.specialOf id = t.specialOf id
  recorded : t.Recorded → t'.Recorded
  specials_eq : t'.specials = t.specials
  namespaces_eq : t'.namespaces = t.namespaces

theorem entry_of_le (h : t.size ≤ id.index) : t.entry id = default := by
  rw [entry, Array.getElem?_eq_none h]
  rfl

theorem shape_of_le (h : t.size ≤ id.index) :
    t.shape id = .error "" := by
  rw [shape, entry_of_le h]
  rfl

theorem entry_push_of_lt {shape : Shape} {depth : Nat}
    (h : id.index < t.size) : (t.push shape depth).2.entry id = t.entry id := by
  show (t.entries.push _)[id.index]?.getD default = t.entries[id.index]?.getD default
  rw [Array.getElem?_push_lt h, Array.getElem?_eq_getElem h]

theorem shape_push_self (t : TypeTable) (shape : Shape) (depth : Nat) :
    (t.push shape depth).2.shape ⟨t.size⟩ = shape := by
  show ((t.entries.push _)[t.entries.size]?.getD default).shape = _
  rw [Array.getElem?_push_size]
  rfl

theorem size_push (t : TypeTable) (shape : Shape) (depth : Nat) :
    (t.push shape depth).2.size = t.size + 1 := by
  exact Array.size_push _

theorem entry_mapIdx (t : TypeTable) {f : Nat → Entry → Entry} (h : id.index < t.size) :
    ({ t with entries := t.entries.mapIdx f } : TypeTable).entry id = f id.index (t.entry id) := by
  show (t.entries.mapIdx f)[id.index]?.getD default = f _ (t.entries[id.index]?.getD default)
  rw [Array.getElem?_mapIdx, Array.getElem?_eq_getElem h]
  rfl

theorem Extends.refl (t : TypeTable) : t.Extends t where
  size_le := Nat.le_refl _
  shape_eq _ := rfl
  isBuilt_shape h := by rw [shape_of_le h]; rfl
  special_eq _ := rfl
  recorded h := h
  specials_eq := rfl
  namespaces_eq := rfl

theorem find?_push (t : TypeTable) (shape shape' : Shape) (depth : Nat) :
    (t.push shape depth).2.find? shape'
      = if shape' = shape ∧ shape.isBuilt then some ⟨t.size⟩ else t.find? shape' := by
  cases shape <;> cases shape' <;>
    simp [push, find?, Shape.isBuilt, TypeMap.find?_insert, lookup_cons_eq_ite]

theorem Recorded.push (h : t.Recorded) (shape : Shape) (depth : Nat) :
    (t.push shape depth).2.Recorded := by
  intro shape' id hfind
  rw [find?_push] at hfind
  rw [size_push]
  split at hfind
  · next hself =>
    rw [← Option.some.inj hfind, hself.1]
    exact ⟨Nat.lt_succ_self _, shape_push_self t shape depth⟩
  · obtain ⟨hid, hshape⟩ := h hfind
    exact ⟨Nat.lt_succ_of_lt hid, (congrArg Entry.shape (entry_push_of_lt hid)).trans hshape⟩

/-- What is asked for is what is there then. -/
theorem Recorded.shape_intern (h : t.Recorded) (shape : Shape) (depth : Nat) :
    (t.intern shape depth).2.shape (t.intern shape depth).1 = shape := by
  rw [intern]
  cases hfind : t.find? shape with
  | none => exact shape_push_self t shape depth
  | some id => exact (h hfind).2

theorem Extends.push {shape : Shape} (h : shape.isBuilt = true) (depth : Nat) :
    t.Extends (t.push shape depth).2 where
  size_le := by
    rw [size_push]
    exact Nat.le_succ _
  shape_eq hid := congrArg Entry.shape (entry_push_of_lt hid)
  isBuilt_shape {id} hid := by
    rcases Nat.lt_or_eq_of_le hid with hlt | heq
    · have hout : (t.push shape depth).2.size ≤ id.index := by rwa [size_push]
      rw [shape_of_le hout]
      rfl
    · have hself : id = ⟨t.size⟩ := congrArg TypeId.mk heq.symm
      rwa [hself, shape_push_self]
  special_eq hid := congrArg Entry.special (entry_push_of_lt hid)
  recorded h := h.push shape depth
  specials_eq := rfl
  namespaces_eq := rfl

theorem Extends.change {f : Nat → Entry → Entry}
    (hshape : ∀ i e, (f i e).shape = e.shape) (hspecial : ∀ i e, (f i e).special = e.special) :
    t.Extends { t with entries := t.entries.mapIdx f } where
  size_le := Nat.le_of_eq (Array.size_mapIdx).symm
  shape_eq {id} hid := by
    rw [shape, entry_mapIdx t hid]
    exact hshape _ _
  recorded h := @fun _ id hfind => by
    obtain ⟨hid, hsame⟩ := h hfind
    rw [shape, entry_mapIdx t hid, hshape]
    exact ⟨Nat.lt_of_lt_of_eq hid Array.size_mapIdx.symm, hsame⟩
  isBuilt_shape {id} hid := by
    have hsize : (t.entries.mapIdx f).size ≤ id.index := by rwa [Array.size_mapIdx]
    rw [shape, entry, Array.getElem?_eq_none hsize]
    rfl
  special_eq {id} hid := by
    rw [specialOf, entry_mapIdx t hid]
    exact hspecial _ _
  specials_eq := rfl
  namespaces_eq := rfl

theorem Extends.update (id : TypeId) {f : Entry → Entry}
    (hshape : ∀ e, (f e).shape = e.shape) (hspecial : ∀ e, (f e).special = e.special) :
    t.Extends (t.update id f) := by
  rw [update_eq]
  refine .change (fun i e => ?_) fun i e => ?_
  · split
    · exact hshape e
    · rfl
  · split
    · exact hspecial e
    · rfl

instance : Growth Extends where
  refl := Extends.refl
  trans h g := {
    size_le := Nat.le_trans h.size_le g.size_le
    shape_eq := fun hid => (g.shape_eq (Nat.lt_of_lt_of_le hid h.size_le)).trans (h.shape_eq hid)
    isBuilt_shape := fun {id} hid => by
      rcases Nat.lt_or_ge id.index _ with hlt | hge
      · rw [g.shape_eq hlt]
        exact h.isBuilt_shape hid
      · exact g.isBuilt_shape hge
    special_eq := fun hid =>
      (g.special_eq (Nat.lt_of_lt_of_le hid h.size_le)).trans (h.special_eq hid)
    recorded := fun ht => g.recorded (h.recorded ht)
    specials_eq := g.specials_eq.trans h.specials_eq
    namespaces_eq := g.namespaces_eq.trans h.namespaces_eq }
  intern t shape depth hbuilt := by
    rw [intern]
    split
    · exact .refl t
    · exact .push hbuilt depth
  change t f hf := .change (fun i => (hf i).shape) fun i => (hf i).special

/-- The latest definition with the unique name among the first `n` types. -/
def lookupBelow (t : TypeTable) (unique : String) : (n : Nat) → Option TypeId
  | 0 => none
  | n + 1 => if (t.shape ⟨n⟩).defines unique then some ⟨n⟩ else t.lookupBelow unique n

theorem lookup_eq_lookupBelow (t : TypeTable) (unique : String) :
    t.lookup unique = t.lookupBelow unique t.size := by
  have hbelow (n : Nat) (hn : n ≤ t.size) :
      ((t.entries.toList.take n).zipIdx.findRev? (·.1.shape.defines unique)).map (⟨·.2⟩)
        = t.lookupBelow unique n := by
    induction n with
    | zero => rfl
    | succ n ih =>
      have hentry : t.entries.toList[n]? = some (t.entry ⟨n⟩) := by
        have hsome : t.entries[n]? = some (t.entries[n]) := Array.getElem?_eq_getElem hn
        rw [Array.getElem?_toList, entry, hsome]
        rfl
      have hlength : (t.entries.toList.take n).length = n :=
        List.length_take_of_le (Nat.le_of_succ_le hn)
      rw [lookupBelow, ← ih (Nat.le_of_succ_le hn), List.take_add_one, hentry, List.zipIdx_append,
        List.findRev?_eq_find?_reverse, List.reverse_append]
      simp only [Option.toList, List.zipIdx_cons, List.zipIdx_nil, List.reverse_singleton,
        List.singleton_append, List.find?_cons, shape]
      split <;> simp_all
  have hall := hbelow t.size (Nat.le_refl _)
  rwa [size, ← Array.length_toList, List.take_length] at hall

/-- The same names are found. -/
theorem Extends.lookup_eq {t' : TypeTable} (h : t.Extends t') (unique : String) :
    t'.lookup unique = t.lookup unique := by
  have hbelow (n : Nat) (hn : n ≤ t.size) : t'.lookupBelow unique n = t.lookupBelow unique n := by
    induction n with
    | zero => rfl
    | succ n ih => rw [lookupBelow, lookupBelow, h.shape_eq hn, ih (Nat.le_of_succ_le hn)]
  have habove (n : Nat) : t'.lookupBelow unique (t.size + n) = t'.lookupBelow unique t.size := by
    induction n with
    | zero => rfl
    | succ n ih =>
      have hbuilt : (t'.shape ⟨t.size + n⟩).isBuilt = true := h.isBuilt_shape (Nat.le_add_right _ _)
      have hdefines : (t'.shape ⟨t.size + n⟩).defines unique = false := by
        cases hshape : t'.shape ⟨t.size + n⟩ with
        | definition => rw [hshape] at hbuilt; cases hbuilt
        | _ => rfl
      rw [← Nat.add_assoc, lookupBelow, if_neg (by simp [hdefines]), ih]
  obtain ⟨n, hn⟩ := Nat.exists_eq_add_of_le h.size_le
  rw [lookup_eq_lookupBelow, lookup_eq_lookupBelow, hn, habove, hbelow _ (Nat.le_refl _)]

/-! ## Going through the types -/

/-- The table after completion has been to the `i`-th type. -/
def visit (t : TypeTable) (i : Nat) : TypeTable :=
  if (t.entry ⟨i⟩).instantiated then t else (instantiate ⟨i⟩ t).2

theorem growth_visit [hR : Growth R] (t : TypeTable) (i : Nat) :
    R t (t.visit i) := by
  rw [visit]
  split
  · exact hR.refl t
  · exact walks_instantiate ⟨i⟩ t

/-- What one type after the other keeps holds after a round. -/
theorem instantiateRange_induct {P : Nat → TypeTable → Prop} {first stop : Nat}
    (hstep : ∀ i t, i < stop → P i t → P (i + 1) (t.visit i)) (hle : first ≤ stop) (h : P first t) :
    P stop (instantiateRange first stop t) := by
  obtain ⟨k, rfl⟩ := Nat.exists_eq_add_of_le hle
  rw [instantiateRange, Nat.add_sub_cancel_left]
  induction k generalizing first t with
  | zero => exact h
  | succ k ih =>
    have hsum : first + (k + 1) = first + 1 + k := by omega
    rw [hsum] at hstep ⊢
    exact ih (hstep first t (by omega) h) hstep (Nat.le_add_right _ _)

theorem size_le_instantiateRange {first : Nat} (hle : first ≤ t.size) :
    t.size ≤ (instantiateRange first t.size t).size :=
  instantiateRange_induct
    (fun i u _ hu => Nat.le_trans hu (growth_visit (R := Extends) u i).size_le) hle (Nat.le_refl _)

/-- What every visit and the collection of interfaces keep holds after completion. -/
theorem complete_induct {P : TypeTable → Prop}
    (hvisit : ∀ t i, i < t.size → P t → P (t.visit i)) (hfill : ∀ t, P t → P t.fillInterfaces)
    (h : P t) : P t.complete := by
  refine hfill _ ?_
  generalize maxInstantiationDepth + 1 = rounds
  suffices hrounds : ∀ first, first ≤ t.size → P (instantiateRounds rounds first t) from
    hrounds 0 (Nat.zero_le _)
  induction rounds generalizing t with
  | zero => exact fun _ _ => h
  | succ rounds ih =>
    intro first hle
    -- In a round the end of the table does not come nearer.
    have hrange : t.size ≤ (instantiateRange first t.size t).size ∧
        P (instantiateRange first t.size t) := by
      refine instantiateRange_induct (P := fun _ u => t.size ≤ u.size ∧ P u) (fun i u hi hu => ?_) hle
        ⟨Nat.le_refl _, h⟩
      exact ⟨Nat.le_trans hu.1 (growth_visit (R := Extends) u i).size_le,
        hvisit u i (Nat.lt_of_lt_of_le hi hu.1) hu.2⟩
    exact ih hrange.2 _ hrange.1

theorem growth_complete [hR : Growth R] (t : TypeTable) :
    R t t.complete :=
  complete_induct (fun u i _ hu => hR.trans hu (growth_visit u i))
    (fun u hu => hR.trans hu (hR.change u _ fun _ => ⟨fun _ => rfl, fun _ => rfl, fun _ => rfl⟩))
    (hR.refl t)

end TypeTable

/-! ## The library -/

namespace LibraryType

open TypeTable (Growth)

variable [hR : Growth R]

theorem growth_resolveName (directory : Directory) (owner : TypeId) (name : String)
    (arguments : List TypeId) (t : TypeTable) :
    R t (resolveName directory owner name arguments t).2 := by
  rw [resolveName]
  split
  · exact hR.refl t
  · split
    · exact Growth.construct t _ arguments 0
    · exact hR.intern t _ 0 rfl

mutual

theorem growth_resolve (directory : Directory) (owner : TypeId) :
    (e : LibraryTypeExpr) → (t : TypeTable) → R t (resolve directory owner e t).2
  | .named name arguments, t => by
    exact hR.trans (growth_resolveAll directory owner arguments t)
      (growth_resolveName directory owner name _ _)
  | .array element, t => by
    exact hR.trans (growth_resolve directory owner element t) (hR.intern _ _ 0 rfl)

theorem growth_resolveAll (directory : Directory) (owner : TypeId) :
    (es : List LibraryTypeExpr) → (t : TypeTable) → R t (resolveAll directory owner es t).2
  | [], t => by
    exact hR.refl t
  | e :: es, t => by
    exact hR.trans (growth_resolve directory owner e t) (growth_resolveAll directory owner es _)

end

theorem growth_foldl {f : TypeTable → α → TypeTable} (h : ∀ t a, R t (f t a)) (as : List α)
    (t : TypeTable) : R t (as.foldl f t) := by
  induction as generalizing t with
  | nil => exact hR.refl t
  | cons a as ih => exact hR.trans (h t a) (ih _)

open TypeTable (Walks) in
theorem growth_addMembers (directory : Directory) (type : LibraryType) (id : TypeId) :
    Walks R (addMembers directory type id) := by
  have hresolve (e : LibraryTypeExpr) : Walks R (modifyGet (resolve directory id e)) :=
    growth_resolve directory id e
  refine (Walks.option_mapM _ hresolve).bind fun base => (Walks.mapM _ hresolve).bind fun interfaces => ?_
  refine Walks.bind (.mapM _ fun list => .mapM _ fun p => (hresolve p.2).bind fun _ => .pure _) fun
    constructors t => ?_
  have hbase : R t (base.elim t (t.setBase id ·)) := by
    cases base with
    | none => exact hR.refl t
    | some base => exact Growth.update t id ⟨fun _ => rfl, fun _ => rfl, fun _ => rfl⟩
  refine hR.trans (hR.trans hbase (growth_foldl (fun t interface => ?_) interfaces _))
    (growth_foldl (fun t parameters => ?_) constructors _)
  · refine Growth.update t id ⟨fun e => ?_, fun e => ?_, fun e => ?_⟩
    all_goals
      split <;> rfl
  · exact Growth.update t id ⟨fun _ => rfl, fun _ => rfl, fun _ => rfl⟩

/-- After its types are declared the table of the library only grows. -/
theorem growth_withLibrary : R (declareAll all .empty).2 .withLibrary := by
  have hinstall : R (declareAll all .empty).2 (install .empty) := by
    rw [install]
    generalize declareAll all .empty = made
    obtain ⟨directory, t⟩ := made
    refine growth_foldl (fun t entry => ?_) _ _
    exact growth_addMembers directory entry.1 entry.2.2 t
  exact hR.trans hinstall (TypeTable.growth_complete _)

end LibraryType

end SettingsLint
