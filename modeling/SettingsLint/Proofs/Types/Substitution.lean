import Mathlib.Data.List.Forall2
import SettingsLint.Proofs.Types.Soundness

/-! # Arguments in place of type parameters

A generic type with arguments gets the members of its definition, with the arguments in place of the
type parameters. As trees, the members of the two differ in the leaves only: wherever a parameter
stands in the one, its argument stands in the other.

Actions on a table are followed with `Gives`: they keep an invariant, take no types away, and give a
value that fits the table they leave.
-/

namespace SettingsLint

/-! ## Trees -/

/-- A type as a tree. Types that are not built from others are leaves. -/
inductive TypeTree where
  | leaf (id : TypeId)
  | constructed (definition : TypeId) (arguments : List TypeTree)
  | array (element : TypeTree) (rank : Nat)

/-- The tree with other trees in place of leaves, all at once. -/
def TypeTree.replace (trees : List (TypeId × TypeTree)) : TypeTree → TypeTree
  | leaf id => (trees.lookup id).getD (leaf id)
  | constructed definition arguments => constructed definition (arguments.map (replace trees))
  | array element rank => array (replace trees element) rank

def TypeTable.tree (t : TypeTable) (id : TypeId) : TypeTree :=
  let inner (other : TypeId) : TypeTree := if other.index < id.index then t.tree other else .leaf other
  match t.shape id with
  | .constructed definition arguments => .constructed definition (arguments.map inner)
  | .array element rank => .array (inner element) rank
  | _ => .leaf id
termination_by id.index

/-- The trees in place of the parameters. -/
def Substitution.trees (s : Substitution) (t : TypeTable) : List (TypeId × TypeTree) :=
  s.parameters.zip (s.arguments.map t.tree)

/-- What completion fills in for a type. -/
structure Members where
  base : Option TypeId := none
  interfaces : List TypeId := []
  constructors : List Signature := []

/-- Members with trees for types; a constructor is the list of its parameters with their names. -/
structure MemberTrees where
  base : Option TypeTree
  interfaces : List TypeTree
  constructors : List (List (String × TypeTree))

/-- The members with other trees in place of leaves. -/
def MemberTrees.replace (trees : List (TypeId × TypeTree)) (m : MemberTrees) : MemberTrees where
  base := m.base.map (·.replace trees)
  interfaces := m.interfaces.map (·.replace trees)
  constructors := m.constructors.map (·.map fun p => (p.1, p.2.replace trees))

def Members.trees (t : TypeTable) (m : Members) : MemberTrees where
  base := m.base.map t.tree
  interfaces := m.interfaces.map t.tree
  constructors := m.constructors.map fun c => c.parameters.map fun p => (p.name, t.tree p.type)

/-- The members of a type that are filled in. -/
def Entry.members (e : Entry) : Members := ⟨e.base, e.interfaces, e.constructors⟩

/-- The entry with these members filled in. -/
def Entry.withMembers (m : Members) (e : Entry) : Entry :=
  { e with base := m.base, interfaces := m.interfaces, constructors := m.constructors }

namespace TypeTable

variable {t u v : TypeTable} {id other : TypeId} {s : Substitution}

theorem tree_of_not_isBuilt (h : (t.shape id).isBuilt = false) : t.tree id = .leaf id := by
  rw [tree]
  cases hshape : t.shape id <;> first | rfl | (rw [hshape] at h; cases h)

theorem Sound.tree_constructed (h : t.Sound) {definition : TypeId} {arguments : List TypeId}
    (hshape : t.shape id = .constructed definition arguments) :
    t.tree id = .constructed definition (arguments.map t.tree) := by
  rw [tree, hshape]
  refine congrArg _ (List.map_congr_left fun a ha => if_pos ?_)
  exact h.older (hshape ▸ List.mem_cons_of_mem _ ha : a ∈ (t.shape id).parts)

theorem Sound.tree_array (h : t.Sound) {element : TypeId} {rank : Nat}
    (hshape : t.shape id = .array element rank) : t.tree id = .array (t.tree element) rank := by
  rw [tree, hshape]
  dsimp only
  rw [if_pos (h.older (hshape ▸ List.mem_singleton_self _ : element ∈ (t.shape id).parts))]

/-- A type keeps its tree. -/
theorem Keeps.tree_eq (h : t.Keeps u) (hid : id.index < t.size) : u.tree id = t.tree id := by
  induction hindex : id.index using Nat.strongRecOn generalizing id with
  | ind i ih =>
    have hinner (a : TypeId) : (if a.index < id.index then u.tree a else .leaf a)
        = if a.index < id.index then t.tree a else .leaf a := by
      split
      · next hlt => exact ih _ (hindex ▸ hlt) (Nat.lt_trans hlt hid) rfl
      · rfl
    rw [tree, tree, h.shape_eq hid]
    cases t.shape id with
    | constructed definition arguments =>
      exact congrArg _ (List.map_congr_left fun a _ => hinner a)
    | array element rank => exact congrArg (TypeTree.array · rank) (hinner element)
    | _ => rfl

theorem Keeps.leaf_of_leaf (h : t.Keeps u) (hleaf : u.tree id = .leaf id) : t.tree id = .leaf id := by
  by_cases hid : id.index < t.size
  · rw [← h.tree_eq hid, hleaf]
  · rw [tree, shape_of_le (Nat.not_lt.1 hid)]

theorem Keeps.trees_eq (h : t.Keeps u) (hs : ∀ a ∈ s.arguments, a.index < t.size) :
    s.trees u = s.trees t := by
  rw [Substitution.trees, Substitution.trees, List.map_congr_left fun a ha => h.tree_eq (hs a ha)]

theorem Keeps.memberTrees_eq (h : t.Keeps u) {e : Entry} (he : ∀ x ∈ e.named, x.index < t.size) :
    e.members.trees u = e.members.trees t := by
  have hbase : e.base.map u.tree = e.base.map t.tree :=
    Option.map_congr fun x hx => h.tree_eq (he x (Entry.mem_named.2 (.inl hx)))
  have hinterfaces : e.interfaces.map u.tree = e.interfaces.map t.tree :=
    List.map_congr_left fun x hx => h.tree_eq (he x (Entry.mem_named.2 (.inr (.inl hx))))
  rw [MemberTrees.mk.injEq]
  refine ⟨hbase, hinterfaces, List.map_congr_left fun c hc => List.map_congr_left fun p hp => ?_⟩
  rw [h.tree_eq (he p.type (Entry.mem_named.2 (.inr (.inr ⟨c, hc, p, hp, rfl⟩))))]

end TypeTable

/-! ## Following actions -/

/-- The type is in the table. -/
def TypeTable.Has (t : TypeTable) (id : TypeId) : Prop := id.index < t.size

theorem TypeTable.Has.mono {t u : TypeTable} {id : TypeId} (h : t.Has id) (hextends : t.Extends u) :
    u.Has id :=
  Nat.lt_of_lt_of_le h hextends.size_le

/-- From the state the action keeps the invariant of the table, only adds to the table, and its value
    fits the table that it leaves. -/
structure Gives (view : σ → TypeTable) (I : TypeTable → Prop) (fits : TypeTable → α → Prop)
    (action : StateM σ α) (s : σ) : Prop where
  inv : I (view (action s).2)
  growth : (view s).Extends (view (action s).2)
  value : fits (view (action s).2) (action s).1

namespace Gives

variable {view : σ → TypeTable} {I : TypeTable → Prop} {fits fits' : TypeTable → α → Prop} {s : σ}

theorem pure {a : α} (hI : I (view s)) (ha : fits (view s) a) : Gives view I fits (pure a) s :=
  ⟨hI, .refl _, ha⟩

theorem bind {fits' : TypeTable → β → Prop} {action : StateM σ α} {next : α → StateM σ β}
    (h : Gives view I fits action s)
    (hnext : ∀ a u, I (view u) → (view s).Extends (view u) → fits (view u) a →
      Gives view I fits' (next a) u) : Gives view I fits' (action >>= next) s := by
  have hrest := hnext _ _ h.inv h.growth h.value
  exact ⟨hrest.inv, TypeTable.Growth.trans h.growth hrest.growth, hrest.value⟩

theorem get_bind {next : σ → StateM σ α} (h : Gives view I fits (next s) s) :
    Gives view I fits (get >>= next) s :=
  ⟨h.inv, h.growth, h.value⟩

theorem imp {action : StateM σ α} (h : Gives view I fits action s)
    (himp : ∀ u a, fits u a → fits' u a) : Gives view I fits' action s :=
  ⟨h.inv, h.growth, himp _ _ h.value⟩

theorem congr {action action' : StateM σ α} (heq : action s = action' s)
    (h : Gives view I fits action' s) : Gives view I fits action s := by
  obtain ⟨hinv, hgrowth, hvalue⟩ := h
  rw [← heq] at hinv hgrowth hvalue
  exact ⟨hinv, hgrowth, hvalue⟩

theorem ite {c : Prop} [Decidable c] {action action' : StateM σ α} (h : Gives view I fits action s)
    (h' : Gives view I fits action' s) : Gives view I fits (if c then action else action') s := by
  split
  · exact h
  · exact h'

theorem mapM {R : TypeTable → α → β → Prop} {action : α → StateM σ β} {as : List α}
    (hmono : ∀ {u v a b}, u.Extends v → R u a b → R v a b)
    (h : ∀ a ∈ as, ∀ u, I (view u) → (view s).Extends (view u) → Gives view I (R · a) (action a) u)
    (hI : I (view s)) :
    Gives view I (fun u bs => List.Forall₂ (R u) as bs) (as.mapM action) s := by
  induction as generalizing s with
  | nil => exact .pure hI .nil
  | cons a as ih =>
    rw [List.mapM_cons]
    refine (h a List.mem_cons_self s hI (.refl _)).bind fun b u hu hsu hb => ?_
    have hrest := ih (fun a' ha v hv huv => h a' (List.mem_cons_of_mem _ ha) v hv (TypeTable.Growth.trans hsu huv)) hu
    exact hrest.bind fun bs v hv huv hbs => .pure hv (.cons (hmono huv hb) hbs)

theorem option_mapM {R : TypeTable → α → β → Prop} {action : α → StateM σ β} {o : Option α}
    (h : ∀ a ∈ o, Gives view I (R · a) (action a) s) (hI : I (view s)) :
    Gives view I (fun u b => Option.Rel (R u) o b) (o.mapM action) s := by
  cases o with
  | none => exact .pure hI .none
  | some a =>
    exact (h a rfl).bind fun b u hu _ hb => .pure hu (.some hb)

end Gives

/-! ## Members that correspond -/

/-- The parameters have the same name, and their types are related. -/
structure ParameterSymbol.Corresponds (R : TypeId → TypeId → Prop) (p p' : ParameterSymbol) : Prop where
  name : p'.name = p.name
  type : R p.type p'.type

/-- The members correspond, up to types that are related. -/
structure Members.Corresponds (R : TypeId → TypeId → Prop) (m m' : Members) : Prop where
  base : Option.Rel R m.base m'.base
  interfaces : List.Forall₂ R m.interfaces m'.interfaces
  constructors : List.Forall₂ (fun c c' => List.Forall₂ (ParameterSymbol.Corresponds R) c.parameters
    c'.parameters) m.constructors m'.constructors

theorem optionRel_imp {R S : α → β → Prop} {o : Option α} {o' : Option β} (h : ∀ a b, R a b → S a b)
    (ho : Option.Rel R o o') : Option.Rel S o o' := by
  cases ho with
  | some hab => exact .some (h _ _ hab)
  | none => exact .none

theorem map_eq_of_optionRel {f : α → γ} {g : β → γ} {R : α → β → Prop} {o : Option α} {o' : Option β}
    (h : ∀ a b, R a b → g b = f a) (ho : Option.Rel R o o') : o'.map g = o.map f := by
  cases ho with
  | some hab => exact congrArg some (h _ _ hab)
  | none => rfl

theorem exists_of_optionRel {R : α → β → Prop} {o : Option α} {o' : Option β} (h : Option.Rel R o o')
    {b : β} (hb : b ∈ o') : ∃ a ∈ o, R a b := by
  cases h with
  | some hab => exact ⟨_, rfl, Option.some.inj hb ▸ hab⟩
  | none => cases hb

theorem map_eq_of_forall₂ {f : α → γ} {g : β → γ} {R : α → β → Prop} {as : List α} {bs : List β}
    (h : ∀ a b, R a b → g b = f a) (hall : List.Forall₂ R as bs) : bs.map g = as.map f := by
  induction hall with
  | nil => rfl
  | cons hab _ ih => rw [List.map_cons, List.map_cons, h _ _ hab, ih]

theorem exists_of_forall₂ {R : α → β → Prop} {as : List α} {bs : List β} (h : List.Forall₂ R as bs)
    {b : β} (hb : b ∈ bs) : ∃ a ∈ as, R a b := by
  induction h with
  | nil => cases hb
  | cons hab _ ih =>
    rcases List.mem_cons.1 hb with rfl | hb
    · exact ⟨_, List.mem_cons_self, hab⟩
    · obtain ⟨a, ha, hR⟩ := ih hb
      exact ⟨a, List.mem_cons_of_mem _ ha, hR⟩

namespace TypeTable

variable {t u v : TypeTable} {id other : TypeId} {s : Substitution} {depth : Nat}
  {x y : TypeId} {f : Entry → Entry}

/-- The second type is the first one with the arguments in place of the parameters. -/
structure Substituted (t : TypeTable) (s : Substitution) (x y : TypeId) : Prop where
  index_lt : x.index < t.size
  index_lt' : y.index < t.size
  arguments_lt : ∀ a ∈ s.arguments, a.index < t.size
  tree_eq : (∀ p ∈ s.parameters, t.tree p = .leaf p) → t.tree y = (t.tree x).replace (s.trees t)

theorem Substituted.mono (h : t.Substituted s x y) (hkeeps : t.Keeps u) :
    u.Substituted s x y where
  index_lt := Nat.lt_of_lt_of_le h.index_lt hkeeps.size_le
  index_lt' := Nat.lt_of_lt_of_le h.index_lt' hkeeps.size_le
  arguments_lt a ha := Nat.lt_of_lt_of_le (h.arguments_lt a ha) hkeeps.size_le
  tree_eq hleaf := by
    rw [hkeeps.tree_eq h.index_lt, hkeeps.tree_eq h.index_lt', hkeeps.trees_eq h.arguments_lt]
    exact h.tree_eq fun p hp => hkeeps.leaf_of_leaf (hleaf p hp)

/-- As trees, members that correspond differ in the leaves only. -/
theorem trees_of_corresponds {m m' : Members} (h : m.Corresponds (t.Substituted s) m')
    (hleaf : ∀ p ∈ s.parameters, t.tree p = .leaf p) :
    m'.trees t = (m.trees t).replace (s.trees t) := by
  have htree (x y : TypeId) (hxy : t.Substituted s x y) : t.tree y = (t.tree x).replace (s.trees t) :=
    hxy.tree_eq hleaf
  rw [Members.trees, Members.trees, MemberTrees.replace, MemberTrees.mk.injEq]
  refine ⟨?_, ?_, ?_⟩
  · rw [Option.map_map]
    exact map_eq_of_optionRel htree h.base
  · rw [List.map_map]
    exact map_eq_of_forall₂ htree h.interfaces
  · rw [List.map_map]
    refine map_eq_of_forall₂ (fun c c' hc => ?_) h.constructors
    rw [Function.comp_apply, List.map_map]
    refine map_eq_of_forall₂ (fun p p' hp => ?_) hc
    rw [Function.comp_apply, hp.name, htree _ _ hp.type]

theorem named_lt_of_corresponds {m : Members} {e : Entry} (h : e.members.Corresponds (t.Substituted s) m)
    {e' : Entry} : ∀ x ∈ (e'.withMembers m).named, x.index < t.size := by
  intro x hx
  rcases Entry.mem_named.1 hx with hx | hx | ⟨c, hc, p, hp, rfl⟩
  · obtain ⟨a, -, hab⟩ := exists_of_optionRel h.base hx
    exact hab.index_lt'
  · obtain ⟨a, -, hab⟩ := exists_of_forall₂ h.interfaces hx
    exact hab.index_lt'
  · obtain ⟨a, -, hac⟩ := exists_of_forall₂ h.constructors hc
    obtain ⟨b, -, hbp⟩ := exists_of_forall₂ hac hp
    exact hbp.type.index_lt'

/-! ## Making types -/

/-- What asking for a shape makes of a table: the type is there, and if it is new, nothing is known
    of it yet. -/
structure Interned (t : TypeTable) (shape : Shape) (depth : Nat) (id : TypeId) (u : TypeTable) :
    Prop where
  growth : t.Extends u
  sound : u.Sound
  index_lt : id.index < u.size
  shape_eq : u.shape id = shape
  entry_eq : ∀ {other : TypeId}, other.index < t.size → u.entry other = t.entry other
  entry_new : ∀ {other : TypeId}, t.size ≤ other.index → other.index < u.size →
    other = id ∧ u.entry other = { shape, depth }

theorem Interned.keeps {shape : Shape} (h : Interned t shape depth id u) : t.Keeps u :=
  .of_extends h.growth

theorem Sound.interned (h : t.Sound) {shape : Shape} (hparts : ∀ p ∈ shape.parts, p.index < t.size)
    (hproper : shape.isProper = true) (hbuilt : shape.isBuilt = true) (depth : Nat) :
    Interned t shape depth (t.intern shape depth).1 (t.intern shape depth).2 where
  growth := Growth.intern t shape depth hbuilt
  sound := h.intern hparts hproper depth
  index_lt := h.intern_lt shape depth
  shape_eq := h.recorded.shape_intern shape depth
  entry_eq {other} hother := by
    rw [TypeTable.intern]
    split
    · rfl
    · exact entry_push_of_lt hother
  entry_new {other} hle hlt := by
    rw [TypeTable.intern] at hlt ⊢
    split at hlt
    · exact absurd hlt (Nat.not_lt.2 hle)
    · rw [size_push] at hlt
      obtain rfl : other = ⟨t.size⟩ := by
        cases other
        exact congrArg TypeId.mk (Nat.le_antisymm (Nat.le_of_lt_succ hlt) hle)
      exact ⟨rfl, entry_push_self t shape depth⟩

/-- The invariant is one of sound tables, and is kept by what replacing type parameters and filling
    in members do to a table. -/
structure Admits (I : TypeTable → Prop) : Prop where
  sound : ∀ {t}, I t → t.Sound
  intern : ∀ {t : TypeTable} {shape : Shape} (depth : Nat), I t → shape.isBuilt = true →
    shape.isProper = true → (∀ p ∈ shape.parts, p.index < t.size) →
    (∀ {generic arguments}, shape = .constructed generic arguments →
      ∃ id arguments', t.shape id = .constructed generic arguments') → I (t.intern shape depth).2
  update : ∀ {t : TypeTable} (id : TypeId) {f : Entry → Entry}, I t → (∀ e, (f e).shape = e.shape) →
    (∀ other ∈ (f (t.entry id)).named, other.index < t.size) → I (t.update id f)

theorem admits_sound : Admits Sound where
  sound h := h
  intern depth h _ hproper hparts _ := h.intern hparts hproper depth
  update id _ h hshape hnamed := h.update id hshape hnamed

/-! ## Changing one entry -/

theorem keeps_update (t : TypeTable) (id : TypeId)
    (hshape : ∀ e, (f e).shape = e.shape) : t.Keeps (t.update id f) where
  size_le := Nat.le_of_eq (Sound.size_update t id f).symm
  shape_eq {other} hother := by
    rw [update_eq, shape, entry_mapIdx t hother]
    split
    · exact hshape _
    · rfl

theorem entry_update (t : TypeTable) {id other : TypeId} (f : Entry → Entry)
    (hother : other.index < t.size) :
    (t.update id f).entry other = if id = other then f (t.entry other) else t.entry other := by
  rw [update_eq, entry_mapIdx t hother]
  cases id; cases other
  simp only [TypeId.mk.injEq]

theorem entry_update_of_ne (hne : id ≠ other) :
    (t.update id f).entry other = t.entry other := by
  by_cases hlt : other.index < t.size
  · rw [entry_update t f hlt, if_neg hne]
  · rw [entry_of_le (Nat.not_lt.1 hlt), entry_of_le (by rw [Sound.size_update]; exact Nat.not_lt.1 hlt)]

theorem entry_update_self (hlt : id.index < t.size) :
    (t.update id f).entry id = f (t.entry id) := by
  rw [entry_update t f hlt, if_pos rfl]

theorem shape_update (t : TypeTable) (id other : TypeId)
    (hf : ∀ e, (f e).shape = e.shape) : (t.update id f).shape other = t.shape other := by
  by_cases hother : other.index < t.size
  · exact (keeps_update t id hf).shape_eq hother
  · rw [shape_of_le (Nat.not_lt.1 hother), shape_of_le]
    rw [Sound.size_update]
    exact Nat.not_lt.1 hother

/-! ## Replacing type parameters -/

theorem lookup_zip [DecidableEq α] (as : List α) (bs : List β) (a : α) :
    (as.zip bs).lookup a = (as.idxOf? a).bind (bs[·]?) := by
  induction as generalizing bs with
  | nil => rfl
  | cons a' as ih =>
    cases bs with
    | nil => cases List.idxOf? a (a' :: as) <;> rfl
    | cons b bs =>
      rw [List.zip_cons_cons, List.lookup_cons, List.idxOf?_cons, ih]
      by_cases heq : a = a'
      · simp [heq]
      · have hne : (a == a') = false := beq_eq_false_iff_ne.2 heq
        have hne' : (a' == a) = false := beq_eq_false_iff_ne.2 (Ne.symm heq)
        rw [hne, hne']
        cases as.idxOf? a <;> rfl

/-- A parameter is replaced by its argument. -/
theorem substituted_of_eq_some (hs : ∀ a ∈ s.arguments, a.index < t.size)
    (hx : x.index < t.size) (happly : s.apply? x = some y) : t.Substituted s x y := by
  obtain ⟨i, hi, rfl⟩ := Option.map_eq_some_iff.1 happly
  have hmem : x ∈ s.parameters := by
    by_contra hnot
    rw [List.idxOf?_eq_none_iff.2 hnot] at hi
    cases hi
  refine ⟨hx, ?_, hs, fun hleaf => ?_⟩
  · cases ha : s.arguments[i]? with
    | none => exact hx
    | some a => exact hs a (List.mem_of_getElem? ha)
  · rw [hleaf x hmem, TypeTree.replace, Substitution.trees, lookup_zip, hi, Option.bind_some,
      List.getElem?_map]
    cases s.arguments[i]? with
    | none => exact hleaf x hmem
    | some a => rfl

/-- Any other leaf is kept. -/
theorem substituted_leaf (hs : ∀ a ∈ s.arguments, a.index < t.size)
    (hx : x.index < t.size) (happly : s.apply? x = none) (htree : t.tree x = .leaf x) :
    t.Substituted s x x := by
  refine ⟨hx, hx, hs, fun _ => ?_⟩
  rw [htree, TypeTree.replace, Substitution.trees, lookup_zip, Option.map_eq_none_iff.1 happly]
  rfl

/-- A generic type is replaced by the same one with other arguments. -/
theorem Interned.substituted_constructed {generic : TypeId} {arguments arguments' : List TypeId}
    (h : Interned t (.constructed generic arguments') depth y u)
    (hs : ∀ a ∈ s.arguments, a.index < t.size) (hx : x.index < t.size)
    (hshape : t.shape x = .constructed generic arguments)
    (hall : List.Forall₂ (t.Substituted s) arguments arguments') : u.Substituted s x y where
  index_lt := Nat.lt_of_lt_of_le hx h.keeps.size_le
  index_lt' := h.index_lt
  arguments_lt a ha := Nat.lt_of_lt_of_le (hs a ha) h.keeps.size_le
  tree_eq hleaf := by
    rw [h.sound.tree_constructed ((h.keeps.shape_eq hx).trans hshape),
      h.sound.tree_constructed h.shape_eq, TypeTree.replace, List.map_map]
    exact congrArg _ (map_eq_of_forall₂ (fun a b hab => (hab.mono h.keeps).tree_eq hleaf) hall)

theorem Interned.substituted_array {element element' : TypeId} {rank : Nat}
    (h : Interned t (.array element' rank) depth y u) (hx : x.index < t.size)
    (hshape : t.shape x = .array element rank) (helement : t.Substituted s element element') :
    u.Substituted s x y where
  index_lt := Nat.lt_of_lt_of_le hx h.keeps.size_le
  index_lt' := h.index_lt
  arguments_lt a ha := Nat.lt_of_lt_of_le (helement.arguments_lt a ha) h.keeps.size_le
  tree_eq hleaf := by
    rw [h.sound.tree_array ((h.keeps.shape_eq hx).trans hshape), h.sound.tree_array h.shape_eq,
      TypeTree.replace, (helement.mono h.keeps).tree_eq hleaf]

namespace Admits

variable {I : TypeTable → Prop}

/-- Replacing type parameters gives the type with the arguments in their place. -/
theorem substitute (hI : Admits I) (depth : Nat) {x : TypeId} (ht : I t)
    (hs : ∀ a ∈ s.arguments, a.index < t.size) (hx : x.index < t.size) :
    Gives (fun t => t) I (fun u y => u.Substituted s x y) (TypeTable.substitute s depth x) t := by
  induction hindex : x.index using Nat.strongRecOn generalizing x t with
  | ind i ih =>
    have hsound := hI.sound ht
    rw [TypeTable.substitute]
    cases happly : s.apply? x with
    | some y => exact .pure ht (substituted_of_eq_some hs hx happly)
    | none =>
      have hpart {part : TypeId} (hpart : part ∈ (t.shape x).parts) (u : TypeTable) (hu : I u)
          (htu : t.Extends u) : Gives (fun t => t) I (fun v y => v.Substituted s part y)
            (if part.index < x.index then TypeTable.substitute s depth part else pure part) u := by
        rw [if_pos (hsound.older hpart)]
        exact ih _ (hindex ▸ hsound.older hpart) hu
          (fun a ha => Nat.lt_of_lt_of_le (hs a ha) htu.size_le)
          (Nat.lt_of_lt_of_le (hsound.part_lt hpart) htu.size_le) rfl
      have hproper := hsound.proper x
      refine .get_bind ?_
      cases hshape : t.shape x with
      | constructed generic arguments =>
        rw [hshape] at hpart hproper
        have harguments : Gives (fun t => t) I (fun u as => List.Forall₂ (u.Substituted s) arguments as)
            (arguments.mapM fun a =>
              if a.index < x.index then TypeTable.substitute s depth a else pure a) t :=
          .mapM (fun huv hab => hab.mono (.of_extends huv)) (fun a ha => hpart (List.mem_cons_of_mem _ ha)) ht
        refine harguments.bind fun arguments' u hu htu hall => ?_
        -- There are as many arguments as before, so the type is not the definition itself.
        have hne : arguments'.isEmpty = false := by
          cases hall with
          | nil => cases hproper
          | cons => rfl
        have hshape' : u.shape x = .constructed generic arguments := (htu.shape_eq hx).trans hshape
        have hparts : ∀ p ∈ (Shape.constructed generic arguments').parts, p.index < u.size := by
          intro p hp
          rcases List.mem_cons.1 hp with rfl | hp
          · exact (hI.sound hu).part_lt (hshape' ▸ List.mem_cons_self : p ∈ (u.shape x).parts)
          · obtain ⟨a, -, hap⟩ := exists_of_forall₂ hall hp
            exact hap.index_lt'
        have hinterned := (hI.sound hu).interned hparts (by rw [Shape.isProper, hne]; rfl) rfl depth
        simp only [construct, hne]
        refine ⟨hI.intern depth hu rfl (by rw [Shape.isProper, hne]; rfl) hparts ?_, hinterned.growth, ?_⟩
        · rintro _ _ ⟨⟩
          exact ⟨x, arguments, hshape'⟩
        · exact hinterned.substituted_constructed
            (fun a ha => Nat.lt_of_lt_of_le (hs a ha) htu.size_le)
            (Nat.lt_of_lt_of_le hx htu.size_le) hshape' hall
      | array element rank =>
        rw [hshape] at hpart hproper
        have helement := hpart List.mem_cons_self t ht (.refl t)
        have holder : element.index < x.index :=
          hsound.older (hshape ▸ List.mem_cons_self : element ∈ (t.shape x).parts)
        dsimp only
        rw [if_pos holder] at helement ⊢
        refine helement.bind fun element' u hu htu helement => ?_
        have hparts : ∀ p ∈ (Shape.array element' rank).parts, p.index < u.size := fun p hp =>
          List.mem_singleton.1 hp ▸ helement.index_lt'
        have hinterned := (hI.sound hu).interned hparts hproper rfl depth
        simp only [TypeTable.array, Nat.max_eq_left (of_decide_eq_true hproper)]
        refine ⟨hI.intern depth hu rfl hproper hparts (by rintro _ _ ⟨⟩), hinterned.growth, ?_⟩
        exact hinterned.substituted_array (Nat.lt_of_lt_of_le hx htu.size_le)
          ((htu.shape_eq hx).trans hshape) helement
      | _ => exact .pure ht (substituted_leaf hs hx happly (by rw [tree, hshape]))

end Admits

/-- The members of a definition with the arguments in place of the parameters. -/
def members (s : Substitution) (depth : Nat) (declared : Entry) : StateM TypeTable Members := do
  let base ← declared.base.mapM (substitute s depth)
  let interfaces ← declared.interfaces.mapM (substitute s depth)
  let constructors ← declared.constructors.mapM (substituteSignature s depth)
  return ⟨base, interfaces, constructors⟩

/-- All members are replaced one by one. -/
theorem Admits.members {I : TypeTable → Prop} (hI : Admits I) (depth : Nat) (declared : Entry) (ht : I t)
    (hs : ∀ a ∈ s.arguments, a.index < t.size) (hdeclared : ∀ x ∈ declared.named, x.index < t.size) :
    Gives (fun t => t) I (fun u m => declared.members.Corresponds (u.Substituted s) m)
      (TypeTable.members s depth declared) t := by
  have hsubstitute {x : TypeId} (hx : x ∈ declared.named) (u : TypeTable) (hu : I u) (htu : t.Extends u) :
      Gives (fun t => t) I (fun v y => v.Substituted s x y) (TypeTable.substitute s depth x) u :=
    hI.substitute depth hu (fun a ha => Nat.lt_of_lt_of_le (hs a ha) htu.size_le)
      (Nat.lt_of_lt_of_le (hdeclared x hx) htu.size_le)
  have hbase : Gives (fun t => t) I (fun u b => Option.Rel (u.Substituted s) declared.base b)
      (declared.base.mapM (TypeTable.substitute s depth)) t :=
    .option_mapM (fun x hx => hsubstitute (Entry.mem_named.2 (.inl hx)) t ht (.refl t)) ht
  refine hbase.bind fun base u hu htu hbase => ?_
  have hinterfaces : Gives (fun t => t) I
      (fun v is => List.Forall₂ (v.Substituted s) declared.interfaces is)
      (declared.interfaces.mapM (TypeTable.substitute s depth)) u :=
    .mapM (fun huv hab => hab.mono (.of_extends huv)) (fun x hx v hv huv =>
      hsubstitute (Entry.mem_named.2 (.inr (.inl hx))) v hv (Growth.trans htu huv)) hu
  refine hinterfaces.bind fun interfaces v hv huv hinterfaces => ?_
  let alike (w : TypeTable) (c c' : Signature) : Prop :=
    List.Forall₂ (ParameterSymbol.Corresponds (w.Substituted s)) c.parameters c'.parameters
  have hmono {w w' : TypeTable} (hw : w.Extends w') {p p' : ParameterSymbol}
      (hp : p.Corresponds (w.Substituted s) p') : p.Corresponds (w'.Substituted s) p' :=
    ⟨hp.name, hp.type.mono (.of_extends hw)⟩
  have hconstructors : Gives (fun t => t) I
      (fun w cs => List.Forall₂ (alike w) declared.constructors cs)
      (declared.constructors.mapM (substituteSignature s depth)) v := by
    refine .mapM (fun hw hcc => hcc.imp fun p p' hp => hmono hw hp) (fun c hc w hw hvw => ?_) hv
    have hparameters : Gives (fun t => t) I
        (fun w ps => List.Forall₂ (ParameterSymbol.Corresponds (w.Substituted s)) c.parameters ps)
        (c.parameters.mapM fun p => return { p with type := ← TypeTable.substitute s depth p.type }) w := by
      refine .mapM (fun hw hp => hmono hw hp) (fun p hp w' hw' hww' => ?_) hw
      exact (hsubstitute (Entry.mem_named.2 (.inr (.inr ⟨c, hc, p, hp, rfl⟩))) w' hw'
        (Growth.trans (Growth.trans htu huv) (Growth.trans hvw hww'))).bind fun y w'' hw'' _ hy => .pure hw'' ⟨rfl, hy⟩
    exact hparameters.bind fun ps w' hw' _ hps => .pure hw' hps
  refine hconstructors.bind fun constructors w hw hvw hconstructors => .pure hw ?_
  exact ⟨optionRel_imp (fun x y hxy => hxy.mono (.of_extends (Growth.trans huv hvw))) hbase,
    hinterfaces.imp fun x y hxy => hxy.mono (.of_extends hvw), hconstructors⟩

/-! ## Filling in one type -/

/-- The table with the type marked as filled in. -/
def marked (t : TypeTable) (id : TypeId) : TypeTable := t.update id ({ · with instantiated := true })

/-- The table with the members of the type filled in. A type with arguments gets the members of its
    definition, and an array the base of arrays. -/
def withMembersOf (t : TypeTable) (id : TypeId) : TypeTable :=
  match t.shape id with
  | .constructed generic arguments =>
    let depth := (t.entry id).depth
    if depth < maxInstantiationDepth then
      let r := members ⟨t.typeParameters generic, arguments⟩ (depth + 1) (t.entry generic) t
      r.2.update id (.withMembers r.1)
    else t
  | .array _ _ => t.update id ({ · with base := t.lookup arrayBaseName })
  | _ => t

theorem instantiate_eq (id : TypeId) (t : TypeTable) :
    (instantiate id t).2 = (t.marked id).withMembersOf id := by
  have hrun : instantiate id t = (match (t.marked id).shape id with
      | .constructed generic arguments =>
        if ((t.marked id).entry id).depth < maxInstantiationDepth then do
          let r ← members ⟨(t.marked id).typeParameters generic, arguments⟩
            (((t.marked id).entry id).depth + 1) ((t.marked id).entry generic)
          modify (·.update id (.withMembers r))
        else return
      | .array _ _ => modify (·.update id ({ · with base := (t.marked id).lookup arrayBaseName }))
      | _ => return : StateM TypeTable Unit) (t.marked id) := rfl
  rw [hrun, withMembersOf]
  cases (t.marked id).shape id with
  | constructed generic arguments =>
    dsimp only
    split <;> rfl
  | _ => rfl

theorem entry_marked (t : TypeTable) {other : TypeId} (hother : other.index < t.size) :
    (t.marked id).entry other
      = if id = other then { t.entry other with instantiated := true } else t.entry other :=
  entry_update t _ hother

theorem size_marked (t : TypeTable) (id : TypeId) : (t.marked id).size = t.size :=
  Sound.size_update t id _

theorem shape_marked (t : TypeTable) (id other : TypeId) : (t.marked id).shape other = t.shape other :=
  shape_update t id other fun _ => rfl

theorem Admits.instantiate {I : TypeTable → Prop} (hI : Admits I) (ht : I t) (id : TypeId) :
    I (instantiate id t).2 := by
  have hmarked : I (t.marked id) :=
    hI.update id ht (fun _ => rfl) fun other hother => (hI.sound ht).named hother
  have hsound := hI.sound hmarked
  rw [instantiate_eq, withMembersOf]
  split
  · next generic arguments hshape =>
    dsimp only
    split
    · have harguments : ∀ a ∈ arguments, a.index < (t.marked id).size := fun a ha =>
        hsound.part_lt (hshape ▸ List.mem_cons_of_mem _ ha : a ∈ ((t.marked id).shape id).parts)
      have hmembers := hI.members (s := ⟨(t.marked id).typeParameters generic, arguments⟩)
        (((t.marked id).entry id).depth + 1) ((t.marked id).entry generic) hmarked harguments
        fun x hx => hsound.named hx
      exact hI.update id hmembers.inv (fun _ => rfl) (named_lt_of_corresponds hmembers.value)
    · exact hmarked
  · refine hI.update id hmarked (fun _ => rfl) fun other hother => ?_
    rcases Entry.mem_named.1 hother with hother | hother | hother
    · exact index_lt_of_lookup hother
    · exact hsound.named (Entry.mem_named.2 (.inr (.inl hother)))
    · exact hsound.named (Entry.mem_named.2 (.inr (.inr hother)))
  · exact hmarked

theorem Admits.visit {I : TypeTable → Prop} (hI : Admits I) (ht : I t) (i : Nat) : I (t.visit i) := by
  rw [TypeTable.visit]
  split
  · exact ht
  · exact hI.instantiate ht ⟨i⟩

/-- Completing keeps a table sound. -/
theorem Sound.complete (h : t.Sound) : t.complete.Sound :=
  complete_induct (fun _ i _ hu => admits_sound.visit hu i)
    (fun _ hu => hu.change (fun _ _ => rfl) fun _ hother => hu.named hother) h

end TypeTable

end SettingsLint
