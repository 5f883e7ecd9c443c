import SettingsLint.Proofs.Types.Completion
import SettingsLint.Proofs.Types.Origins

/-! # What generic types inherit from their definitions

After completion a generic type with arguments has the members of its definition, with the arguments
in place of the type parameters, unless it is too deep (`TypeTable.Derives`). Completion brings this
about for every type it goes to. It lasts as long as the members of definitions stay as they are: so
completion may be run again after new types were put behind the old ones (`TypeTable.Beyond`).
-/

namespace SettingsLint.TypeTable

variable {t u start : TypeTable} {id : TypeId} {shape : Shape} {depth : Nat}

/-! ## Regular tables -/

/-- The table is sound, only definitions are given arguments, only type parameters are replaced, and
    special types are types of the table. -/
structure Regular (t : TypeTable) : Prop extends t.Sound where
  generic : ∀ {id generic : TypeId} {arguments : List TypeId},
    t.shape id = .constructed generic arguments → t.isDefinition generic = true
  parameter : ∀ {id p : TypeId}, p ∈ t.typeParameters id → (t.shape p).isBuilt = false
  special : ∀ p ∈ t.specials, p.2.index < t.size

theorem mem_parts_of_typeParameters {p : TypeId} (h : p ∈ t.typeParameters id) :
    p ∈ (t.shape id).parts := by
  rw [typeParameters] at h
  cases hshape : t.shape id with
  | definition => rw [hshape] at h; exact List.mem_append_right _ h
  | _ => rw [hshape] at h; cases h

theorem typeParameters_congr (h : u.shape id = t.shape id) : u.typeParameters id = t.typeParameters id := by
  rw [typeParameters, typeParameters, h]

/-- A table stays regular if the new types are as they should be. -/
theorem Regular.of_keeps (h : t.Regular) (hkeeps : t.Keeps u) (hspecials : u.specials = t.specials)
    (hsound : u.Sound)
    (hgeneric : ∀ {id generic arguments}, t.size ≤ id.index →
      u.shape id = .constructed generic arguments → t.isDefinition generic = true)
    (hparameter : ∀ {id p : TypeId}, t.size ≤ id.index → p ∈ u.typeParameters id →
      (u.shape p).isBuilt = false) : u.Regular where
  toSound := hsound
  generic {id generic arguments} hshape := by
    refine (hkeeps.isDefinition ?_).2
    by_cases hid : id.index < t.size
    · exact h.generic ((hkeeps.shape_eq hid).symm.trans hshape)
    · exact hgeneric (Nat.not_lt.1 hid) hshape
  parameter {id p} hp := by
    by_cases hid : id.index < t.size
    · rw [typeParameters_congr (hkeeps.shape_eq hid)] at hp
      rw [hkeeps.shape_eq (h.part_lt (mem_parts_of_typeParameters hp))]
      exact h.parameter hp
    · exact hparameter (Nat.not_lt.1 hid) hp
  special p hp := Nat.lt_of_lt_of_le (h.special p (hspecials ▸ hp)) hkeeps.size_le

theorem Regular.push (h : t.Regular) (hsound : (t.push shape depth).2.Sound)
    (hgeneric : ∀ {generic arguments}, shape = .constructed generic arguments →
      t.isDefinition generic = true)
    (hparameter : ∀ {name namespaceName unique containing kind parameters},
      shape = .definition name namespaceName unique containing kind parameters →
      ∀ p ∈ parameters, p.index < t.size ∧ (t.shape p).isBuilt = false) :
    (t.push shape depth).2.Regular := by
  have hshape {id : TypeId} (hid : t.size ≤ id.index) :
      (t.push shape depth).2.shape id = shape ∨ (t.push shape depth).2.shape id = .error "" := by
    rcases Nat.lt_or_eq_of_le hid with hlt | heq
    · exact .inr (shape_of_le (by rw [size_push]; exact hlt))
    · obtain rfl : id = ⟨t.size⟩ := congrArg TypeId.mk heq.symm
      exact .inl (shape_push_self t shape depth)
  refine h.of_keeps (.push t shape depth) rfl hsound (fun hid hother => ?_) fun {id p} hid hp => ?_
  · rcases hshape hid with heq | heq <;> rw [heq] at hother
    · exact hgeneric hother
    · cases hother
  · rw [typeParameters] at hp
    rcases hshape hid with heq | heq <;> rw [heq] at hp
    · cases shape with
      | definition =>
        obtain ⟨hlt, hbuilt⟩ := hparameter rfl p hp
        rwa [(Keeps.push t _ depth).shape_eq hlt]
      | _ => cases hp
    · cases hp

theorem Regular.intern (h : t.Regular) (hbuilt : shape.isBuilt = true) (hproper : shape.isProper = true)
    (hparts : ∀ p ∈ shape.parts, p.index < t.size)
    (hgeneric : ∀ {generic arguments}, shape = .constructed generic arguments →
      t.isDefinition generic = true) (depth : Nat) : (t.intern shape depth).2.Regular := by
  have hsound := h.toSound.intern hparts hproper depth
  rw [TypeTable.intern] at hsound ⊢
  split at hsound
  · exact h
  · exact h.push hsound hgeneric fun heq => by rw [heq] at hbuilt; cases hbuilt

theorem Regular.update (h : t.Regular) (id : TypeId) {f : Entry → Entry}
    (hshape : ∀ e, (f e).shape = e.shape)
    (hnamed : ∀ other ∈ (f (t.entry id)).named, other.index < t.size) : (t.update id f).Regular := by
  have hnew {other : TypeId} (hother : t.size ≤ other.index) :
      (t.update id f).shape other = .error "" := by
    rw [shape_update t id other hshape, shape_of_le hother]
  refine h.of_keeps (keeps_update t id hshape) rfl (h.toSound.update id hshape hnamed)
    (fun hother heq => ?_) fun hother hp => ?_
  · rw [hnew hother] at heq
    cases heq
  · rw [typeParameters, hnew hother] at hp
    cases hp

theorem admits_regular : Admits Regular where
  sound h := h.toSound
  intern depth h hbuilt hproper hparts hgeneric := by
    refine h.intern hbuilt hproper hparts (fun heq => ?_) depth
    obtain ⟨id, arguments, hshape⟩ := hgeneric heq
    exact h.generic hshape
  update id _ h hshape hnamed := h.update id hshape hnamed

/-! ## Members with arguments in place of parameters -/

/-- If the type is generic and not too deep, its members are those of its definition, with its
    arguments in place of the type parameters. -/
def Derives (t : TypeTable) (id : TypeId) : Prop :=
  ∀ (generic : TypeId) (arguments : List TypeId), t.shape id = .constructed generic arguments →
    (t.entry id).depth < maxInstantiationDepth →
    (t.entry id).members.trees t = ((t.entry generic).members.trees t).replace
      ((t.typeParameters generic).zip (arguments.map t.tree))

/-- A type keeps deriving from its definition as long as the members of both stay as they are. -/
theorem Derives.of_keeps (h : t.Derives id) (ht : t.Regular) (hkeeps : t.Keeps u)
    (hid : id.index < t.size) (hdepth : (u.entry id).depth = (t.entry id).depth)
    (hself : (u.entry id).members = (t.entry id).members)
    (hdefinition : ∀ {other : TypeId}, t.isDefinition other = true →
      (u.entry other).members = (t.entry other).members) : u.Derives id := by
  intro generic arguments hshape hlt
  rw [hkeeps.shape_eq hid] at hshape
  have hgeneric := ht.generic hshape
  have hinside := (hkeeps.isDefinition hgeneric).1
  have harguments : ∀ a ∈ arguments, a.index < t.size := fun a ha =>
    ht.part_lt (hshape ▸ List.mem_cons_of_mem _ ha : a ∈ (t.shape id).parts)
  have htrees : arguments.map u.tree = arguments.map t.tree :=
    List.map_congr_left fun a ha => hkeeps.tree_eq (harguments a ha)
  rw [hself, hdefinition hgeneric, hkeeps.memberTrees_eq fun x hx => ht.named hx,
    hkeeps.memberTrees_eq fun x hx => ht.named hx, typeParameters_congr (hkeeps.shape_eq hinside), htrees]
  exact h generic arguments hshape (hdepth ▸ hlt)

/-- Filling in the members of a type makes it derive from its definition. -/
theorem derives_instantiate (h : t.Regular) (hid : id.index < t.size) :
    (instantiate id t).2.Derives id := by
  intro generic arguments hshape hdepth
  have hregular := admits_regular.instantiate h id
  rw [(walks_instantiate (R := Extends) id t).shape_eq hid, ← shape_marked t id] at hshape
  rw [(instantiates_instantiate hid).depth_eq, ← (instantiates_marked hid).depth_eq] at hdepth
  have hmarked : (t.marked id).Regular :=
    h.update id (fun _ => rfl) fun other hother => h.named hother
  have hparts {part : TypeId} (hpart : part ∈ generic :: arguments) : part.index < id.index :=
    hmarked.older (hshape ▸ hpart : part ∈ ((t.marked id).shape id).parts)
  have hinside : id.index < (t.marked id).size := by rwa [size_marked]
  let s : Substitution := ⟨(t.marked id).typeParameters generic, arguments⟩
  have hvalue := (admits_regular.members (s := s) (((t.marked id).entry id).depth + 1)
    ((t.marked id).entry generic) hmarked
    (fun a ha => Nat.lt_trans (hparts (List.mem_cons_of_mem _ ha)) hinside) fun x hx => hmarked.named hx).value
  have hspawns := spawns_members s (((t.marked id).entry id).depth + 1)
    ((t.marked id).entry generic) (t.marked id)
  rw [instantiate_eq, withMembersOf, hshape] at hregular ⊢
  dsimp only at hregular ⊢
  rw [if_pos hdepth] at hregular ⊢
  generalize members s (((t.marked id).entry id).depth + 1) ((t.marked id).entry generic)
    (t.marked id) = r at hvalue hspawns hregular ⊢
  -- The members are filled in last, which leaves the definition alone.
  have hkeeps : r.2.Keeps (r.2.update id (.withMembers r.1)) := keeps_update r.2 id fun _ => rfl
  have hgeneric : generic.index < (t.marked id).size := Nat.lt_trans (hparts List.mem_cons_self) hinside
  have hself : ((r.2.update id (.withMembers r.1)).entry id).members = r.1 := by
    rw [entry_update_self (Nat.lt_of_lt_of_le hinside hspawns.size_le)]
    rfl
  have hother : (r.2.update id (.withMembers r.1)).entry generic = (t.marked id).entry generic := by
    rw [entry_update_of_ne fun heq => Nat.lt_irrefl _ (heq ▸ hparts List.mem_cons_self),
      hspawns.entry_eq hgeneric]
  have hsame : (r.2.update id (.withMembers r.1)).typeParameters generic
      = (t.marked id).typeParameters generic :=
    typeParameters_congr (congrArg Entry.shape hother)
  rw [hself, hother, hsame]
  refine trees_of_corresponds (s := s) ?_ fun p hp => tree_of_not_isBuilt ?_
  · exact {
      base := optionRel_imp (fun x y hxy => hxy.mono hkeeps) hvalue.base
      interfaces := hvalue.interfaces.imp fun x y hxy => hxy.mono hkeeps
      constructors := hvalue.constructors.imp fun c c' hc =>
        hc.imp fun p p' hp => ⟨hp.name, hp.type.mono hkeeps⟩ }
  · have hparameter : p ∈ (r.2.update id (.withMembers r.1)).typeParameters generic := by
      rw [hsame]
      exact hp
    exact hregular.parameter hparameter

/-! ## Completion -/

/-- The types that completion has been to derive from their definitions. -/
structure Derived (t : TypeTable) : Prop extends t.Regular where
  derives : ∀ {id : TypeId}, (t.entry id).instantiated = true → t.Derives id

/-- Filling in changes no members of definitions. -/
theorem members_instantiate (hid : id.index < t.size) {other : TypeId}
    (hother : t.isDefinition other = true) :
    ((instantiate id t).2.entry other).members = (t.entry other).members := by
  by_cases heq : other = id
  · subst heq
    obtain ⟨_, _, _, _, _, _, hshape⟩ := exists_definition hother
    rw [instantiate_eq, withMembersOf, shape_marked, hshape, entry_marked t hid, if_pos rfl]
    rfl
  · have hlt := ((Keeps.refl t).isDefinition hother).1
    rw [(instantiates_instantiate hid).entry_eq hlt heq]

theorem Derived.visit (h : t.Derived) {i : Nat} (hi : i < t.size) : (t.visit i).Derived := by
  rw [TypeTable.visit]
  split
  · exact h
  · have hinstantiates : Instantiates ⟨i⟩ t (instantiate ⟨i⟩ t).2 := instantiates_instantiate hi
    refine ⟨admits_regular.instantiate h.toRegular ⟨i⟩, fun {other} hmark => ?_⟩
    by_cases hself : other = ⟨i⟩
    · rw [hself]
      exact derives_instantiate h.toRegular hi
    · by_cases hold : other.index < t.size
      · have hentry := hinstantiates.entry_eq hold hself
        rw [hentry] at hmark
        exact (h.derives hmark).of_keeps h.toRegular (.of_extends (walks_instantiate ⟨i⟩ t)) hold
          (by rw [hentry]) (by rw [hentry]) (members_instantiate hi)
      · -- Completion has not been to a new type yet.
        by_cases hnew : other.index < (instantiate ⟨i⟩ t).2.size
        · rw [(hinstantiates.entry_new (Nat.not_lt.1 hold) hnew).2] at hmark
          cases hmark
        · rw [entry_of_le (Nat.not_lt.1 hnew)] at hmark
          cases hmark

theorem Derived.fillInterfaces (h : t.Derived) : t.fillInterfaces.Derived := by
  have hkeeps : t.Keeps t.fillInterfaces := .of_extends (.change (fun _ _ => rfl) fun _ _ => rfl)
  have hentry (id : TypeId) : (t.fillInterfaces.entry id).members = (t.entry id).members ∧
      (t.fillInterfaces.entry id).depth = (t.entry id).depth ∧
      (t.fillInterfaces.entry id).instantiated = (t.entry id).instantiated := by
    by_cases hid : id.index < t.size
    · rw [entry_fillInterfaces t hid]
      exact ⟨rfl, rfl, rfl⟩
    · rw [entry_of_le (Nat.not_lt.1 hid), entry_of_le (size_fillInterfaces t ▸ Nat.not_lt.1 hid)]
      exact ⟨rfl, rfl, rfl⟩
  have hout {id : TypeId} (hid : t.size ≤ id.index) : t.fillInterfaces.shape id = .error "" :=
    shape_of_le (size_fillInterfaces t ▸ hid)
  have hregular : t.fillInterfaces.Regular := by
    refine h.toRegular.of_keeps hkeeps rfl (h.change (fun _ _ => rfl) fun _ hother => h.named hother)
      (fun hid heq => ?_) fun hid hp => ?_
    · rw [hout hid] at heq
      cases heq
    · rw [typeParameters, hout hid] at hp
      cases hp
  refine ⟨hregular, fun {id} hmark => ?_⟩
  rw [(hentry id).2.2] at hmark
  by_cases hid : id.index < t.size
  · exact (h.derives hmark).of_keeps h.toRegular hkeeps hid (hentry id).2.1 (hentry id).1
      fun {other} _ => (hentry other).1
  · rw [entry_of_le (Nat.not_lt.1 hid)] at hmark
    cases hmark

theorem Derived.complete (h : t.Derived) : t.complete.Derived :=
  complete_induct (fun _ _ hi ht => ht.visit hi) (fun _ ht => ht.fillInterfaces) h

/-- After completion all types derive from their definitions. -/
theorem Derived.derives_complete (h : t.Derived) (hrested : t.Rested) (id : TypeId) :
    t.complete.Derives id := by
  by_cases hid : id.index < t.complete.size
  · exact h.complete.derives (hrested.instantiated_complete hid)
  · intro generic arguments hshape
    rw [shape_of_le (Nat.not_lt.1 hid)] at hshape
    cases hshape

/-! ## Types behind others -/

/-- Types have been put behind those of `start`, which are as they were, and completion has not been
    to the new ones. So of these only definitions have anything but their shape. -/
structure Beyond (start t : TypeTable) : Prop extends t.Regular where
  size_le : start.size ≤ t.size
  entry_eq : ∀ {id : TypeId}, id.index < start.size → t.entry id = start.entry id
  fresh : ∀ {id : TypeId}, start.size ≤ id.index →
    (t.entry id).instantiated = false ∧ (t.entry id).depth = 0
  bare : ∀ {id : TypeId}, start.size ≤ id.index → t.isDefinition id = false →
    t.entry id = { shape := t.shape id }

namespace Beyond

theorem refl (h : t.Regular) : Beyond t t where
  toRegular := h
  size_le := Nat.le_refl _
  entry_eq _ := rfl
  fresh hid := by
    rw [entry_of_le hid]
    exact ⟨rfl, rfl⟩
  bare hid _ := by
    rw [shape_of_le hid, entry_of_le hid]
    rfl

theorem push (h : Beyond start t) (hregular : (t.push shape).2.Regular) :
    Beyond start (t.push shape).2 where
  toRegular := hregular
  size_le := by
    rw [size_push]
    exact Nat.le_succ_of_le h.size_le
  entry_eq hid := (entry_push_of_lt (Nat.lt_of_lt_of_le hid h.size_le)).trans (h.entry_eq hid)
  fresh {id} hid := by
    rcases Nat.lt_trichotomy id.index t.size with hlt | heq | hgt
    · rw [entry_push_of_lt hlt]
      exact h.fresh hid
    · obtain rfl : id = ⟨t.size⟩ := congrArg TypeId.mk heq
      rw [entry_push_self]
      exact ⟨rfl, rfl⟩
    · rw [entry_of_le (by rw [size_push]; exact hgt)]
      exact ⟨rfl, rfl⟩
  bare {id} hid hother := by
    rcases Nat.lt_trichotomy id.index t.size with hlt | heq | hgt
    · rw [isDefinition, metadataName?, (Keeps.push t shape 0).shape_eq hlt] at hother
      rw [(Keeps.push t shape 0).shape_eq hlt, entry_push_of_lt hlt]
      exact h.bare hid hother
    · obtain rfl : id = ⟨t.size⟩ := congrArg TypeId.mk heq
      rw [shape_push_self, entry_push_self]
    · rw [TypeTable.shape, entry_of_le (by rw [size_push]; exact hgt)]
      rfl

theorem intern (h : Beyond start t) (hbuilt : shape.isBuilt = true) (hproper : shape.isProper = true)
    (hparts : ∀ p ∈ shape.parts, p.index < t.size)
    (hgeneric : ∀ {generic arguments}, shape = .constructed generic arguments →
      t.isDefinition generic = true) : Beyond start (t.intern shape).2 := by
  have hregular := h.toRegular.intern hbuilt hproper hparts hgeneric 0
  rw [TypeTable.intern] at hregular ⊢
  split at hregular
  · exact h
  · exact h.push hregular

theorem update (h : Beyond start t) (hid : start.size ≤ id.index) (hdefinition : t.isDefinition id = true)
    {f : Entry → Entry} (hshape : ∀ e, (f e).shape = e.shape) (hdepth : ∀ e, (f e).depth = e.depth)
    (hmark : ∀ e, (f e).instantiated = e.instantiated)
    (hnamed : ∀ other ∈ (f (t.entry id)).named, other.index < t.size) : Beyond start (t.update id f) where
  toRegular := h.toRegular.update id hshape hnamed
  size_le := by
    rw [Sound.size_update]
    exact h.size_le
  entry_eq {other} hother := by
    rw [entry_update_of_ne fun heq : id = other => Nat.not_lt.2 hid (heq ▸ hother)]
    exact h.entry_eq hother
  fresh {other} hother := by
    have hrested : ((t.update id f).entry other).instantiated = (t.entry other).instantiated ∧
        ((t.update id f).entry other).depth = (t.entry other).depth := by
      by_cases heq : id = other
      · subst heq
        by_cases hlt : id.index < t.size
        · rw [entry_update_self hlt, hmark, hdepth]
          exact ⟨rfl, rfl⟩
        · rw [entry_of_le (Nat.not_lt.1 hlt),
            entry_of_le (by rw [Sound.size_update]; exact Nat.not_lt.1 hlt)]
          exact ⟨rfl, rfl⟩
      · rw [entry_update_of_ne heq]
        exact ⟨rfl, rfl⟩
    rw [hrested.1, hrested.2]
    exact h.fresh hother
  bare {other} hother hbuilt := by
    have hsame := shape_update t id other hshape
    rw [isDefinition, metadataName?, hsame] at hbuilt
    have hne : id ≠ other := fun heq => Bool.false_ne_true ((heq ▸ hbuilt).symm.trans hdefinition)
    rw [entry_update_of_ne hne, hsame]
    exact h.bare hother hbuilt

theorem setBase (h : Beyond start t) (hid : start.size ≤ id.index) (hdefinition : t.isDefinition id = true)
    {base : TypeId} (hbase : base.index < t.size) : Beyond start (t.setBase id base) :=
  h.update hid hdefinition (fun _ => rfl) (fun _ => rfl) (fun _ => rfl) fun _ hother =>
    (Entry.mem_named_setBase hother).elim (fun heq => heq ▸ hbase) h.named

theorem addInterface (h : Beyond start t) (hid : start.size ≤ id.index)
    (hdefinition : t.isDefinition id = true) {interface : TypeId}
    (hinterface : interface.index < t.size) : Beyond start (t.addInterface id interface) := by
  refine h.update hid hdefinition (fun e => ?_) (fun e => ?_) (fun e => ?_) fun _ hother =>
    (Entry.mem_named_addInterface hother).elim (fun heq => heq ▸ hinterface) h.named
  all_goals
    split <;> rfl

theorem addConstructor (h : Beyond start t) (hid : start.size ≤ id.index)
    (hdefinition : t.isDefinition id = true) {parameters : List ParameterSymbol} (hparameters : ∀ p ∈ parameters, p.type.index < t.size) :
    Beyond start (t.addConstructor id parameters) :=
  h.update hid hdefinition (fun _ => rfl) (fun _ => rfl) (fun _ => rfl) fun _ hother =>
    (Entry.mem_named_addConstructor hother).elim (fun ⟨p, hp, heq⟩ => heq ▸ hparameters p hp) h.named

theorem addProperty (h : Beyond start t) (hid : start.size ≤ id.index) (symbol : PropertySymbol) :
    Beyond start (t.addProperty id symbol) := by
  rw [TypeTable.addProperty]
  split
  · next hdefinition =>
    exact h.update hid hdefinition (fun _ => rfl) (fun _ => rfl) (fun _ => rfl)
      fun _ hother => h.named hother
  · exact h

theorem addNamespace (h : Beyond start t) (name : String) : Beyond start (t.addNamespace name) where
  toSound := h.toSound.addNamespace name
  generic := h.generic
  parameter := h.parameter
  special := h.special
  size_le := h.size_le
  entry_eq := h.entry_eq
  fresh := h.fresh
  bare := h.bare

theorem pushTypeParameters (names : List String) (h : Beyond start t) :
    Beyond start (t.pushTypeParameters names).2 ∧ ∀ p ∈ (t.pushTypeParameters names).1,
      ((t.pushTypeParameters names).2.shape p).isBuilt = false := by
  induction names generalizing t with
  | nil => exact ⟨h, List.forall_mem_nil _⟩
  | cons name names ih =>
    have hsound : (t.push (.typeParameter name)).2.Sound := by
      refine h.toSound.push (List.forall_mem_nil _) rfl ?_ 0
      nofun
    obtain ⟨hrest, hnames⟩ := ih (h.push (h.toRegular.push hsound nofun nofun))
    refine ⟨hrest, List.forall_mem_cons.2 ⟨?_, hnames⟩⟩
    show (((t.push (.typeParameter name)).2.pushTypeParameters names).2.shape ⟨t.size⟩).isBuilt = false
    rw [(keeps_pushTypeParameters names _).shape_eq (by rw [size_push]; exact Nat.lt_succ_self _),
      shape_push_self]
    rfl

theorem declare (h : Beyond start t) (namespaceName name : String) (kind : TypeKind)
    (parameters : List String) (containing : Option TypeId)
    (hcontaining : ∀ outer ∈ containing, outer.index < t.size) :
    Beyond start (t.declare namespaceName name kind parameters containing).2 := by
  have hsound := h.toSound.declare namespaceName name kind parameters hcontaining
  have hnamespace := h.addNamespace (t.ownNamespace namespaceName containing)
  obtain ⟨hmade, hbuilt⟩ := hnamespace.pushTypeParameters parameters
  have hinside := (hnamespace.toSound.pushTypeParameters parameters).2
  rw [declare_eq] at hsound ⊢
  refine hmade.push (hmade.toRegular.push hsound nofun ?_)
  rintro _ _ _ _ _ _ ⟨⟩ p hp
  exact ⟨hinside p hp, hbuilt p hp⟩

theorem rested (h : Beyond start t) (hstart : start.Rested) : t.Rested := by
  refine ⟨fun id => ?_, fun id hmark => ?_⟩ <;> by_cases hid : id.index < start.size
  · rw [h.entry_eq hid]
    exact hstart.depth_le id
  · rw [(h.fresh (Nat.not_lt.1 hid)).2]
    exact Nat.zero_le _
  · rw [h.entry_eq hid] at hmark ⊢
    exact hstart.depth_eq id hmark
  · exact (h.fresh (Nat.not_lt.1 hid)).2

theorem derived (h : Beyond start t) (hstart : start.Derived) : t.Derived := by
  refine ⟨h.toRegular, fun {id} hmark => ?_⟩
  by_cases hid : id.index < start.size
  · have hkeeps : start.Keeps t := ⟨h.size_le, fun hid => congrArg Entry.shape (h.entry_eq hid)⟩
    rw [h.entry_eq hid] at hmark
    refine (hstart.derives hmark).of_keeps hstart.toRegular hkeeps hid (by rw [h.entry_eq hid])
      (by rw [h.entry_eq hid]) fun hother => ?_
    rw [h.entry_eq (hkeeps.isDefinition hother).1]
  · rw [(h.fresh (Nat.not_lt.1 hid)).1] at hmark
    cases hmark

end Beyond

theorem regular_empty : TypeTable.empty.Regular where
  toSound := .empty
  generic hshape := by
    cases hshape
  parameter hp := by
    cases hp
  special := List.forall_mem_nil _

theorem derived_empty : TypeTable.empty.Derived where
  toRegular := regular_empty
  derives hmark := by
    cases hmark

end SettingsLint.TypeTable
