import SettingsLint.Proofs.Types.Identity

/-! # Completion comes to an end

Completion goes through the types of a table from the oldest to the newest and fills in their
members. This brings up new types, which are put behind the others, so the end of the table moves
away meanwhile. But a type that comes up is one step deeper than the one that brought it up, and
types at the limit bring up none. So the end is reached, and a second completion finds nothing to do.

`TypeTable.Sweeps i t u` says that going on from the `i`-th type of `t` ends with the table `u`.
`TypeTable.Progress` tells how deep the types are that are still to be visited.
-/

namespace SettingsLint

namespace TypeTable

variable {t u v : TypeTable} {id other : TypeId} {depth : Nat}

/-! ## Filling in one type -/

/-- The table has more types, all of them bare and at the depth, and no other change. -/
structure Spawns (depth : Nat) (t u : TypeTable) : Prop where
  size_le : t.size ≤ u.size
  entry_eq : ∀ {id : TypeId}, id.index < t.size → u.entry id = t.entry id
  entry_new : ∀ {id : TypeId}, t.size ≤ id.index → id.index < u.size →
    u.entry id = { shape := u.shape id, depth }

theorem Spawns.refl (t : TypeTable) : Spawns depth t t :=
  ⟨Nat.le_refl _, fun _ => rfl, fun hle hlt => absurd hlt (Nat.not_lt.2 hle)⟩

theorem Spawns.trans (h : Spawns depth t u) (g : Spawns depth u v) : Spawns depth t v where
  size_le := Nat.le_trans h.size_le g.size_le
  entry_eq hid := (g.entry_eq (Nat.lt_of_lt_of_le hid h.size_le)).trans (h.entry_eq hid)
  entry_new {id} hle hlt := by
    by_cases hid : id.index < u.size
    · rw [shape, g.entry_eq hid]
      exact h.entry_new hle hid
    · exact g.entry_new (Nat.not_lt.1 hid) hlt

instance : Chain (Spawns depth) := ⟨.refl, .trans⟩

theorem Spawns.intern (t : TypeTable) (shape : Shape) (depth : Nat) :
    Spawns depth t (t.intern shape depth).2 := by
  rw [TypeTable.intern]
  split
  · exact .refl t
  · refine ⟨by rw [size_push]; exact Nat.le_succ _, fun hid => entry_push_of_lt hid, ?_⟩
    intro id hle hlt
    rw [size_push] at hlt
    obtain rfl : id = ⟨t.size⟩ := by
      cases id
      exact congrArg TypeId.mk (Nat.le_antisymm (Nat.le_of_lt_succ hlt) hle)
    rw [TypeTable.shape, entry_push_self]

theorem spawns_members (s : Substitution) (depth : Nat) (declared : Entry) :
    Walks (Spawns depth) (members s depth declared) := by
  have hintern (t : TypeTable) (shape : Shape) (_ : shape.isBuilt = true) :
      Spawns depth t (t.intern shape depth).2 := .intern t shape depth
  refine (Walks.option_mapM _ (walks_substitute hintern s)).bind fun base => ?_
  refine (Walks.mapM _ (walks_substitute hintern s)).bind fun interfaces => ?_
  exact (Walks.mapM _ (walks_substituteSignature hintern s)).bind fun constructors => .pure _

/-- What filling in the members of a type does to a table: the type is marked and keeps its depth,
    and types that come up are one step deeper, which is not beyond the limit. -/
structure Instantiates (id : TypeId) (t u : TypeTable) : Prop where
  size_le : t.size ≤ u.size
  entry_eq : ∀ {other : TypeId}, other.index < t.size → other ≠ id → u.entry other = t.entry other
  marked : (u.entry id).instantiated = true
  depth_eq : (u.entry id).depth = (t.entry id).depth
  entry_new : ∀ {other : TypeId}, t.size ≤ other.index → other.index < u.size →
    (t.entry id).depth < maxInstantiationDepth ∧
      u.entry other = { shape := u.shape other, depth := (t.entry id).depth + 1 }

/-- New types come up first, and then the members of the type are filled in. -/
theorem Spawns.instantiates (hlt : id.index < t.size)
    (h : Spawns ((t.entry id).depth + 1) (t.marked id) u)
    (hmore : t.size < u.size → (t.entry id).depth < maxInstantiationDepth) {f : Entry → Entry}
    (hshape : ∀ e, (f e).shape = e.shape) (hdepth : ∀ e, (f e).depth = e.depth)
    (hmark : ∀ e, (f e).instantiated = e.instantiated) : Instantiates id t (u.update id f) := by
  have hsize : t.size ≤ u.size := size_marked t id ▸ h.size_le
  have hself : u.entry id = { t.entry id with instantiated := true } := by
    rw [h.entry_eq (size_marked t id ▸ hlt), entry_marked t hlt, if_pos rfl]
  have hself' : (u.update id f).entry id = f { t.entry id with instantiated := true } := by
    rw [entry_update_self (Nat.lt_of_lt_of_le hlt hsize), hself]
  exact {
    size_le := Nat.le_trans hsize (Nat.le_of_eq (Sound.size_update u id f).symm)
    entry_eq := fun {other} hother hne => by
      rw [entry_update_of_ne (Ne.symm hne), h.entry_eq (size_marked t id ▸ hother),
        entry_marked t hother, if_neg (Ne.symm hne)]
    marked := by rw [hself', hmark]
    depth_eq := by rw [hself', hdepth]
    entry_new := fun {other} hle hother => by
      rw [Sound.size_update] at hother
      have hne : id ≠ other := fun heq => Nat.not_lt.2 hle (heq ▸ hlt)
      rw [entry_update_of_ne hne, shape_update u id other hshape]
      exact ⟨hmore (Nat.lt_of_le_of_lt hle hother), h.entry_new (size_marked t id ▸ hle) hother⟩ }

theorem instantiates_marked (hlt : id.index < t.size) : Instantiates id t (t.marked id) where
  size_le := Nat.le_of_eq (size_marked t id).symm
  entry_eq hother hne := by rw [entry_marked t hother, if_neg (Ne.symm hne)]
  marked := by rw [entry_marked t hlt, if_pos rfl]
  depth_eq := by rw [entry_marked t hlt, if_pos rfl]
  entry_new hle hother := absurd (size_marked t id ▸ hother) (Nat.not_lt.2 hle)

theorem instantiates_instantiate (hlt : id.index < t.size) :
    Instantiates id t (instantiate id t).2 := by
  rw [instantiate_eq, withMembersOf]
  have hdepth : ((t.marked id).entry id).depth = (t.entry id).depth :=
    (instantiates_marked hlt).depth_eq
  split
  · dsimp only
    split
    · next hlevel =>
      rw [hdepth] at hlevel ⊢
      exact (spawns_members _ _ _ (t.marked id)).instantiates hlt (fun _ => hlevel) (fun _ => rfl)
        (fun _ => rfl) fun _ => rfl
    · exact instantiates_marked hlt
  · refine (Spawns.refl (t.marked id)).instantiates hlt (fun hmore => ?_) (fun _ => rfl) (fun _ => rfl)
      fun _ => rfl
    exact absurd (size_marked t id ▸ hmore) (Nat.lt_irrefl _)
  · exact instantiates_marked hlt

/-! ## Going through the types -/

/-- Going on from the `i`-th type up to the end of the table, wherever that is by then, ends with
    the table `u`. -/
inductive Sweeps : Nat → TypeTable → TypeTable → Prop where
  | done {i : Nat} {t : TypeTable} (h : t.size ≤ i) : Sweeps i t t
  | visit {i : Nat} {t u : TypeTable} (h : i < t.size) (rest : Sweeps (i + 1) (t.visit i) u) :
    Sweeps i t u

/-- A round is the part of a sweep up to the place where the table ended before the round. -/
theorem Sweeps.of_range {first stop : Nat} (hle : first ≤ stop) (hstop : stop ≤ t.size)
    (h : Sweeps stop (instantiateRange first stop t) u) : Sweeps first t u := by
  refine (instantiateRange_induct
    (P := fun i t' => stop ≤ t'.size ∧ ∀ u, Sweeps i t' u → Sweeps first t u)
    (fun i t' hi ht' => ⟨Nat.le_trans ht'.1 (growth_visit (R := Extends) t' i).size_le, fun u hu => ?_⟩) hle
    ⟨hstop, fun u hu => hu⟩).2 u h
  exact ht'.2 u (.visit (Nat.lt_of_lt_of_le hi ht'.1) hu)

/-- Rounds are part of a sweep. -/
theorem Sweeps.of_rounds (rounds : Nat) {first : Nat} (hle : first ≤ t.size)
    (h : ∀ last, Sweeps last (instantiateRounds rounds first t) u) : Sweeps first t u := by
  induction rounds generalizing first t with
  | zero => exact h first
  | succ rounds ih =>
    refine .of_range hle (Nat.le_refl _) (ih ?_ h)
    exact size_le_instantiateRange hle

/-- A sweep changes nothing once completion has been everywhere. -/
theorem Sweeps.of_instantiated (h : ∀ id : TypeId, id.index < t.size → (t.entry id).instantiated = true)
    (i : Nat) : Sweeps i t t := by
  induction hn : t.size - i generalizing i with
  | zero => exact .done (by omega)
  | succ n ih =>
    have hlt : i < t.size := by omega
    refine .visit hlt ?_
    rw [TypeTable.visit, if_pos (h ⟨i⟩ hlt)]
    exact ih (i + 1) (by omega)

/-! ## How deep the types are -/

/-- No type is too deep, and those that completion has not been to are not deep at all. -/
structure Rested (t : TypeTable) : Prop where
  depth_le : ∀ id : TypeId, (t.entry id).depth ≤ maxInstantiationDepth
  depth_eq : ∀ id : TypeId, (t.entry id).instantiated = false → (t.entry id).depth = 0

/-- How far completion has come: the types below `next` are done, those from there up to `stop` are
    at the level if they are not done, and those that came up meanwhile are one step deeper. -/
structure Progress (next stop level : Nat) (t : TypeTable) : Prop where
  stop_le : stop ≤ t.size
  depth_le : ∀ id : TypeId, (t.entry id).depth ≤ maxInstantiationDepth
  done : ∀ id : TypeId, id.index < next → (t.entry id).instantiated = true
  waiting : ∀ id : TypeId, id.index < stop → (t.entry id).instantiated = false →
    (t.entry id).depth = level
  new : ∀ id : TypeId, stop ≤ id.index → id.index < t.size → (t.entry id).depth = level + 1

namespace Progress

variable {next stop level : Nat}

theorem of_instantiates (h : Progress next stop level t) (hnext : next < stop)
    (hlevel : (t.entry ⟨next⟩).depth = level) (hu : Instantiates ⟨next⟩ t u) :
    Progress (next + 1) stop level u where
  stop_le := Nat.le_trans h.stop_le hu.size_le
  depth_le id := by
    by_cases hself : id = ⟨next⟩
    · rw [hself, hu.depth_eq]
      exact h.depth_le _
    · by_cases hold : id.index < t.size
      · rw [hu.entry_eq hold hself]
        exact h.depth_le id
      · by_cases hnew : id.index < u.size
        · obtain ⟨hlt, hentry⟩ := hu.entry_new (Nat.not_lt.1 hold) hnew
          rw [hentry]
          exact hlt
        · rw [entry_of_le (Nat.not_lt.1 hnew)]
          exact Nat.zero_le _
  done id hid := by
    by_cases hself : id = ⟨next⟩
    · rw [hself]
      exact hu.marked
    · have hlt : id.index < next :=
        Nat.lt_of_le_of_ne (Nat.le_of_lt_succ hid) fun heq => hself (heq ▸ rfl)
      rw [hu.entry_eq (Nat.lt_trans hlt (Nat.lt_of_lt_of_le hnext h.stop_le)) hself]
      exact h.done id hlt
  waiting id hid hmark := by
    by_cases hself : id = ⟨next⟩
    · rw [hself, hu.marked] at hmark
      cases hmark
    · rw [hu.entry_eq (Nat.lt_of_lt_of_le hid h.stop_le) hself] at hmark ⊢
      exact h.waiting id hid hmark
  new id hle hid := by
    by_cases hold : id.index < t.size
    · have hself : id ≠ ⟨next⟩ := fun heq => Nat.not_lt.2 hle (heq ▸ hnext)
      rw [hu.entry_eq hold hself]
      exact h.new id hle hold
    · rw [(hu.entry_new (Nat.not_lt.1 hold) hid).2, hlevel]

theorem visit (h : Progress next stop level t) (hnext : next < stop) :
    Progress (next + 1) stop level (t.visit next) := by
  rw [TypeTable.visit]
  cases hmark : (t.entry ⟨next⟩).instantiated with
  | true =>
    refine { h with done := fun id hid => ?_ }
    by_cases hself : id = ⟨next⟩
    · rw [hself]
      exact hmark
    · exact h.done id (Nat.lt_of_le_of_ne (Nat.le_of_lt_succ hid) fun heq => hself (heq ▸ rfl))
  | false =>
    exact h.of_instantiates hnext (h.waiting ⟨next⟩ hnext hmark)
      (instantiates_instantiate (Nat.lt_of_lt_of_le hnext h.stop_le))

theorem range (h : Progress next stop level t) (hle : next ≤ stop) :
    Progress stop stop level (instantiateRange next stop t) :=
  instantiateRange_induct (P := fun i u => Progress i stop level u) (fun _ _ hlt hi => hi.visit hlt)
    hle h

/-- After a round the types that came up are next. -/
theorem turn (h : Progress stop stop level t) : Progress stop t.size (level + 1) t where
  stop_le := Nat.le_refl _
  depth_le := h.depth_le
  done := h.done
  waiting id hid hmark := by
    by_cases hold : id.index < stop
    · rw [h.done id hold] at hmark
      cases hmark
    · exact h.new id (Nat.not_lt.1 hold) hid
  new _ hle hid := absurd hid (Nat.not_lt.2 hle)

theorem rounds (h : Progress next t.size level t) (hle : next ≤ t.size) (rounds : Nat) :
    ∃ last, Progress last (instantiateRounds rounds next t).size (level + rounds)
      (instantiateRounds rounds next t) := by
  induction rounds generalizing next level t with
  | zero => exact ⟨next, h⟩
  | succ rounds ih =>
    obtain ⟨last, hlast⟩ := ih (h.range hle).turn (h.range hle).stop_le
    rw [Nat.add_assoc, Nat.add_comm 1] at hlast
    exact ⟨last, hlast⟩

/-- Beyond the limit no type is left to visit. -/
theorem instantiated (h : Progress next t.size level t) (hlevel : maxInstantiationDepth < level)
    (hid : id.index < t.size) : (t.entry id).instantiated = true := by
  cases hmark : (t.entry id).instantiated with
  | true => rfl
  | false =>
    have hdepth := h.depth_le id
    rw [h.waiting id hid hmark] at hdepth
    exact absurd hdepth (Nat.not_le.2 hlevel)

end Progress

theorem Rested.progress (h : t.Rested) : Progress 0 t.size 0 t where
  stop_le := Nat.le_refl _
  depth_le := h.depth_le
  done _ hid := absurd hid (Nat.not_lt_zero _)
  waiting id _ hmark := h.depth_eq id hmark
  new _ hle hid := absurd hid (Nat.not_lt.2 hle)

/-! ## All interfaces -/

theorem size_fillInterfaces (t : TypeTable) : t.fillInterfaces.size = t.size := Array.size_mapIdx

theorem entry_fillInterfaces (t : TypeTable) (hid : id.index < t.size) :
    t.fillInterfaces.entry id = { t.entry id with allInterfaces := t.collectInterfaces id } :=
  entry_mapIdx t hid

/-- The tables have the same types as bases and interfaces. -/
structure SameLinks (t u : TypeTable) : Prop where
  size_eq : u.size = t.size
  base_eq : ∀ id, u.base id = t.base id
  interfaces_eq : ∀ id, u.interfaces id = t.interfaces id

theorem SameLinks.fillInterfaces (t : TypeTable) : t.SameLinks t.fillInterfaces := by
  refine ⟨size_fillInterfaces t, fun id => ?_, fun id => ?_⟩ <;> by_cases hid : id.index < t.size
  · rw [base, entry_fillInterfaces t hid]
    rfl
  · rw [base, base, entry_of_le (Nat.not_lt.1 hid),
      entry_of_le (size_fillInterfaces t ▸ Nat.not_lt.1 hid)]
  · rw [interfaces, entry_fillInterfaces t hid]
    rfl
  · rw [interfaces, interfaces, entry_of_le (Nat.not_lt.1 hid),
      entry_of_le (size_fillInterfaces t ▸ Nat.not_lt.1 hid)]

namespace SameLinks

theorem isNew_eq (h : t.SameLinks u) (met : List TypeId) (id : TypeId) :
    u.isNew met id = t.isNew met id := by
  rw [isNew, isNew, h.size_eq]

theorem baseChainFrom_eq (h : t.SameLinks u) (met : List TypeId) (id : TypeId) :
    u.baseChainFrom met id = t.baseChainFrom met id := by
  fun_induction t.baseChainFrom met id with
  | case1 met id hnew ih =>
    rw [baseChainFrom, h.isNew_eq, if_pos hnew, h.base_eq]
    cases t.base id with
    | none => rfl
    | some base => exact congrArg (id :: ·) (ih base)
  | case2 met id hnew => rw [baseChainFrom, h.isNew_eq, if_neg hnew]

theorem interfaceWalk_eq (h : t.SameLinks u) (met pending : List TypeId) :
    u.interfaceWalk met pending = t.interfaceWalk met pending := by
  fun_induction t.interfaceWalk met pending with
  | case1 met => rw [interfaceWalk]
  | case2 met next pending hnew ih =>
    rw [interfaceWalk, h.isNew_eq, if_pos hnew, h.interfaces_eq]
    exact congrArg (next :: ·) ih
  | case3 met next pending hnew ih => rw [interfaceWalk, h.isNew_eq, if_neg hnew, ih]

/-- What is collected depends on bases and interfaces only. -/
theorem collectInterfaces_eq (h : t.SameLinks u) (id : TypeId) :
    u.collectInterfaces id = t.collectInterfaces id := by
  have hlinks : u.interfaces = t.interfaces := funext h.interfaces_eq
  rw [collectInterfaces, collectInterfaces, baseChain, baseChain, h.baseChainFrom_eq, hlinks,
    h.interfaceWalk_eq]

end SameLinks

/-- Collecting all interfaces a second time changes nothing. -/
theorem fillInterfaces_fillInterfaces (t : TypeTable) :
    t.fillInterfaces.fillInterfaces = t.fillInterfaces := by
  have hsame := SameLinks.fillInterfaces t
  have hentries : t.fillInterfaces.entries.mapIdx
      (fun i e => { e with allInterfaces := t.fillInterfaces.collectInterfaces ⟨i⟩ })
        = t.fillInterfaces.entries := by
    refine Array.ext (by simp) fun i _ _ => ?_
    simp only [fillInterfaces, Array.getElem_mapIdx]
    rw [← hsame.collectInterfaces_eq ⟨i⟩]
    rfl
  rw [fillInterfaces, hentries]

/-! ## Completion -/

/-- Completion of the table comes to an end, leaves nothing to be done, and goes no deeper than the
    limit. All types that are named are in the table. -/
structure Completes (t : TypeTable) : Prop where
  ends : ∃ u, Sweeps 0 t u ∧ t.complete = u.fillInterfaces
  instantiated : ∀ id : TypeId, id.index < t.complete.size → (t.complete.entry id).instantiated = true
  depth_le : ∀ id : TypeId, (t.complete.entry id).depth ≤ maxInstantiationDepth
  named_lt : ∀ id : TypeId, ∀ other ∈ (t.complete.entry id).named, other.index < t.complete.size
  complete_complete : t.complete.complete = t.complete

/-- Without types to visit, rounds change nothing. -/
theorem instantiateRounds_of_instantiated
    (h : ∀ id : TypeId, id.index < t.size → (t.entry id).instantiated = true) (rounds : Nat) {first : Nat}
    (hle : first ≤ t.size) : instantiateRounds rounds first t = t := by
  have hrange {first : Nat} (hle : first ≤ t.size) : instantiateRange first t.size t = t := by
    refine instantiateRange_induct (P := fun _ u => u = t) (fun i u hi hu => ?_) hle rfl
    rw [hu, visit, if_pos (h ⟨i⟩ hi)]
  induction rounds generalizing first with
  | zero => rfl
  | succ rounds ih => rw [instantiateRounds, hrange hle, ih (Nat.le_refl _)]

namespace Rested

/-- After enough rounds completion has been everywhere. -/
theorem instantiated_rounds (h : t.Rested) {rounds : Nat} (hrounds : maxInstantiationDepth < rounds)
    (hid : id.index < (instantiateRounds rounds 0 t).size) :
    ((instantiateRounds rounds 0 t).entry id).instantiated = true := by
  obtain ⟨last, hlast⟩ := h.progress.rounds (Nat.zero_le _) rounds
  exact hlast.instantiated (by omega) hid

theorem depth_rounds_le (h : t.Rested) (rounds : Nat) (id : TypeId) :
    ((instantiateRounds rounds 0 t).entry id).depth ≤ maxInstantiationDepth := by
  obtain ⟨last, hlast⟩ := h.progress.rounds (Nat.zero_le _) rounds
  exact hlast.depth_le id

theorem depth_complete_le (h : t.Rested) (id : TypeId) :
    (t.complete.entry id).depth ≤ maxInstantiationDepth := by
  have hrounds := h.depth_rounds_le (maxInstantiationDepth + 1)
  rw [complete]
  generalize instantiateRounds (maxInstantiationDepth + 1) 0 t = u at hrounds ⊢
  by_cases hid : id.index < u.size
  · rw [entry_fillInterfaces u hid]
    exact hrounds id
  · rw [entry_of_le (size_fillInterfaces u ▸ Nat.not_lt.1 hid)]
    exact Nat.zero_le _

theorem instantiated_complete (h : t.Rested) (hid : id.index < t.complete.size) :
    (t.complete.entry id).instantiated = true := by
  have hrounds {id : TypeId}
      (hid : id.index < (instantiateRounds (maxInstantiationDepth + 1) 0 t).size) :=
    h.instantiated_rounds (Nat.lt_succ_self _) hid
  rw [complete] at hid ⊢
  generalize instantiateRounds (maxInstantiationDepth + 1) 0 t = u at hrounds hid ⊢
  rw [size_fillInterfaces] at hid
  rw [entry_fillInterfaces u hid]
  exact hrounds hid

theorem completes (h : t.Rested) (hsound : t.Sound) : t.Completes where
  ends := by
    refine ⟨_, ?_, rfl⟩
    exact .of_rounds (maxInstantiationDepth + 1) (Nat.zero_le _) fun last =>
      .of_instantiated (fun _ hid => h.instantiated_rounds (Nat.lt_succ_self _) hid) last
  instantiated _ hid := h.instantiated_complete hid
  depth_le := h.depth_complete_le
  named_lt _ _ hother := hsound.complete.named hother
  complete_complete := by
    rw [TypeTable.complete, instantiateRounds_of_instantiated (fun _ hid => h.instantiated_complete hid) _
      (Nat.zero_le _), TypeTable.complete, fillInterfaces_fillInterfaces]

/-! ## What keeps tables at rest -/

theorem empty : TypeTable.empty.Rested where
  depth_le id := by rw [entry_of_le (Nat.zero_le _)]; exact Nat.zero_le _
  depth_eq id _ := by rw [entry_of_le (Nat.zero_le _)]; rfl

theorem push (h : t.Rested) (shape : Shape) : (t.push shape).2.Rested := by
  have hdepth (id : TypeId) : (t.push shape).2.entry id = t.entry id ∨
      ((t.push shape).2.entry id).depth = 0 := by
    rcases Nat.lt_trichotomy id.index t.size with hlt | heq | hgt
    · exact .inl (entry_push_of_lt hlt)
    · obtain rfl : id = ⟨t.size⟩ := by rw [← heq]
      exact .inr (by rw [entry_push_self])
    · exact .inr (by rw [entry_of_le (by rw [size_push]; exact hgt)]; rfl)
  refine ⟨fun id => ?_, fun id hmark => ?_⟩ <;> rcases hdepth id with hid | hid
  · rw [hid]
    exact h.depth_le id
  · rw [hid]
    exact Nat.zero_le _
  · rw [hid] at hmark ⊢
    exact h.depth_eq id hmark
  · exact hid

theorem intern (h : t.Rested) (shape : Shape) : (t.intern shape).2.Rested := by
  rw [TypeTable.intern]
  split
  · exact h
  · exact h.push shape

theorem construct (h : t.Rested) (definition : TypeId) (arguments : List TypeId) :
    (t.construct definition arguments).2.Rested := by
  rw [TypeTable.construct]
  split
  · exact h
  · exact h.intern _

theorem update (h : t.Rested) (id : TypeId) {f : Entry → Entry} (hdepth : ∀ e, (f e).depth = e.depth)
    (hmark : ∀ e, (f e).instantiated = e.instantiated) : (t.update id f).Rested := by
  have hsame (other : TypeId) : ((t.update id f).entry other).depth = (t.entry other).depth ∧
      ((t.update id f).entry other).instantiated = (t.entry other).instantiated := by
    by_cases heq : id = other
    · subst heq
      by_cases hid : id.index < t.size
      · rw [entry_update_self hid]
        exact ⟨hdepth _, hmark _⟩
      · rw [entry_of_le (Nat.not_lt.1 hid),
          entry_of_le (by rw [Sound.size_update]; exact Nat.not_lt.1 hid)]
        exact ⟨rfl, rfl⟩
    · rw [entry_update_of_ne heq]
      exact ⟨rfl, rfl⟩
  refine ⟨fun other => ?_, fun other hother => ?_⟩
  · rw [(hsame other).1]
    exact h.depth_le other
  · rw [(hsame other).2] at hother
    rw [(hsame other).1]
    exact h.depth_eq other hother

theorem pushTypeParameters (names : List String) (h : t.Rested) :
    (t.pushTypeParameters names).2.Rested := by
  induction names generalizing t with
  | nil => exact h
  | cons name names ih => exact ih (h.push _)

theorem declare (h : t.Rested) (namespaceName name : String) (kind : TypeKind)
    (parameters : List String) (containing : Option TypeId) :
    (t.declare namespaceName name kind parameters containing).2.Rested := by
  have hnamespace (ns : String) : (t.addNamespace ns).Rested := ⟨h.depth_le, h.depth_eq⟩
  exact ((hnamespace _).pushTypeParameters parameters).push _

/-- Every step leaves a table at rest. -/
theorem run (h : t.Rested) (step : TableStep) : (step.run t).Rested := by
  cases step with
  | declare namespaceName name kind typeParameters containing =>
    exact h.declare namespaceName name kind typeParameters containing
  | setSpecial id special =>
    rw [TableStep.run, TypeTable.setSpecial]
    split
    · have hmarked := h.update id (f := ({ · with special := some special })) (fun _ => rfl) fun _ => rfl
      exact ⟨hmarked.depth_le, hmarked.depth_eq⟩
    · exact h
  | setBase id base => exact h.update id (fun _ => rfl) fun _ => rfl
  | addInterface id interface =>
    refine h.update id (fun e => ?_) fun e => ?_ <;> split <;> rfl
  | addConstructor id parameters => exact h.update id (fun _ => rfl) fun _ => rfl
  | addProperty id property =>
    rw [TableStep.run, TypeTable.addProperty]
    split
    · exact h.update id (fun _ => rfl) fun _ => rfl
    · exact h
  | construct definition arguments => exact h.construct definition arguments
  | array element rank => exact h.intern _
  | nullable underlying =>
    rw [TableStep.run, nullable]
    split
    · exact h.construct _ _
    · exact h
  | error name => exact h.intern _
  | complete =>
    refine ⟨h.depth_complete_le, fun id hmark => ?_⟩
    by_cases hid : id.index < t.complete.size
    · rw [TableStep.run, h.instantiated_complete hid] at hmark
      cases hmark
    · rw [TableStep.run, entry_of_le (Nat.not_lt.1 hid)]
      rfl

end Rested

theorem Reaches.rested (h : t.Reaches u) (ht : t.Rested) : u.Rested := by
  induction h with
  | refl => exact ht
  | tail _ hstep ih =>
    obtain ⟨step, -, rfl⟩ := hstep
    exact ih.run step

end TypeTable

end SettingsLint
