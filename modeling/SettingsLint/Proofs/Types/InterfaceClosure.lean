import Mathlib.Logic.Relation
import SettingsLint.Proofs.Types.Ancestors
import SettingsLint.Proofs.Types.Completion

/-! # All interfaces of a type

`TypeTable.Visits` is the recursive walk over interfaces: a type that is not listed yet is listed, then
what it extends is visited, then the walk goes on. It ends on every table, cycles or not, and lists
what can be reached. Completion walks with a stack of pending types instead, and lists the same types
in the same order.
-/

namespace SettingsLint.TypeTable

open Relation (ReflTransGen TransGen)

variable {t : TypeTable} {id a b : TypeId} {listed pending result : List TypeId}

/-- The type names the other one as its base. -/
def BaseLink (t : TypeTable) (a b : TypeId) : Prop := t.base a = some b

/-- The type names the other one, which is in the table, among its interfaces. -/
def InterfaceLink (t : TypeTable) (a b : TypeId) : Prop := b ∈ t.interfaces a ∧ b.index < t.size

theorem exists_ancestor?_iff : (∃ k, t.ancestor? k id = some b) ↔ ReflTransGen t.BaseLink id b := by
  constructor
  · rintro ⟨k, hk⟩
    induction k generalizing id with
    | zero => exact Option.some.inj hk ▸ .refl
    | succ k ih =>
      obtain ⟨base, hbase, hrest⟩ := Option.bind_eq_some_iff.1 hk
      exact .head hbase (ih hrest)
  · intro h
    induction h using ReflTransGen.head_induction_on with
    | refl => exact ⟨0, rfl⟩
    | head hlink _ ih =>
      obtain ⟨k, hk⟩ := ih
      exact ⟨k + 1, by rw [ancestor?, hlink]; exact hk⟩

/-! ## The recursive walk -/

/-- Visiting the pending types in order makes the first list the second. -/
inductive Visits (t : TypeTable) : List TypeId → List TypeId → List TypeId → Prop where
  | nil {listed : List TypeId} : Visits t listed [] listed
  /-- A type that is listed already, or that the table does not have, is skipped. -/
  | skip {listed pending result : List TypeId} {next : TypeId}
    (old : next ∈ listed ∨ t.size ≤ next.index) (rest : Visits t listed pending result) :
    Visits t listed (next :: pending) result
  /-- A new type is listed before the ones that it extends, and these before the rest. -/
  | visit {listed inner pending result : List TypeId} {next : TypeId} (new : next ∉ listed)
    (inTable : next.index < t.size) (extended : Visits t (listed ++ [next]) (t.interfaces next) inner)
    (rest : Visits t inner pending result) : Visits t listed (next :: pending) result

namespace Visits

theorem append_iff {more : List TypeId} : t.Visits listed (pending ++ more) result ↔
    ∃ inner, t.Visits listed pending inner ∧ t.Visits inner more result := by
  induction pending generalizing listed with
  | nil =>
    refine ⟨fun h => ⟨listed, .nil, h⟩, ?_⟩
    rintro ⟨inner, ⟨⟩, h⟩
    exact h
  | cons next pending ih =>
    constructor
    · intro h
      cases h with
      | skip old rest =>
        obtain ⟨inner, hfirst, hmore⟩ := ih.1 rest
        exact ⟨inner, .skip old hfirst, hmore⟩
      | visit new inTable extended rest =>
        obtain ⟨inner, hfirst, hmore⟩ := ih.1 rest
        exact ⟨inner, .visit new inTable extended hfirst, hmore⟩
    · rintro ⟨inner, hfirst, hmore⟩
      cases hfirst with
      | skip old rest => exact .skip old (ih.2 ⟨inner, rest, hmore⟩)
      | visit new inTable extended rest => exact .visit new inTable extended (ih.2 ⟨inner, rest, hmore⟩)

theorem unique (h : t.Visits listed pending result) {result' : List TypeId}
    (h' : t.Visits listed pending result') : result' = result := by
  induction h generalizing result' with
  | nil =>
    cases h'
    rfl
  | skip old rest ih =>
    cases h' with
    | skip _ rest' => exact ih rest'
    | visit new inTable => exact absurd old (not_or.2 ⟨new, Nat.not_le.2 inTable⟩)
  | visit new inTable extended rest ihextended ihrest =>
    cases h' with
    | skip old => exact absurd old (not_or.2 ⟨new, Nat.not_le.2 inTable⟩)
    | visit _ _ extended' rest' =>
      obtain rfl := ihextended extended'
      exact ihrest rest'

theorem subset (h : t.Visits listed pending result) : listed ⊆ result := by
  induction h with
  | nil => exact List.Subset.refl _
  | skip _ _ ih => exact ih
  | visit _ _ _ _ ihextended ihrest =>
    exact fun x hx => ihrest (ihextended (List.mem_append_left _ hx))

theorem nodup (h : t.Visits listed pending result) (hlisted : listed.Nodup) : result.Nodup := by
  induction h with
  | nil => exact hlisted
  | skip _ _ ih => exact ih hlisted
  | visit new _ _ _ ihextended ihrest =>
    refine ihrest (ihextended (List.nodup_append.2 ⟨hlisted, List.pairwise_singleton _ _, ?_⟩))
    rintro x hx y hy rfl
    exact new (List.mem_singleton.1 hy ▸ hx)

/-- What was pending is listed. -/
theorem mem_of_pending (h : t.Visits listed pending result) (ha : a ∈ pending) (hlt : a.index < t.size) :
    a ∈ result := by
  induction h with
  | nil => cases ha
  | skip old rest ih =>
    rcases List.mem_cons.1 ha with rfl | ha
    · exact rest.subset (old.resolve_right (Nat.not_le.2 hlt))
    · exact ih ha
  | visit _ _ extended rest _ ihrest =>
    rcases List.mem_cons.1 ha with rfl | ha
    · exact rest.subset (extended.subset (List.mem_append_right _ List.mem_cons_self))
    · exact ihrest ha

/-- With a type what it extends gets listed. -/
theorem mem_of_link (h : t.Visits listed pending result) (ha : a ∈ result) (hnew : a ∉ listed)
    (hlink : t.InterfaceLink a b) : b ∈ result := by
  induction h with
  | nil => exact absurd ha hnew
  | skip _ _ ih => exact ih ha hnew
  | @visit listed inner _ _ next _ _ extended rest ihextended ihrest =>
    by_cases hinner : a ∈ inner
    · refine rest.subset ?_
      by_cases hnext : a ∈ listed ++ [next]
      · obtain rfl := List.mem_singleton.1 ((List.mem_append.1 hnext).resolve_left hnew)
        exact extended.mem_of_pending hlink.1 hlink.2
      · exact ihextended hinner hnext
    · exact ihrest ha hinner

/-- What gets listed can be reached from what was pending. -/
theorem reachable (h : t.Visits listed pending result) (ha : a ∈ result) (hnew : a ∉ listed) :
    ∃ start ∈ pending, start.index < t.size ∧ ReflTransGen t.InterfaceLink start a := by
  induction h with
  | nil => exact absurd ha hnew
  | skip _ _ ih =>
    obtain ⟨start, hstart, hreach⟩ := ih ha hnew
    exact ⟨start, List.mem_cons_of_mem _ hstart, hreach⟩
  | @visit listed inner _ _ next _ inTable _ _ ihextended ihrest =>
    by_cases hinner : a ∈ inner
    · by_cases hnext : a ∈ listed ++ [next]
      · obtain rfl := List.mem_singleton.1 ((List.mem_append.1 hnext).resolve_left hnew)
        exact ⟨a, List.mem_cons_self, inTable, .refl⟩
      · obtain ⟨start, hstart, hlt, hreach⟩ := ihextended hinner hnext
        exact ⟨next, List.mem_cons_self, inTable, .head ⟨hstart, hlt⟩ hreach⟩
    · obtain ⟨start, hstart, hreach⟩ := ihrest ha hinner
      exact ⟨start, List.mem_cons_of_mem _ hstart, hreach⟩

/-- Where all is listed already, nothing happens. -/
theorem of_listed (h : ∀ a ∈ pending, a ∈ listed ∨ t.size ≤ a.index) : t.Visits listed pending listed := by
  induction pending with
  | nil => exact .nil
  | cons next pending ih =>
    exact .skip (h next List.mem_cons_self) (ih fun a ha => h a (List.mem_cons_of_mem _ ha))

/-- The walk with a stack lists what the recursive walk lists: the types that a type extends are put
    before the ones that were pending. -/
theorem interfaceWalk (met pending : List TypeId) (hmet : ∀ a, a ∈ met ↔ a ∈ listed) :
    t.Visits listed pending (listed ++ t.interfaceWalk met pending) := by
  fun_induction t.interfaceWalk met pending generalizing listed with
  | case1 met =>
    rw [List.append_nil]
    exact .nil
  | case2 met next pending hnew ih =>
    obtain ⟨inTable, hnext⟩ := (t.isNew_iff met next).mp hnew
    have hwalk := @ih (listed ++ [next]) fun a => by simp [hmet, or_comm]
    obtain ⟨inner, hextended, hrest⟩ := append_iff.1 hwalk
    refine .visit (fun h => hnext ((hmet next).mpr h)) inTable hextended ?_
    rwa [List.append_assoc] at hrest
  | case3 met next pending hold ih =>
    refine .skip ?_ (ih hmet)
    rw [← hmet]
    refine Decidable.byContradiction fun h => hold ((t.isNew_iff met next).mpr ?_)
    exact ⟨Nat.lt_of_not_le (not_or.1 h).2, (not_or.1 h).1⟩

end Visits

/-! ## The closure -/

/-- The list has the interfaces of the type and of its bases, with all that these extend, each once,
    in the order of the recursive walk over the type and its bases, nearest first. -/
structure IsInterfaceClosure (t : TypeTable) (id : TypeId) (list : List TypeId) : Prop where
  nodup : list.Nodup
  mem_iff : ∀ i, i ∈ list ↔ ∃ b, ReflTransGen t.BaseLink id b ∧ TransGen t.InterfaceLink b i
  /-- The bases of bases repeat after as many steps as the table has types, if not before. -/
  order : ∀ n, t.size ≤ n → ∀ result,
    t.Visits [] ((t.ancestors n id).flatMap t.interfaces) result ↔ result = list

/-- A type that names an interface is in the table. -/
theorem index_lt_of_interface (h : b ∈ t.interfaces a) : a.index < t.size := by
  refine Nat.lt_of_not_le fun hle => ?_
  rw [interfaces, entry_of_le hle] at h
  cases h

theorem visits_collectInterfaces (t : TypeTable) (id : TypeId) :
    t.Visits [] ((t.baseChain id).flatMap t.interfaces) (t.collectInterfaces id) :=
  Visits.interfaceWalk [] _ fun _ => Iff.rfl

/-- A repetition of a base brings up nothing new. -/
theorem visits_ancestors {n : Nat} (h : t.size ≤ n) :
    t.Visits [] ((t.ancestors n id).flatMap t.interfaces) (t.collectInterfaces id) := by
  obtain ⟨rest, hrest⟩ := t.baseChain_prefix_ancestors id h
  have hwalk := t.visits_collectInterfaces id
  rw [← hrest, List.flatMap_append]
  refine Visits.append_iff.2 ⟨_, hwalk, .of_listed fun i hi => ?_⟩
  obtain ⟨b, hb, hi⟩ := List.mem_flatMap.1 hi
  have hreached : b ∈ t.ancestors n id := hrest ▸ List.mem_append_right _ hb
  obtain ⟨k, -, hk⟩ := List.mem_filterMap.1 hreached
  have hchain : b ∈ t.baseChain id := mem_baseChain_iff.2 ⟨index_lt_of_interface hi, k, hk⟩
  by_cases hlt : i.index < t.size
  · exact .inl (hwalk.mem_of_pending (List.mem_flatMap.2 ⟨b, hchain, hi⟩) hlt)
  · exact .inr (Nat.not_lt.1 hlt)

theorem mem_collectInterfaces {i : TypeId} : i ∈ t.collectInterfaces id ↔
    ∃ b, ReflTransGen t.BaseLink id b ∧ TransGen t.InterfaceLink b i := by
  have hwalk := t.visits_collectInterfaces id
  constructor
  · intro hi
    obtain ⟨start, hstart, hlt, hreach⟩ := hwalk.reachable hi List.not_mem_nil
    obtain ⟨b, hb, hlink⟩ := List.mem_flatMap.1 hstart
    exact ⟨b, exists_ancestor?_iff.1 (mem_baseChain_iff.1 hb).2, .head' ⟨hlink, hlt⟩ hreach⟩
  · rintro ⟨b, hb, hreach⟩
    induction hreach with
    | single hlink =>
      have hchain := mem_baseChain_iff.2 ⟨index_lt_of_interface hlink.1, exists_ancestor?_iff.2 hb⟩
      exact hwalk.mem_of_pending (List.mem_flatMap.2 ⟨b, hchain, hlink.1⟩) hlink.2
    | tail _ hlink ih => exact hwalk.mem_of_link ih List.not_mem_nil hlink

theorem isInterfaceClosure_collectInterfaces (t : TypeTable) (id : TypeId) :
    t.IsInterfaceClosure id (t.collectInterfaces id) where
  nodup := (t.visits_collectInterfaces id).nodup List.nodup_nil
  mem_iff _ := mem_collectInterfaces
  order _ hn _ := ⟨fun h => (visits_ancestors hn).unique h, fun h => h ▸ visits_ancestors hn⟩

/-- What completion notes down is collected from the completed table. -/
theorem allInterfaces_complete (t : TypeTable) (id : TypeId) :
    t.complete.allInterfaces id = t.complete.collectInterfaces id := by
  rw [complete]
  generalize instantiateRounds (maxInstantiationDepth + 1) 0 t = u
  rw [(SameLinks.fillInterfaces u).collectInterfaces_eq, allInterfaces]
  by_cases hid : id.index < u.size
  · rw [entry_fillInterfaces u hid]
  · rw [entry_of_le (size_fillInterfaces u ▸ Nat.not_lt.1 hid), collectInterfaces, baseChain,
      baseChainFrom, if_neg fun hnew => hid ((u.isNew_iff [] id).mp hnew).1, List.flatMap_nil,
      TypeTable.interfaceWalk]
    rfl

/-- After completion every type has all its interfaces. -/
theorem isInterfaceClosure_allInterfaces (t : TypeTable) (id : TypeId) :
    t.complete.IsInterfaceClosure id (t.complete.allInterfaces id) := by
  rw [allInterfaces_complete]
  exact t.complete.isInterfaceClosure_collectInterfaces id

end SettingsLint.TypeTable
