import Mathlib.Data.List.Perm.Subperm
import Mathlib.Data.Nat.Find
import SettingsLint.Proofs.Types.Growth
import SettingsLint.Types.Completion

/-! # The bases of a type

The bases of a type, the bases of these and so on are told by the number of steps. The chain that
completion and the rules walk is the part of them before the first repetition: it misses no base, and
it is no longer than the table.
-/

namespace SettingsLint.TypeTable

variable {t : TypeTable} {id b : TypeId} {k : Nat}

/-- The type that is reached by so many steps to a base. -/
def ancestor? (t : TypeTable) : Nat → TypeId → Option TypeId
  | 0, id => some id
  | k + 1, id => (t.base id).bind (t.ancestor? k)

theorem ancestor?_add (j k : Nat) (id : TypeId) :
    t.ancestor? (j + k) id = (t.ancestor? j id).bind (t.ancestor? k) := by
  induction j generalizing id with
  | zero => rw [Nat.zero_add]; rfl
  | succ j ih =>
    rw [Nat.succ_add, ancestor?, ancestor?, Option.bind_assoc]
    exact congrArg _ (funext ih)

/-- A type with a base is in the table. -/
theorem index_lt_of_base (h : t.base id = some b) : id.index < t.size := by
  refine Nat.lt_of_not_le fun hle => ?_
  rw [base, entry_of_le hle] at h
  cases h

/-! ## The chain -/

/-- The chain has the types that are reached step by step, as long as none of them was met or comes
    again. -/
theorem getElem?_baseChainFrom (met : List TypeId) :
    (t.baseChainFrom met id)[k]? = some b ↔
      t.ancestor? k id = some b ∧ b.index < t.size ∧
        (∀ j ≤ k, ∀ a, t.ancestor? j id = some a → a ∉ met) ∧
        ∀ i j, i < j → j ≤ k → t.ancestor? i id ≠ t.ancestor? j id := by
  induction k generalizing id met with
  | zero =>
    rw [baseChainFrom]
    split
    case isTrue hnew =>
      obtain ⟨hid, hmet⟩ := (t.isNew_iff met id).mp hnew
      simp only [List.getElem?_cons_zero, ancestor?, Option.some.injEq, Nat.le_zero]
      constructor
      · rintro rfl
        refine ⟨rfl, hid, ?_, fun i j hij hj => ?_⟩
        · rintro j rfl a ha
          exact Option.some.inj ha ▸ hmet
        · rw [hj] at hij
          exact absurd hij (Nat.not_lt_zero i)
      · exact fun h => h.1
    case isFalse hold =>
      refine ⟨by rintro ⟨⟩, ?_⟩
      rintro ⟨hb, hlt, hmet, -⟩
      refine absurd ?_ hold
      obtain rfl := Option.some.inj hb
      exact (t.isNew_iff met _).mpr ⟨hlt, hmet 0 (Nat.le_refl 0) _ rfl⟩
  | succ k ih =>
    rw [baseChainFrom]
    split
    case isFalse hold =>
      refine ⟨by rintro ⟨⟩, ?_⟩
      rintro ⟨hb, -, hmet, -⟩
      refine absurd ?_ hold
      obtain ⟨base, hbase, -⟩ := Option.bind_eq_some_iff.1 hb
      exact (t.isNew_iff met id).mpr ⟨index_lt_of_base hbase, hmet 0 (Nat.zero_le _) _ rfl⟩
    case isTrue hnew =>
      have hmet := ((t.isNew_iff met id).mp hnew).2
      rw [List.getElem?_cons_succ]
      cases hbase : t.base id with
      | none => simp [ancestor?, hbase]
      | some base =>
        have hstep (j : Nat) : t.ancestor? (j + 1) id = t.ancestor? j base := by
          rw [ancestor?, hbase, Option.bind_some]
        simp only [ih, hstep]
        refine and_congr_right fun _ => and_congr_right fun _ => ?_
        constructor <;> rintro ⟨hfresh, hapart⟩ <;> constructor
        · rintro (_ | j) hj a ha
          · exact Option.some.inj ha ▸ hmet
          · exact fun h => hfresh j (Nat.le_of_succ_le_succ hj) a (hstep j ▸ ha) (List.mem_cons_of_mem _ h)
        · rintro (_ | i) (_ | j) hij hj
          · exact absurd hij (Nat.lt_irrefl 0)
          · intro heq
            exact hfresh j (Nat.le_of_succ_le_succ hj) id (hstep j ▸ heq.symm) List.mem_cons_self
          · exact absurd hij (Nat.not_lt_zero _)
          · rw [hstep, hstep]
            exact hapart i j (Nat.lt_of_succ_lt_succ hij) (Nat.le_of_succ_le_succ hj)
        · intro j hj a ha hmem
          rw [← hstep] at ha
          rcases List.mem_cons.1 hmem with rfl | hmem
          · exact hapart 0 (j + 1) (Nat.succ_pos j) (Nat.succ_le_succ hj) ha.symm
          · exact hfresh (j + 1) (Nat.succ_le_succ hj) a ha hmem
        · intro i j hij hj
          rw [← hstep, ← hstep]
          exact hapart (i + 1) (j + 1) (Nat.succ_lt_succ hij) (Nat.succ_le_succ hj)

/-- The chain has the types that are reached step by step, as long as none comes again. -/
theorem getElem?_baseChain :
    (t.baseChain id)[k]? = some b ↔ t.ancestor? k id = some b ∧ b.index < t.size ∧
      ∀ i j, i < j → j ≤ k → t.ancestor? i id ≠ t.ancestor? j id := by
  rw [baseChain, getElem?_baseChainFrom]
  simp

/-- The chain misses no base: a way with a repetition can be made shorter. -/
theorem mem_baseChain_iff : b ∈ t.baseChain id ↔ b.index < t.size ∧ ∃ k, t.ancestor? k id = some b := by
  constructor
  · intro hb
    obtain ⟨k, hk⟩ := List.mem_iff_getElem?.1 hb
    obtain ⟨hanc, hlt, -⟩ := getElem?_baseChain.1 hk
    exact ⟨hlt, k, hanc⟩
  · rintro ⟨hlt, hreached⟩
    classical
    have hk := Nat.find_spec hreached
    refine List.mem_of_getElem? (getElem?_baseChain.2 ⟨hk, hlt, fun i j hij hj heq => ?_⟩)
    refine Nat.find_min hreached (m := i + (Nat.find hreached - j)) (by omega) ?_
    rw [ancestor?_add, heq, ← ancestor?_add, Nat.add_sub_cancel' hj]
    exact hk

theorem nodup_baseChain (t : TypeTable) (id : TypeId) : (t.baseChain id).Nodup := by
  refine List.pairwise_iff_getElem.2 fun i j hi hj hij heq => ?_
  obtain ⟨hanc, -, hapart⟩ := getElem?_baseChain.1 (List.getElem?_eq_getElem hj)
  have hanc' := (getElem?_baseChain.1 (List.getElem?_eq_getElem hi)).1
  exact hapart i j hij (Nat.le_refl j) (by rw [hanc, hanc', heq])

theorem mem_ids (h : id.index < t.size) : id ∈ t.ids :=
  List.mem_map.2 ⟨id.index, List.mem_range.2 h, rfl⟩

theorem length_baseChain_le (t : TypeTable) (id : TypeId) : (t.baseChain id).length ≤ t.size := by
  have hids : t.baseChain id ⊆ t.ids := fun b hb => mem_ids (mem_baseChain_iff.1 hb).1
  have hle := (List.subperm_of_subset (t.nodup_baseChain id) hids).length_le
  simpa [ids] using hle

/-- The types that are reached by fewer than `n` steps to a base, nearest first. -/
def ancestors (t : TypeTable) (n : Nat) (id : TypeId) : List TypeId :=
  (List.range n).filterMap (t.ancestor? · id)

/-- The chain is where the list of all bases starts; what follows are repetitions. -/
theorem baseChain_prefix_ancestors (t : TypeTable) (id : TypeId) {n : Nat} (h : t.size ≤ n) :
    t.baseChain id <+: t.ancestors n id := by
  have hmap : (List.range (t.baseChain id).length).map (t.ancestor? · id) = (t.baseChain id).map some := by
    refine List.ext_getElem (by simp) fun k hk hk' => ?_
    rw [List.length_map] at hk'
    simp only [List.getElem_map, List.getElem_range]
    exact (getElem?_baseChain.1 (List.getElem?_eq_getElem hk')).1
  obtain ⟨rest, hrest⟩ := Nat.exists_eq_add_of_le (Nat.le_trans (t.length_baseChain_le id) h)
  refine ⟨((List.range rest).map ((t.baseChain id).length + ·)).filterMap (t.ancestor? · id), ?_⟩
  have hchain := congrArg (List.filterMap fun o => o) hmap
  rw [ancestors, hrest, List.range_add, List.filterMap_append]
  exact congrArg (· ++ _) (by simpa using hchain.symm)

end SettingsLint.TypeTable
