import SettingsLint.Proofs.Types.Ancestors
import SettingsLint.Rule.Settings

/-! # Which classes are settings classes

A class is one if the settings base is among its bases, however far away. Where bases go round in a
circle that leads back to the class, what comes after the class itself does not count.
-/

namespace SettingsLint

/-- What the table does not have is not shown as the settings base. -/
theorem TypeTable.index_lt_of_display {t : TypeTable} {id : TypeId}
    (h : t.display id = settingsBaseName) : id.index < t.size := by
  refine Nat.lt_of_not_le fun hle => ?_
  have hshape : t.shape id = .error "" := by rw [shape, entry_of_le hle]; rfl
  rw [display] at h
  simp only [hshape] at h
  exact absurd h (by decide)

/-- A class is a settings class if some number of steps to a base leads to the settings base and does
    not pass through the class itself. -/
theorem Model.isSettings_iff (model : Model) (cls : TypeId) : model.isSettings cls = true ↔
    ∃ k, 1 ≤ k ∧ (∃ base, model.table.ancestor? k cls = some base ∧
        model.table.display base = settingsBaseName) ∧
      ∀ j, 1 ≤ j → j ≤ k → model.table.ancestor? j cls ≠ some cls := by
  simp only [isSettings, List.any_eq_true, decide_eq_true_eq]
  constructor
  · rintro ⟨base, hbase, hdisplay⟩
    obtain ⟨k, hk⟩ := List.mem_iff_getElem?.mp hbase
    rw [List.getElem?_tail] at hk
    obtain ⟨hanc, -, hapart⟩ := TypeTable.getElem?_baseChain.1 hk
    exact ⟨k + 1, Nat.succ_pos k, ⟨base, hanc, hdisplay⟩, fun j hj hjk heq => hapart 0 j hj hjk heq.symm⟩
  · rintro ⟨k, hk, ⟨base, hanc, hdisplay⟩, hapart⟩
    have hchain := TypeTable.mem_baseChain_iff.2 ⟨TypeTable.index_lt_of_display hdisplay, k, hanc⟩
    refine ⟨base, ?_, hdisplay⟩
    rw [TypeTable.baseChain, TypeTable.baseChainFrom] at hchain ⊢
    split at hchain
    case isFalse => cases hchain
    case isTrue hnew =>
      rw [if_pos hnew]
      refine (List.mem_cons.mp hchain).resolve_left fun heq => ?_
      exact hapart k hk (Nat.le_refl k) (heq ▸ hanc)

end SettingsLint
