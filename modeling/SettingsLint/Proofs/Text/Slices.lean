import SettingsLint.Main

/-! # Slices

A slice of a text is what stands between two boundaries of characters. -/

namespace SettingsLint.Text

variable {cs part : List Char}

theorem byteSize_pos (h : cs ≠ []) : 0 < byteSize cs := by
  cases cs with
  | nil => exact absurd rfl h
  | cons c cs => exact Nat.lt_of_lt_of_le c.utf8Size_pos (Nat.le_add_right _ _)

theorem dropBytes?_eq_some_iff {n : Nat} {rest : List Char} :
    dropBytes? n cs = some rest ↔ ∃ before, cs = before ++ rest ∧ byteSize before = n := by
  refine ⟨fun h => ?_, ?_⟩
  · fun_induction dropBytes? n cs with
    | case1 => exact ⟨[], Option.some.inj h, rfl⟩
    | case2 => cases h
    | case3 c cs => exact ⟨[], Option.some.inj h, rfl⟩
    | case4 n c cs hn hle ih =>
      obtain ⟨before, rfl, hsize⟩ := ih h
      exact ⟨c :: before, rfl, by rw [byteSize_cons, hsize, Nat.add_sub_cancel' hle]⟩
    | case5 => cases h
  · rintro ⟨before, rfl, rfl⟩
    exact dropBytes?_append before rest

theorem takeBytes?_eq_some_iff {n : Nat} :
    takeBytes? n cs = some part ↔ ∃ after, cs = part ++ after ∧ byteSize part = n := by
  refine ⟨fun h => ?_, ?_⟩
  · fun_induction takeBytes? n cs generalizing part with
    | case1 => exact ⟨[], by rw [← Option.some.inj h]; rfl, by rw [← Option.some.inj h]; rfl⟩
    | case2 => cases h
    | case3 c cs => exact ⟨c :: cs, by rw [← Option.some.inj h]; rfl, by rw [← Option.some.inj h]; rfl⟩
    | case4 n c cs hn hle ih =>
      obtain ⟨part, hpart, rfl⟩ := Option.map_eq_some_iff.mp h
      obtain ⟨after, rfl, hsize⟩ := ih hpart
      exact ⟨after, rfl, by rw [byteSize_cons, hsize, Nat.add_sub_cancel' hle]⟩
    | case5 => cases h
  · rintro ⟨after, rfl, rfl⟩
    exact takeBytes?_append part after

theorem slice?_eq_some_iff {first last : Nat} :
    slice? first last cs = some part ↔ ∃ before after, cs = before ++ (part ++ after) ∧
      byteSize before = first ∧ byteSize before + byteSize part = last := by
  refine ⟨fun h => ?_, ?_⟩
  · rw [slice?] at h
    split at h
    · next hle =>
      obtain ⟨rest, hrest, hpart⟩ := Option.bind_eq_some_iff.mp h
      obtain ⟨before, rfl, rfl⟩ := dropBytes?_eq_some_iff.1 hrest
      obtain ⟨after, rfl, hsize⟩ := takeBytes?_eq_some_iff.1 hpart
      exact ⟨before, after, rfl, rfl, by rw [hsize, Nat.add_sub_cancel' hle]⟩
    · cases h
  · rintro ⟨before, after, rfl, rfl, rfl⟩
    exact slice?_append before part after

/-! ## Boundaries -/

/-- A character starts or the text ends at the offset. -/
def IsBoundary (cs : List Char) (n : Nat) : Prop :=
  ∃ before after, cs = before ++ after ∧ byteSize before = n

theorem isBoundary_of_slice? {first last : Nat}
    (h : slice? first last cs = some part) : IsBoundary cs first ∧ IsBoundary cs last := by
  obtain ⟨before, after, rfl, rfl, rfl⟩ := slice?_eq_some_iff.1 h
  exact ⟨⟨before, part ++ after, rfl, rfl⟩,
    ⟨before ++ part, after, (List.append_assoc ..).symm, byteSize_append before part⟩⟩

/-- Between two boundaries in order there is a slice. -/
theorem IsBoundary.slice? {first last : Nat} (hfirst : IsBoundary cs first)
    (hlast : IsBoundary cs last) (hle : first ≤ last) : ∃ part, slice? first last cs = some part := by
  obtain ⟨before, after, rfl, rfl⟩ := hfirst
  obtain ⟨before', after', heq, rfl⟩ := hlast
  rcases List.append_eq_append_iff.mp heq with ⟨part, rfl, rfl⟩ | ⟨part, rfl, rfl⟩
  · exact ⟨part, by rw [byteSize_append]; exact slice?_append before part after'⟩
  · -- The later boundary stands no further on, so the two are the same.
    obtain rfl : part = [] := by
      cases part with
      | nil => rfl
      | cons c part =>
        have := c.utf8Size_pos
        rw [byteSize_append, byteSize_cons] at hle
        omega
    refine ⟨[], slice?_eq_some_iff.2 ⟨before', after, ?_, ?_, ?_⟩⟩ <;> simp

end SettingsLint.Text
