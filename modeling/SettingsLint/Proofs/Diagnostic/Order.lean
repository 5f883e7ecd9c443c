import Mathlib.Data.List.Sort
import SettingsLint.Main

/-! # The order of diagnostics

Diagnostics are ordered by place and then by identifier. The order is total, so sorting is
determined by what it sorts: it commutes with whatever keeps place and identifier, and it
forgets the order of diagnostics that differ in one of the two.
-/

namespace SettingsLint

/-! ## Spans -/

namespace Span

variable {s t : Span}

theorem before_iff :
    s.before t = true ↔ s.start < t.start ∨ s.start = t.start ∧ s.stop < t.stop := by
  simp [before]

theorem before_trichotomy (s t : Span) : s.before t = true ∨ s = t ∨ t.before s = true := by
  obtain ⟨a, b⟩ := s
  obtain ⟨c, d⟩ := t
  simp only [before_iff, Span.mk.injEq]
  omega

theorem before_irrefl (s : Span) : s.before s = false := by
  simp [before]

theorem before_asymm (h : s.before t = true) : t.before s = false := by
  rw [← Bool.not_eq_true, before_iff]
  rw [before_iff] at h
  omega

theorem before_trans {u : Span} (h : s.before t = true) (h' : t.before u = true) :
    s.before u = true := by
  rw [before_iff] at h h' ⊢
  omega

end Span

namespace Diagnostic

/-! ## The order -/

theorem notAfter_iff {a b : Diagnostic} :
    notAfter a b = true ↔ a.span.before b.span = true ∨ a.span = b.span ∧ a.id ≤ b.id := by
  by_cases h : a.span = b.span
  · simp [notAfter, h, Span.before_irrefl]
  · simp [notAfter, h]

theorem notAfter_trans (a b c : Diagnostic) (hab : notAfter a b = true)
    (hbc : notAfter b c = true) : notAfter a c = true := by
  rw [notAfter_iff] at hab hbc ⊢
  rcases hab with hab | ⟨hab, hidab⟩
  · rcases hbc with hbc | ⟨hbc, -⟩
    · exact .inl (Span.before_trans hab hbc)
    · exact .inl (hbc ▸ hab)
  · rcases hbc with hbc | ⟨hbc, hidbc⟩
    · exact .inl (hab ▸ hbc)
    · exact .inr ⟨hab.trans hbc, String.le_trans hidab hidbc⟩

theorem notAfter_total (a b : Diagnostic) : (notAfter a b || notAfter b a) = true := by
  rw [Bool.or_eq_true, notAfter_iff, notAfter_iff]
  rcases Span.before_trichotomy a.span b.span with h | h | h
  · exact .inl (.inl h)
  · exact (String.le_total a.id b.id).imp (fun hid => .inr ⟨h, hid⟩) fun hid => .inr ⟨h.symm, hid⟩
  · exact .inr (.inl h)

/-- Diagnostics that may stand in both orders are at one place and of one kind. -/
theorem notAfter_antisymm {a b : Diagnostic} (hab : notAfter a b = true)
    (hba : notAfter b a = true) : a.span = b.span ∧ a.id = b.id := by
  rw [notAfter_iff] at hab hba
  rcases hab with hab | ⟨hspan, hab⟩
  · rcases hba with hba | ⟨hspan, -⟩
    · simp [Span.before_asymm hab] at hba
    · simp [hspan, Span.before_irrefl] at hab
  · rcases hba with hba | ⟨-, hba⟩
    · simp [hspan, Span.before_irrefl] at hba
    · exact ⟨hspan, String.le_antisymm hab hba⟩

/-! ## Sorting -/

theorem pairwise_sort (ds : List Diagnostic) : (sort ds).Pairwise (notAfter · ·) :=
  List.pairwise_mergeSort notAfter_trans notAfter_total ds

theorem perm_sort (ds : List Diagnostic) : (sort ds).Perm ds :=
  List.mergeSort_perm ds notAfter

@[simp] theorem mem_sort {ds : List Diagnostic} {d : Diagnostic} : d ∈ sort ds ↔ d ∈ ds :=
  List.mem_mergeSort

/-- A diagnostic in front is sorted in before everything that it may stand before. -/
theorem exists_sort_cons (d : Diagnostic) (ds : List Diagnostic) : ∃ front back,
    sort (d :: ds) = front ++ d :: back ∧ sort ds = front ++ back ∧
      (∀ e ∈ front, notAfter d e = false) ∧ ∀ e ∈ back, notAfter d e = true := by
  obtain ⟨front, back, hcons, hrest, hfront⟩ :=
    List.mergeSort_cons notAfter_trans notAfter_total d ds
  have hsorted := pairwise_sort (d :: ds)
  rw [sort, hcons] at hsorted
  have hback := (List.pairwise_cons.mp (List.pairwise_append.mp hsorted).2.1).1
  exact ⟨front, back, hcons, hrest, by simpa using hfront, hback⟩

/-- A list is divided in only one way into a part without and a part with a property. -/
theorem append_split {p : Diagnostic → Bool} {front back front' back' : List Diagnostic}
    (h : front ++ back = front' ++ back') (hfront : ∀ e ∈ front, p e = false)
    (hback : ∀ e ∈ back, p e = true) (hfront' : ∀ e ∈ front', p e = false)
    (hback' : ∀ e ∈ back', p e = true) : front = front' ∧ back = back' := by
  -- Each part is what a filter leaves of the whole list.
  have hkeep (xs ys : List Diagnostic) (hxs : ∀ e ∈ xs, p e = false) (hys : ∀ e ∈ ys, p e = true) :
      (xs ++ ys).filter p = ys := by
    rw [List.filter_append, List.filter_eq_nil_iff.mpr (by simpa using hxs),
      List.filter_eq_self.mpr hys, List.nil_append]
  have heq : back = back' := by
    rw [← hkeep front back hfront hback, h, hkeep front' back' hfront' hback']
  subst heq
  exact ⟨List.append_cancel_right h, rfl⟩

/-- Sorting commutes with dropping and changing diagnostics, if place and kind are kept. -/
theorem filterMap_sort {f : Diagnostic → Option Diagnostic}
    (hf : ∀ d d', f d = some d' → d'.span = d.span ∧ d'.id = d.id) (ds : List Diagnostic) :
    (sort ds).filterMap f = sort (ds.filterMap f) := by
  have horder {d d' e e' : Diagnostic} (hd : f d = some d') (he : f e = some e') :
      notAfter d' e' = notAfter d e := by
    simp only [notAfter, hf d d' hd, hf e e' he]
  induction ds with
  | nil => simp [sort]
  | cons d ds ih =>
    obtain ⟨front, back, hcons, hrest, hfront, hback⟩ := exists_sort_cons d ds
    rw [hrest, List.filterMap_append] at ih
    rw [hcons, List.filterMap_append]
    cases hd : f d with
    | none => rw [List.filterMap_cons_none hd, List.filterMap_cons_none hd, ih]
    | some d' =>
      obtain ⟨front', back', hcons', hrest', hfront', hback'⟩ := exists_sort_cons d' (ds.filterMap f)
      -- What is left of the two parts around `d` are the two parts around `d'`.
      have hparts : front.filterMap f = front' ∧ back.filterMap f = back' := by
        apply append_split (ih.trans hrest') _ _ hfront' hback'
        · intro e' he'
          obtain ⟨e, he, hfe⟩ := List.mem_filterMap.mp he'
          rw [horder hd hfe, hfront e he]
        · intro e' he'
          obtain ⟨e, he, hfe⟩ := List.mem_filterMap.mp he'
          rw [horder hd hfe, hback e he]
      rw [List.filterMap_cons_some hd, List.filterMap_cons_some hd, hcons', hparts.1, hparts.2]

theorem filter_sort (p : Diagnostic → Bool) (ds : List Diagnostic) :
    (sort ds).filter p = sort (ds.filter p) := by
  have hkeep (d d' : Diagnostic) (h : Option.guard p d = some d') : d'.span = d.span ∧ d'.id = d.id := by
    rw [← (Option.guard_eq_some_iff.mp h).1]
    exact ⟨rfl, rfl⟩
  rw [← List.filterMap_eq_filter, filterMap_sort hkeep]

/-- If no two diagnostics share place and kind, their order before sorting does not matter. -/
theorem sort_eq_of_perm {ds es : List Diagnostic} (h : ds.Perm es)
    (hdistinct : (ds.map fun d => (d.span, d.id)).Nodup) : sort ds = sort es := by
  have hperm : (sort ds).Perm (sort es) :=
    ((perm_sort ds).trans h).trans (perm_sort es).symm
  apply hperm.eq_of_pairwise _ (pairwise_sort ds) (pairwise_sort es)
  intro d e hd he hde hed
  have hkey := notAfter_antisymm hde hed
  have hmem : e ∈ ds := h.mem_iff.mpr (mem_sort.1 he)
  exact List.inj_on_of_nodup_map hdistinct (mem_sort.1 hd) hmem (by simp [hkey])

end Diagnostic

end SettingsLint
