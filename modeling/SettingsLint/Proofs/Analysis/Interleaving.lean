import Mathlib.Data.List.Flatten
import SettingsLint.Proofs.Binding.DeclaredTypes
import SettingsLint.Proofs.Diagnostic.Order
import SettingsLint.Proofs.Rule.Flagged

/-! # The order of analysis does not matter

Classes may be analyzed in any order, and at the same time: then their reports come together in
any interleaving. Sorted, the reports are the same, since no two of them share place and kind.
A property belongs to one class and has its name for itself, and the rules report different
kinds of problems.
-/

namespace SettingsLint

variable {problem : Problem}

/-! ## Interleavings -/

/-- The list takes the items of the sources one by one, each time the first that is left of some
    source. -/
inductive Interleaves : List (List α) → List α → Prop where
  | done {sources : List (List α)} (h : ∀ source ∈ sources, source = []) : Interleaves sources []
  | next {before after : List (List α)} {a : α} {rest items : List α}
    (h : Interleaves (before ++ rest :: after) items) :
    Interleaves (before ++ (a :: rest) :: after) (a :: items)

namespace Interleaves

theorem perm_flatten {sources : List (List α)} {items : List α} (h : Interleaves sources items) :
    items.Perm sources.flatten := by
  induction h with
  | done h => rw [List.flatten_eq_nil_iff.mpr h]
  | @next before after a rest items _ ih =>
    have hmove : (a :: (before ++ rest :: after).flatten).Perm
        (before ++ (a :: rest) :: after).flatten := by
      rw [List.flatten_append, List.flatten_append]
      exact List.perm_middle.symm
    exact (ih.cons a).trans hmove

end Interleaves

/-! ## Names of properties -/

/-- The properties of a text have different names, as far as their places go. -/
theorem Source.nodup_name_spans (text : String) :
    ((parse text).unit.properties.map (·.name.span)).Nodup := by
  have hspread := spread_parse text
  have hperm := ((parse text).unit.perm_allProperties.map (·.name.span)).nodup_iff
  rw [hperm, List.Nodup, List.pairwise_map]
  apply List.Pairwise.imp_of_mem _ hspread.apart
  intro p q hp hq hapart heq
  -- Each name starts inside its property, and the properties stand apart.
  have hinp := hspread.named p hp
  have hinq := hspread.named q hq
  rw [heq] at hinp
  omega

/-- Grouping by keys only changes the order. -/
theorem perm_flatMap_filter [DecidableEq κ] (entries : List (κ × β)) :
    ((entries.map (·.1)).eraseDups.flatMap fun key => entries.filter (·.1 = key)).Perm entries := by
  induction hn : entries.length using Nat.strongRecOn generalizing entries with
  | _ n ih =>
    cases entries with
    | nil => exact .refl _
    | cons entry entries =>
      let rest := entries.filter (!·.1 == entry.1)
      have hshorter : rest.length < n := by
        have hle : rest.length ≤ entries.length := List.length_filter_le _ entries
        rw [← hn, List.length_cons]
        omega
      have hkeys : ((entry :: entries).map (·.1)).eraseDups
          = entry.1 :: (rest.map (·.1)).eraseDups := by
        rw [List.map_cons, List.eraseDups_cons, List.filter_map]
        rfl
      -- The other groups are groups of what is left without the first key.
      have hgroups : ∀ key ∈ (rest.map (·.1)).eraseDups,
          (entry :: entries).filter (·.1 = key) = rest.filter (·.1 = key) := by
        intro key hkey
        obtain ⟨e, he, rfl⟩ := List.mem_map.mp (List.mem_eraseDups.mp hkey)
        have hother : e.1 ≠ entry.1 := by simpa using (List.mem_filter.mp he).2
        rw [List.filter_cons_of_neg (by simpa using hother.symm), List.filter_filter]
        apply List.filter_congr
        intro e' _
        by_cases heq : e'.1 = e.1
        · simp [heq, hother]
        · simp [heq]
      have hrest : (entry :: entries).filter (fun e => !decide (e.1 = entry.1)) = rest := by
        rw [List.filter_cons_of_neg (by simp)]
        apply List.filter_congr
        intro e _
        by_cases heq : e.1 = entry.1 <;> simp [heq]
      have hparts := List.filter_append_perm (fun e => decide (e.1 = entry.1)) (entry :: entries)
      rw [hrest] at hparts
      rw [hkeys, List.flatMap_cons, List.flatMap_congr hgroups]
      exact ((ih _ hshorter rest rfl).append_left _).trans hparts

theorem flatMap_eq_of_forall₂ {f : α → List γ} {g : β → List γ} {as : List α} {bs : List β}
    (h : List.Forall₂ (fun a b => f a = g b) as bs) : as.flatMap f = bs.flatMap g := by
  induction h with
  | nil => rfl
  | cons hab _ ih => rw [List.flatMap_cons, List.flatMap_cons, hab, ih]

/-- The properties of all types of the model have different names, as far as their places go. -/
theorem Model.nodup_nameSpans (text : String) :
    ((ofUnit (Source.parse text).unit).types.flatMap fun id =>
      ((ofUnit (Source.parse text).unit).table.properties id).map (·.nameSpan)).Nodup := by
  let unit := (Source.parse text).unit
  let model := ofUnit unit
  let group (key : TypeKey) := unit.keyed.filter (·.1 = key)
  have hregisters := Source.registers_declared text
  have htypes : List.Forall₂ (fun key id => ((group key).flatMap (·.2.properties)).map (·.name.span)
      = (model.table.properties id).map (·.nameSpan)) (unit.keyed.map (·.1)).eraseDups model.types := by
    apply forall₂_imp_of_mem_right hregisters.types
    intro key id hid hkey
    have hall := forall₂_properties text hid (hkey.mono (keeps_declared unit))
    have hspans : List.Forall₂ (fun p (symbol : PropertySymbol) => p.name.span = symbol.nameSpan)
        ((group key).flatMap (·.2.properties)) (model.table.properties id) :=
      hall.imp fun p symbol hsymbol => hsymbol.describes.nameSpan.symm
    rw [← List.forall₂_eq_eq_eq, List.forall₂_map_left_iff, List.forall₂_map_right_iff]
    exact hspans
  -- Type by type or declaration by declaration, these are the properties of the text.
  have hgroups : ((unit.keyed.map (·.1)).eraseDups.flatMap group).flatMap (·.2.properties)
      |>.Perm unit.properties := by
    have hdeclarations : unit.keyed.flatMap (·.2.properties) = unit.properties := by
      rw [SourceUnit.properties, ← unit.map_snd_keyed, List.flatMap_map]
    exact hdeclarations ▸ (perm_flatMap_filter unit.keyed).flatMap_right _
  rw [← flatMap_eq_of_forall₂ htypes]
  rw [← List.map_flatMap, ← List.flatMap_assoc]
  exact ((hgroups.map _).nodup_iff).mpr (Source.nodup_name_spans text)

/-! ## Findings -/

theorem typeProblem?_ne_invalidType {declared : TypeId} {value : Constant}
    (h : typeProblem? declared value = some problem) (reason : Unbindable) :
    problem ≠ .invalidType reason := by
  rintro rfl
  rw [typeProblem?] at h
  split at h
  · split at h <;> cases h
  · cases h

theorem attributeProblem?_ne_invalidType {declared : TypeId} {a : AppliedAttribute} (h : attributeProblem? declared a = some problem) (reason : Unbindable) :
    problem ≠ .invalidType reason := by
  rw [attributeProblem?] at h
  split at h
  · exact typeProblem?_ne_invalidType h reason
  · cases h
    exact Problem.noConfusion
  · obtain ⟨_, -, hvalue⟩ := List.exists_of_findSome?_eq_some h
    exact typeProblem?_ne_invalidType hvalue reason

/-- The rule about explicit types reports nothing about types that cannot be bound. -/
theorem Rule.explicitType_ne_invalidType {aot : Bool} {model : Model} {p : BindingProperty} (h : explicitType.problem? aot model p = some problem)
    (reason : Unbindable) : problem ≠ .invalidType reason := by
  simp only [explicitType] at h
  split at h
  · cases h
  · obtain ⟨_, -, hproblem⟩ := List.exists_of_findSome?_eq_some h
    exact attributeProblem?_ne_invalidType hproblem reason

theorem Problem.id_ne_of_ne_invalidType
    (h : ∀ reason, problem ≠ .invalidType reason) :
    problem.descriptor.id ≠ Descriptor.invalidType.id := by
  cases problem with
  | invalidType reason => exact absurd rfl (h reason)
  | missingType => decide
  | mismatchedType found => exact fun heq => absurd heq (by decide : Descriptor.mismatchedType.id ≠ _)

namespace Analyzer

variable (a : Analyzer) (model : Model)

/-- The rules report different kinds of problems with a property. -/
theorem nodup_findings (p : BindingProperty) :
    ((a.findings model p).map (·.problem.descriptor.id)).Nodup := by
  rw [findings, Rule.all]
  cases hexplicit : Rule.explicitType.problem? a.aot model p with
  | none =>
    cases hbound : Rule.propertyType.problem? a.aot model p <;> simp [hexplicit, hbound]
  | some problem =>
    cases hbound : Rule.propertyType.problem? a.aot model p with
    | none => simp [hexplicit, hbound]
    | some problem' =>
      obtain ⟨reason, rfl⟩ := Rule.exists_invalidType hbound
      have hid : problem.descriptor.id ≠ (Problem.invalidType reason).descriptor.id :=
        Problem.id_ne_of_ne_invalidType (Rule.explicitType_ne_invalidType hexplicit)
      simpa [hexplicit, hbound] using hid

/-- What is reported for a property. -/
def reports (p : BindingProperty) : List Diagnostic :=
  (a.findings model p).filterMap fun f => a.applySeverity (f.diagnostic model.table)

theorem span_of_mem_reports {p : BindingProperty} {d : Diagnostic} (h : d ∈ a.reports model p) :
    d.span = p.property.nameSpan := by
  obtain ⟨f, hf, hd⟩ := List.mem_filterMap.mp h
  obtain ⟨rule, -, hfound⟩ := List.mem_filterMap.mp hf
  obtain ⟨problem, -, rfl⟩ := Option.map_eq_some_iff.mp hfound
  rw [a.span_of_applySeverity hd, Finding.span_diagnostic]

/-- No two reports for a property are of one kind. -/
theorem nodup_reports (p : BindingProperty) : ((a.reports model p).map (·.id)).Nodup := by
  have hsublist (fs : List Finding) :
      ((fs.filterMap fun f => a.applySeverity (f.diagnostic model.table)).map (·.id)).Sublist
        (fs.map (·.problem.descriptor.id)) := by
    induction fs with
    | nil => exact .slnil
    | cons f fs ih =>
      rw [List.filterMap_cons]
      cases hf : a.applySeverity (f.diagnostic model.table) with
      | none => exact ih.cons _
      | some d =>
        have hid : d.id = f.problem.descriptor.id := by
          rw [← f.id_diagnostic model.table, a.eq_of_applySeverity hf]
        rw [List.map_cons, hid]
        exact ih.cons_cons _
  exact (hsublist _).nodup (a.nodup_findings model p)

theorem analyze_eq_flatMap_reports :
    a.analyze model = model.bindingProperties.flatMap (a.reports model) := by
  rw [Model.bindingProperties, List.flatMap_assoc]
  rfl

/-- Reports for properties with different names do not share place and kind. -/
theorem nodup_flatMap_reports {ps : List BindingProperty}
    (h : (ps.map (·.property.nameSpan)).Nodup) :
    ((ps.flatMap (a.reports model)).map fun d => (d.span, d.id)).Nodup := by
  induction ps with
  | nil => exact List.nodup_nil
  | cons p ps ih =>
    obtain ⟨hfirst, hrest⟩ := List.nodup_cons.mp h
    rw [List.flatMap_cons, List.map_append, List.nodup_append]
    refine ⟨?_, ih hrest, ?_⟩
    · exact .of_map Prod.snd (by simpa [Function.comp_def] using a.nodup_reports model p)
    · intro key hkey key' hkey' heq
      obtain ⟨d, hd, rfl⟩ := List.mem_map.mp hkey
      obtain ⟨d', hd', rfl⟩ := List.mem_map.mp hkey'
      obtain ⟨q, hq, hd'⟩ := List.mem_flatMap.mp hd'
      have hspan : d.span = d'.span := congrArg Prod.fst heq
      rw [a.span_of_mem_reports model hd, a.span_of_mem_reports model hd'] at hspan
      exact hfirst (List.mem_map.mpr ⟨q, hq, hspan.symm⟩)

/-- No two diagnostics of an analysis share place and kind. -/
theorem nodup_analyze (a : Analyzer) (text : String) :
    ((a.analyze (Model.ofUnit (Source.parse text).unit)).map fun d => (d.span, d.id)).Nodup := by
  let model := Model.ofUnit (Source.parse text).unit
  rw [analyze_eq_flatMap_reports]
  apply nodup_flatMap_reports
  have hclass (cls : TypeId) : ((model.bindingPropertiesOf cls).map (·.property.nameSpan)).Sublist
      ((model.table.properties cls).map (·.nameSpan)) := by
    rw [Model.bindingPropertiesOf]
    induction model.table.properties cls with
    | nil => exact .slnil
    | cons p ps ih =>
      rw [List.filterMap_cons]
      dsimp only
      split
      · exact ih.cons _
      · next hsome =>
        split at hsome
        · cases hsome
        · cases hsome
          exact ih.cons_cons _
  have hall : (model.bindingProperties.map (·.property.nameSpan)).Sublist
      (model.types.flatMap fun id => (model.table.properties id).map (·.nameSpan)) := by
    rw [Model.bindingProperties, List.map_flatMap]
    exact (List.Sublist.flatMap_right _ fun cls _ => hclass cls).trans
      (List.filter_sublist.flatMap _)
  exact hall.nodup (Model.nodup_nameSpans text)

/-! ## Parallel analysis -/

/-- Whatever the order of the classes and the interleaving of their reports, the sorted reports are
    those of the analysis in source order, in which no two reports share place and kind. -/
theorem sort_eq_of_interleaves (options : Options) (text : String) {order : List TypeId}
    {sink : List Diagnostic}
    (horder : order.Perm (Model.ofUnit (Source.parse text).unit).settingsClasses)
    (hsink : Interleaves (order.map ((ofOptions options).analyzeClass
      (Model.ofUnit (Source.parse text).unit))) sink) :
    ∃ reported, (ofOptions options).analyzeUnlessCancelled false
        (Model.ofUnit (Source.parse text).unit) = .ok reported ∧
      Diagnostic.sort sink = Diagnostic.sort reported ∧
      (reported.map fun d => (d.span, d.id)).Nodup := by
  let a := ofOptions options
  let model := Model.ofUnit (Source.parse text).unit
  have hnodup := a.nodup_analyze text
  have hperm : (a.analyze model).Perm sink := by
    calc
      a.analyze model = (model.settingsClasses.map (a.analyzeClass model)).flatten := rfl
      List.Perm _ (order.map (a.analyzeClass model)).flatten := ((horder.symm.map _).flatten)
      List.Perm _ sink := hsink.perm_flatten.symm
  exact ⟨a.analyze model, rfl, (Diagnostic.sort_eq_of_perm hperm hnodup).symm, hnodup⟩

/-- The two classes of the sample in the other order, with their reports one from each in turn. -/
theorem sort_eq_of_interleaves_sampleSettings :
    ∃ x y z w reported,
      (Model.ofUnit (Source.parse sampleSettings).unit).settingsClasses.map
          ((ofOptions (.ofList [(Options.aotKey, "true")])).analyzeClass
            (Model.ofUnit (Source.parse sampleSettings).unit)) = [[x, y], [z, w]] ∧
      [x, y, z, w].map (·.span) = [⟨158, 159⟩, ⟨193, 194⟩, ⟨320, 321⟩, ⟨380, 381⟩] ∧
      Interleaves ((Model.ofUnit (Source.parse sampleSettings).unit).settingsClasses.reverse.map
          ((ofOptions (.ofList [(Options.aotKey, "true")])).analyzeClass
            (Model.ofUnit (Source.parse sampleSettings).unit))) [z, x, w, y] ∧
      (ofOptions (.ofList [(Options.aotKey, "true")])).analyzeUnlessCancelled false
        (Model.ofUnit (Source.parse sampleSettings).unit) = .ok reported ∧
      Diagnostic.sort [z, x, w, y] = Diagnostic.sort reported ∧
      (reported.map fun d => (d.span, d.id)).Nodup := by
  have hoptions : ofOptions (.ofList [(Options.aotKey, "true")]) = aheadOfTime := by decide
  have hreports := analyzeClass_sampleSettings.1
  rw [← hoptions] at hreports
  obtain ⟨lists, hlists⟩ : ∃ lists, (Model.ofUnit (Source.parse sampleSettings).unit).settingsClasses.map
      ((ofOptions (.ofList [(Options.aotKey, "true")])).analyzeClass
        (Model.ofUnit (Source.parse sampleSettings).unit)) = lists := ⟨_, rfl⟩
  rw [← Function.comp_def (List.map _), ← List.map_map, hlists] at hreports
  -- Each class has two reports.
  obtain ⟨first, rest, rfl, hfirst, hrest⟩ := List.map_eq_cons_iff.mp hreports
  obtain ⟨second, rfl, hsecond⟩ := List.map_eq_singleton_iff.mp hrest
  obtain ⟨x, rest, rfl, hx, hrest⟩ := List.map_eq_cons_iff.mp hfirst
  obtain ⟨y, rfl, hy⟩ := List.map_eq_singleton_iff.mp hrest
  obtain ⟨z, rest, rfl, hz, hrest⟩ := List.map_eq_cons_iff.mp hsecond
  obtain ⟨w, rfl, hw⟩ := List.map_eq_singleton_iff.mp hrest
  have hspans : [x, y, z, w].map (·.span)
      = [⟨158, 159⟩, ⟨193, 194⟩, ⟨320, 321⟩, ⟨380, 381⟩] := by
    simp [(Prod.mk.inj hx).2, (Prod.mk.inj hy).2, (Prod.mk.inj hz).2, (Prod.mk.inj hw).2]
  have hsink : Interleaves ((Model.ofUnit (Source.parse sampleSettings).unit).settingsClasses.reverse.map
      ((ofOptions (.ofList [(Options.aotKey, "true")])).analyzeClass
        (Model.ofUnit (Source.parse sampleSettings).unit))) [z, x, w, y] := by
    rw [List.map_reverse, hlists]
    have hdone : Interleaves [[], ([] : List Diagnostic)] [] := .done (by simp)
    have hlast : Interleaves [[], [y]] [y] := @Interleaves.next _ [[]] [] y [] [] hdone
    have hthird : Interleaves [[w], [y]] [w, y] := @Interleaves.next _ [] [[y]] w [] [y] hlast
    have hsecond : Interleaves [[w], [x, y]] [x, w, y] := @Interleaves.next _ [[w]] [] x [y] [w, y] hthird
    exact @Interleaves.next _ [] [[x, y]] z [w] [x, w, y] hsecond
  obtain ⟨reported, hreported, hsort, hnodup⟩ := sort_eq_of_interleaves
    (.ofList [(Options.aotKey, "true")]) sampleSettings (List.reverse_perm _) hsink
  exact ⟨x, y, z, w, reported, hlists, hspans, hsink, hreported, hsort, hnodup⟩

end Analyzer

end SettingsLint
