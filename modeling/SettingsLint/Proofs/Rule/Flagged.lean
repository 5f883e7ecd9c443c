import SettingsLint.Proofs.Analysis.Findings
import SettingsLint.Proofs.Binding.Provenance
import SettingsLint.Proofs.Reading.PropertySpans
import SettingsLint.Proofs.Rule.Relocation

/-! # Flagged properties

What can be fixed was found by the rule about explicit types. It is reported at the name of a
property of the source, which the symbol that the rule looked at was bound from.
-/

namespace SettingsLint

variable {model : Model} {b : BindingProperty} {a : Analyzer} {d : Diagnostic}

/-- What is not about the syntax or about names comes from the rules. -/
theorem Analyzer.mem_analyze_of_id {source : Source}
    (hd : d ∈ a.check source) (hid : d.id ∉ [Diagnostic.syntaxErrorId, Diagnostic.unresolvedTypeId,
      Diagnostic.unresolvedAttributeId]) : d ∈ a.analyze (Model.ofUnit source.unit) := by
  rw [check, report, Diagnostic.sort, List.mem_mergeSort, List.mem_append, List.mem_filterMap] at hd
  refine hd.resolve_left ?_
  rintro ⟨d', hd', happly⟩
  apply hid
  have hsame : d.id = d'.id := by rw [a.eq_of_applySeverity happly]
  rw [hsame]
  rcases List.mem_append.mp hd' with hd' | hd'
  · obtain ⟨e, -, rfl⟩ := List.mem_map.mp hd'
    exact List.mem_cons_self
  · exact List.mem_cons_of_mem _ (Model.id_of_mem_diagnostics hd')

/-- What is reported about the syntax or about names cannot be fixed. -/
theorem Analyzer.mem_analyze_of_fixable {source : Source}
    (hd : d ∈ a.check source) (hfix : Fix.isFixable d.id = true) :
    d ∈ a.analyze (Model.ofUnit source.unit) := by
  have hnone : ∀ id ∈ [Diagnostic.syntaxErrorId, Diagnostic.unresolvedTypeId,
      Diagnostic.unresolvedAttributeId], Fix.isFixable id = false := by decide
  refine mem_analyze_of_id hd fun hid => ?_
  rw [hnone _ hid] at hfix
  cases hfix

/-- The diagnostic is about how the property `p` of the source names its type; the rule saw it as
    the symbol of `b`. -/
structure Source.Flagged (source : Source) (d : Diagnostic) (p : Property) (b : BindingProperty) :
    Prop where
  mem : b ∈ (Model.ofUnit source.unit).bindingProperties
  problem : ∃ problem,
    Rule.explicitType.problem? true (Model.ofUnit source.unit) b = some problem ∧
      d = { Finding.diagnostic ⟨problem, b.property⟩ (Model.ofUnit source.unit).table with
        severity := d.severity }
  bound : ∃ declared ∈ source.unit.declared.declared, p ∈ declared.declaration.properties ∧
    ∃ s : BindState, source.unit.declared.table.Extends s.table ∧
      (Bind.property declared.context p s).2.table.Extends (Model.ofUnit source.unit).table ∧
      b.property = (Bind.property declared.context p s).1

/-- Every diagnostic that can be fixed is about a property of the source. -/
theorem Analyzer.exists_flagged {source : Source}
    (hd : d ∈ a.check source) (hfix : Fix.isFixable d.id = true) : ∃ p b, source.Flagged d p b := by
  obtain ⟨cls, hcls, b, hb, f, hf, heq⟩ := a.exists_finding (mem_analyze_of_fixable hd hfix)
  rw [heq, Finding.id_diagnostic] at hfix
  obtain ⟨hproblem, hproperty⟩ := problem?_of_fixable hf hfix
  obtain ⟨declared, hdeclared, p, hp, s, -, hs⟩ :=
    (Model.boundIn_of_mem (Model.property_mem_of_mem hb)).source
  refine ⟨p, b, List.mem_flatMap.mpr ⟨cls, hcls, hb⟩, ⟨f.problem, hproblem, ?_⟩,
    declared, hdeclared, hp, s, hs⟩
  rwa [← hproperty]

namespace Source.Flagged

variable {source : Source} {p : Property}

theorem mem_properties (h : source.Flagged d p b) : p ∈ source.unit.properties := by
  obtain ⟨declared, hdeclared, hp, -⟩ := h.bound
  exact List.mem_flatMap.mpr ⟨_, DeclareState.mem_declareUnit hdeclared, hp⟩

theorem span_eq (h : source.Flagged d p b) : d.span = p.name.span := by
  obtain ⟨problem, -, hd⟩ := h.problem
  obtain ⟨declared, -, -, s, -, -, hsymbol⟩ := h.bound
  rw [hd]
  refine (Finding.span_diagnostic _ _).trans ?_
  rw [hsymbol]
  rfl

/-- The property is the one found at the place of the diagnostic. -/
theorem propertyAt?_eq {text : String} (h : (Source.parse text).Flagged d p b) :
    (Source.parse text).unit.propertyAt? d.span.start = some p := by
  rw [h.span_eq]
  exact Source.propertyAt?_name h.mem_properties

end Source.Flagged

end SettingsLint
