import SettingsLint.Proofs.Rule.Flagged

/-! # Where findings are located

A finding is reported at the name of a property, and the fixer looks for the property by this
place. Properties do not overlap, so the fixer comes to the property that the rules looked at, in
any text, whatever its syntax errors.
-/

namespace SettingsLint

/-- The diagnostic is what the analyzer reports for a finding about the property `p` of the
    source: the rules looked at a symbol that was bound from `p`. -/
def Analyzer.ReportsOn (a : Analyzer) (source : Source) (d : Diagnostic) (p : Property) : Prop :=
  ∃ b ∈ (Model.ofUnit source.unit).bindingProperties,
    ∃ f ∈ a.findings (Model.ofUnit source.unit) b,
      a.applySeverity (f.diagnostic (Model.ofUnit source.unit).table) = some d ∧
        ∃ declared ∈ source.unit.declared.declared, p ∈ declared.declaration.properties ∧
          ∃ s : BindState, f.property = (Bind.property declared.context p s).1

namespace Analyzer

variable {a : Analyzer} {source : Source} {d : Diagnostic} {p : Property}

theorem ReportsOn.mem_properties (h : a.ReportsOn source d p) : p ∈ source.unit.properties := by
  obtain ⟨-, -, -, -, -, declared, hdeclared, hp, -⟩ := h
  exact List.mem_flatMap.mpr ⟨_, DeclareState.mem_declareUnit hdeclared, hp⟩

/-- A finding is reported at the name of its property. -/
theorem ReportsOn.span_eq (h : a.ReportsOn source d p) : d.span = p.name.span := by
  obtain ⟨b, -, f, -, happly, declared, -, -, s, hsymbol⟩ := h
  rw [a.eq_of_applySeverity happly]
  refine (Finding.span_diagnostic _ _).trans ?_
  rw [hsymbol]
  rfl

/-- What the rules report is about some property of the source. -/
theorem exists_reportsOn (hd : d ∈ a.analyze (Model.ofUnit source.unit)) :
    ∃ p, a.ReportsOn source d p := by
  obtain ⟨cls, hcls, hd⟩ := List.mem_flatMap.mp hd
  obtain ⟨b, hb, hd⟩ := List.mem_flatMap.mp hd
  obtain ⟨f, hf, happly⟩ := List.mem_filterMap.mp hd
  obtain ⟨declared, hdeclared, p, hp, s, -, -, -, hsymbol⟩ :=
    (Model.boundIn_of_mem (Model.property_mem_of_mem hb)).source
  have hproperty : f.property = b.property := by
    obtain ⟨rule, -, hfound⟩ := List.mem_filterMap.mp hf
    obtain ⟨problem, -, rfl⟩ := Option.map_eq_some_iff.mp hfound
    rfl
  exact ⟨p, b, List.mem_flatMap.mpr ⟨cls, hcls, hb⟩, f, hf, happly, declared, hdeclared, hp, s,
    hproperty.trans hsymbol⟩

end Analyzer

/-- The properties of a text lie one after the other, so the property at a place is the one whose
    declaration covers it, and a property is found at the start of its name. Every diagnostic of a
    rule is thus located in the one property that it is about, and the fixer edits the attributes
    of this property. -/
theorem Source.properties_located (text : String) :
    let source := Source.parse text
    source.unit.allProperties.Pairwise (fun p q => p.span.stop ≤ q.span.start) ∧
    (∀ offset p, source.unit.propertyAt? offset = some p ↔
      p ∈ source.unit.allProperties ∧ p.span.containsOffset offset = true) ∧
    (∀ p ∈ source.unit.allProperties, source.unit.propertyAt? p.name.span.start = some p) ∧
    ∀ a : Analyzer, ∀ d ∈ a.check source, d.id ∈ Descriptor.catalog.map (·.id) →
      ∃ p, source.unit.propertyAt? d.span.start = some p ∧
        (∀ q, a.ReportsOn source d q ↔ q = p) ∧
        ∀ fix, Fix.fix? source d = some fix → ∃ typeOf : String,
          fix.edits = (p.ownAttributes.filter TypeArgumentFix.isBinding).map
            (TypeArgumentFix.editFor typeOf) := by
  intro source
  have hperm := source.unit.perm_allProperties
  refine ⟨(Source.spread_parse text).apart, Source.propertyAt?_eq_some_iff text,
    fun p hp => Source.propertyAt?_name (hperm.mem_iff.mpr hp), fun a d hd hid => ?_⟩
  have hrule : ∀ id ∈ Descriptor.catalog.map (·.id), id ∉ [Diagnostic.syntaxErrorId,
      Diagnostic.unresolvedTypeId, Diagnostic.unresolvedAttributeId] := by decide
  obtain ⟨p, hp⟩ := Analyzer.exists_reportsOn (Analyzer.mem_analyze_of_id hd (hrule _ hid))
  have located {q : Property} (hq : a.ReportsOn source d q) :
      source.unit.propertyAt? d.span.start = some q := by
    rw [hq.span_eq]
    exact Source.propertyAt?_name hq.mem_properties
  refine ⟨p, located hp, fun q => ⟨fun hq => ?_, fun hq => hq ▸ hp⟩, fun fix hfix => ?_⟩
  · exact Option.some.inj ((located hq).symm.trans (located hp))
  · rw [Fix.fix?] at hfix
    split at hfix
    · rw [TypeArgumentFix.fix?, located hp] at hfix
      simp only [Option.bind_eq_bind, Option.bind_some] at hfix
      split at hfix
      · cases hfix
      · exact ⟨_, by rw [← Option.some.inj hfix]⟩
    · cases hfix

end SettingsLint
