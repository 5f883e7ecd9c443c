import Mathlib.Data.List.Basic
import SettingsLint.Analysis
import SettingsLint.Proofs.Binding.Relocation

/-! # Rules do not look at places

A rule decides by the types of a property and of its attributes, and its finding is
reported at the name of the property. So a model with other places is reported on in the
same way at other places. Places that are not in the unit at all can be moved without any
effect, and so everything that is reported stands at a place of the unit.
-/

namespace SettingsLint

open Placed (relocate places)

/-! ## Settings classes -/

def BindingProperty.relocate (g : Place → Span) (p : BindingProperty) : BindingProperty :=
  ⟨p.cls, p.property.relocate g, p.attributes.map (·.relocate g)⟩

namespace Model

variable (g : Place → Span) (model : Model)

@[simp] theorem attributeIsOneOf_relocate (names : List String) (a : AppliedAttribute) :
    (model.relocate g).attributeIsOneOf names (a.relocate g) = model.attributeIsOneOf names a := by
  simp [attributeIsOneOf, Model.relocate, AppliedAttribute.relocate]

@[simp] theorem isBindingAttribute_relocate (a : AppliedAttribute) :
    (model.relocate g).isBindingAttribute (a.relocate g) = model.isBindingAttribute a :=
  attributeIsOneOf_relocate g model _ a

@[simp] theorem hasConverter_relocate (p : PropertySymbol) :
    (model.relocate g).hasConverter (p.relocate g) = model.hasConverter p := by
  simp [hasConverter, PropertySymbol.relocate, Function.comp_def]

@[simp] theorem isSettings_relocate (id : TypeId) :
    (model.relocate g).isSettings id = model.isSettings id := by
  simp [isSettings, Model.relocate]

@[simp] theorem settingsClasses_relocate :
    (model.relocate g).settingsClasses = model.settingsClasses :=
  List.filter_congr fun id _ => isSettings_relocate g model id

theorem bindingPropertiesOf_relocate (id : TypeId) :
    (model.relocate g).bindingPropertiesOf id
      = (model.bindingPropertiesOf id).map (·.relocate g) := by
  have hproperties : (model.relocate g).table.properties id
      = (model.table.properties id).map (·.relocate g) := TypeTable.properties_mapProperties _ _ id
  have hattributes (p : PropertySymbol) :
      (p.relocate g).attributes.filter (model.relocate g).isBindingAttribute
        = (p.attributes.filter model.isBindingAttribute).map (·.relocate g) := by
    simp [PropertySymbol.relocate, List.filter_map, Function.comp_def]
  rw [bindingPropertiesOf, bindingPropertiesOf, hproperties, List.filterMap_map, List.map_filterMap]
  congr 1
  funext p
  simp only [Function.comp, hattributes, List.isEmpty_map]
  split <;> rfl

end Model

/-! ## Rules -/

section

variable (g : Place → Span)

theorem Rule.problem?_relocate {rule : Rule} (h : rule ∈ Rule.all) (aot : Bool) (model : Model)
    (p : BindingProperty) :
    rule.problem? aot (model.relocate g) (p.relocate g) = rule.problem? aot model p := by
  have htype : (p.relocate g).property.type = p.property.type := rfl
  rcases List.mem_cons.mp h with rfl | h
  · have hproblem (a : AppliedAttribute) : attributeProblem? p.property.type (a.relocate g)
        = attributeProblem? p.property.type a := rfl
    simp only [explicitType, htype]
    simp [Model.relocate, BindingProperty.relocate, List.findSome?_map, Function.comp_def, hproblem]
  · rw [List.mem_singleton.mp h]
    simp only [propertyType, htype]
    simp [BindingProperty.relocate]
    simp [Model.relocate]

/-- The diagnostic about a property, whose name is the first argument, at another place. -/
def Diagnostic.atProperty (d : Diagnostic) : Diagnostic :=
  { d with span := g (.property (d.arguments.headD "") d.span) }

def Finding.relocate (f : Finding) : Finding := ⟨f.problem, f.property.relocate g⟩

theorem Finding.diagnostic_relocate (f : Finding) (t : TypeTable) :
    (f.relocate g).diagnostic (t.relocate g) = (f.diagnostic t).atProperty g := by
  have hproblem : (f.relocate g).problem = f.problem := rfl
  simp only [diagnostic, hproblem, TypeTable.display_mapProperties,
    TypeTable.isValueType_mapProperties]
  cases f.problem <;> rfl

end

/-! ## Analysis -/

namespace Analyzer

variable (g : Place → Span) (a : Analyzer)

/-- Severities are set in the same way at other places. -/
theorem applySeverity_map (move : Diagnostic → Diagnostic) (hid : ∀ d, (move d).id = d.id)
    (hseverity : ∀ d severity, move { d with severity } = { move d with severity })
    (d : Diagnostic) : a.applySeverity (move d) = (a.applySeverity d).map move := by
  have hlookup : a.overrides.lookup (move d).id = a.overrides.lookup d.id := by rw [hid]
  rw [applySeverity, applySeverity, hlookup]
  cases a.overrides.lookup d.id with
  | none => rfl
  | some override =>
    cases override with
    | error => exact congrArg some (hseverity d .error).symm
    | warning => exact congrArg some (hseverity d .warning).symm
    | suppress => rfl

theorem findings_relocate (model : Model) (p : BindingProperty) :
    a.findings (model.relocate g) (p.relocate g) = (a.findings model p).map (·.relocate g) := by
  have hrule (rule : Rule) (h : rule ∈ Rule.all) :
      (rule.problem? a.aot (model.relocate g) (p.relocate g)).map (⟨·, (p.relocate g).property⟩)
        = ((rule.problem? a.aot model p).map (⟨·, p.property⟩)).map (Finding.relocate g) := by
    rw [Rule.problem?_relocate g h, Option.map_map]
    rfl
  rw [findings, findings, List.map_filterMap]
  exact List.filterMap_congr hrule

theorem analyzeClass_relocate (model : Model) (cls : TypeId) :
    a.analyzeClass (model.relocate g) cls = (a.analyzeClass model cls).map (·.atProperty g) := by
  have hreport (f : Finding) :
      a.applySeverity ((f.relocate g).diagnostic (model.relocate g).table)
        = (a.applySeverity (f.diagnostic model.table)).map (·.atProperty g) := by
    have hdiagnostic : (f.relocate g).diagnostic (model.relocate g).table
        = (f.diagnostic model.table).atProperty g := f.diagnostic_relocate g model.table
    rw [hdiagnostic]
    exact a.applySeverity_map (·.atProperty g) (fun _ => rfl) (fun _ _ => rfl) _
  rw [analyzeClass, analyzeClass, Model.bindingPropertiesOf_relocate, List.flatMap_map,
    List.map_flatMap]
  congr 1
  funext p
  rw [findings_relocate, List.filterMap_map, List.map_filterMap]
  congr 1
  funext f
  exact hreport f

theorem analyze_relocate (model : Model) :
    a.analyze (model.relocate g) = (a.analyze model).map (·.atProperty g) := by
  rw [analyze, analyze, Model.settingsClasses_relocate, List.map_flatMap]
  exact congrArg List.flatten (List.map_congr_left fun cls _ => analyzeClass_relocate g a model cls)

end Analyzer

/-! ## Where diagnostics come from -/

theorem Analyzer.eq_of_applySeverity (a : Analyzer) {d d' : Diagnostic}
    (h : a.applySeverity d = some d') : d' = { d with severity := d'.severity } := by
  rw [applySeverity] at h
  split at h <;> cases h <;> rfl

/-- What the analysis reports is a finding about a binding property of a settings class,
    perhaps with another severity. -/
theorem Analyzer.exists_finding (a : Analyzer) {model : Model} {d : Diagnostic}
    (h : d ∈ a.analyze model) : ∃ cls ∈ model.settingsClasses, ∃ p ∈ model.bindingPropertiesOf cls,
      ∃ f ∈ a.findings model p, d = { f.diagnostic model.table with severity := d.severity } := by
  obtain ⟨cls, hcls, h⟩ := List.mem_flatMap.mp h
  obtain ⟨p, hp, h⟩ := List.mem_flatMap.mp h
  obtain ⟨f, hf, h⟩ := List.mem_filterMap.mp h
  exact ⟨cls, hcls, p, hp, f, hf, a.eq_of_applySeverity h⟩

/-- The first argument of a diagnostic about a property is its name. -/
theorem Finding.head?_arguments (f : Finding) (t : TypeTable) :
    (f.diagnostic t).arguments.head? = some f.property.name := by
  rw [diagnostic]
  cases f.problem <;> rfl

section

open Classical in
/-- Moves every place that is not in the unit. -/
noncomputable def SourceUnit.shake (unit : SourceUnit) (p : Place) : Span :=
  if p ∈ places unit then p.span else ⟨p.span.start + 1, p.span.stop⟩

theorem SourceUnit.relocate_shake (unit : SourceUnit) : relocate unit.shake unit = unit :=
  LawfulPlaced.relocate_eq_self fun _ hp => if_pos hp

theorem SourceUnit.mem_places_of_shake {unit : SourceUnit} {p : Place}
    (h : unit.shake p = p.span) : p ∈ places unit := by
  by_contra hp
  rw [shake, if_neg hp] at h
  exact absurd (congrArg Span.start h) (Nat.succ_ne_self _)

/-- A name that does not resolve is reported at a node of the unit. -/
theorem Model.node_mem_places {unit : SourceUnit} {d : Diagnostic}
    (h : d ∈ (ofUnit unit).diagnostics) : Place.node d.span ∈ places unit := by
  have hmodel := ofUnit_relocate unit.shake unit
  rw [unit.relocate_shake] at hmodel
  have hfixed := eq_of_map_eq_self (congrArg Model.diagnostics hmodel).symm h
  exact SourceUnit.mem_places_of_shake (congrArg Diagnostic.span hfixed)

/-- What a rule finds is reported at the name of a property of the unit. -/
theorem Analyzer.property_mem_places (a : Analyzer) {unit : SourceUnit} {d : Diagnostic}
    (h : d ∈ a.analyze (Model.ofUnit unit)) :
    Place.property (d.arguments.headD "") d.span ∈ places unit := by
  have hmodel := Model.ofUnit_relocate unit.shake unit
  rw [unit.relocate_shake] at hmodel
  have hanalyze := a.analyze_relocate unit.shake (Model.ofUnit unit)
  rw [← hmodel] at hanalyze
  have hfixed := eq_of_map_eq_self hanalyze.symm h
  exact SourceUnit.mem_places_of_shake (congrArg Diagnostic.span hfixed)

end

end SettingsLint
