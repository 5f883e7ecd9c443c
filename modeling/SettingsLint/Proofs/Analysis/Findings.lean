import SettingsLint.Main

/-! # Findings of the rules

What the rules look at and what they find: the binding properties of a class are properties of it,
and what can be fixed is found by the rule about explicit types.
-/

namespace SettingsLint

variable {model : Model} {b : BindingProperty} {a : Analyzer} {d : Diagnostic}

/-- A binding property of a class is one of its properties. -/
theorem Model.property_mem_of_mem {cls : TypeId}
    (h : b ∈ model.bindingPropertiesOf cls) : b.property ∈ model.table.properties cls := by
  obtain ⟨symbol, hsymbol, hpair⟩ := List.mem_filterMap.mp h
  dsimp only at hpair
  split at hpair
  · cases hpair
  · rw [← Option.some.inj hpair]
    exact hsymbol

/-- The binding attributes are those of the symbol, and there are some. -/
theorem Model.attributes_of_mem
    (h : b ∈ model.bindingProperties) :
    b.attributes = b.property.attributes.filter model.isBindingAttribute ∧ b.attributes ≠ [] := by
  obtain ⟨cls, -, hb⟩ := List.mem_flatMap.mp h
  obtain ⟨symbol, -, hpair⟩ := List.mem_filterMap.mp hb
  dsimp only at hpair
  split at hpair
  · cases hpair
  · next hne =>
    rw [← Option.some.inj hpair]
    exact ⟨rfl, fun hnil => hne (List.isEmpty_iff.mpr hnil)⟩

theorem Finding.id_diagnostic (f : Finding) (t : TypeTable) :
    (f.diagnostic t).id = f.problem.descriptor.id := by
  rw [diagnostic]
  cases f.problem <;> rfl

theorem Finding.span_diagnostic (f : Finding) (t : TypeTable) :
    (f.diagnostic t).span = f.property.nameSpan := by
  rw [diagnostic]
  cases f.problem <;> rfl

/-- Only the declared type itself is right for a property. -/
theorem typeProblem?_eq_none_iff (declared : TypeId) (value : Constant) :
    typeProblem? declared value = none ↔ value = .type declared := by
  cases value with
  | type found => simp [typeProblem?, Constant.type?]
  | _ => simp [typeProblem?, Constant.type?]

/-- The rule about types that can be bound reports nothing else. -/
theorem Rule.exists_invalidType {aot : Bool}
    {problem : Problem} (h : propertyType.problem? aot model b = some problem) :
    ∃ reason, problem = .invalidType reason := by
  simp only [propertyType] at h
  split at h
  · cases h
  · obtain ⟨reason, -, rfl⟩ := Option.map_eq_some_iff.mp h
    exact ⟨reason, rfl⟩

/-- What can be fixed is found by the rule about explicit types. -/
theorem Analyzer.problem?_of_fixable {f : Finding}
    (hf : f ∈ a.findings model b) (hfix : Fix.isFixable f.problem.descriptor.id = true) :
    Rule.explicitType.problem? true model b = some f.problem ∧ f.property = b.property := by
  obtain ⟨rule, hrule, hfound⟩ := List.mem_filterMap.mp hf
  obtain ⟨problem, hproblem, rfl⟩ := Option.map_eq_some_iff.mp hfound
  rcases List.mem_cons.mp hrule with rfl | hrule
  · cases haot : a.aot with
    | true => exact ⟨haot ▸ hproblem, rfl⟩
    | false =>
      rw [haot] at hproblem
      cases hproblem
  · rw [List.mem_singleton.mp hrule] at hproblem
    obtain ⟨reason, rfl⟩ := Rule.exists_invalidType hproblem
    cases hfix

/-- What the rules find is part of what is reported. -/
theorem Analyzer.mem_check_of_mem_analyze {source : Source}
    (h : d ∈ a.analyze (Model.ofUnit source.unit)) : d ∈ a.check source := by
  rw [check, report, Diagnostic.sort, List.mem_mergeSort]
  exact List.mem_append_right _ h

/-! ## A source with flagged properties -/

/-- Two settings classes with two properties each, whose types have to be named. -/
def sampleSettings : String :=
  "using Spectre.Console.Cli;\nusing Opt = Spectre.Console.Cli.CommandOptionAttribute;\n" ++
  "class S : CommandSettings \x7b\n" ++
  "  [CommandOption(typeof(int), \"x\")] System.Uri X \x7b get; \x7d\n" ++
  "  [Opt(\"y\")] System.Uri Y \x7b get; \x7d\n\x7d\n" ++
  "class T : CommandSettings \x7b\n" ++
  "  [CommandOption(optionType = typeof(int), argumentType = typeof(string))] System.Uri Z " ++
    "\x7b get; \x7d\n" ++
  "  [CommandArgument, System.Attribute] System.Uri W \x7b get; \x7d\n\x7d\n"

/-- The analysis ahead of time, with the usual severities. -/
def Analyzer.aheadOfTime : Analyzer := ⟨true, []⟩

set_option maxRecDepth 100000 in
/-- What is reported for each class of the sample. The attributes of the properties are all of the
    library, and no alias is called like those of the last property. -/
theorem Analyzer.analyzeClass_sampleSettings :
    (Model.ofUnit (Source.parse sampleSettings).unit).settingsClasses.map (fun cls =>
        (aheadOfTime.analyzeClass (Model.ofUnit (Source.parse sampleSettings).unit) cls).map
          fun d => (d.id, d.span))
      = [[("Spectre1050", ⟨158, 159⟩), ("Spectre1050", ⟨193, 194⟩)],
        [("Spectre1051", ⟨320, 321⟩), ("Spectre1050", ⟨380, 381⟩)]] ∧
    (∀ cls ∈ (Model.ofUnit (Source.parse sampleSettings).unit).settingsClasses,
      ∀ symbol ∈ (Model.ofUnit (Source.parse sampleSettings).unit).table.properties cls,
      ∀ a ∈ symbol.attributes, ∀ id ∈ a.cls, id.index < TypeTable.withLibrary.size) ∧
    ∀ declared ∈ (DeclareState.declareUnit { table := .withLibrary }
        (Source.parse sampleSettings).unit).declared, ∀ scope ∈ declared.context.scopes,
      ∀ name ∈ ["CommandArgumentAttribute", "CommandArgument", "AttributeAttribute", "Attribute"],
        findAlias scope.usings name = none := by
  decide +kernel

/-- The properties of the sample are flagged, at their names. -/
theorem Analyzer.exists_check_sampleSettings {offset : Nat} (h : offset ∈ [158, 193, 320, 380]) :
    ∃ d ∈ aheadOfTime.check (Source.parse sampleSettings),
      d.span = ⟨offset, offset + 1⟩ ∧ Fix.isFixable d.id = true := by
  have hall : ∀ offset ∈ [158, 193, 320, 380], ∃ reports ∈
      [[("Spectre1050", ⟨158, 159⟩), ("Spectre1050", ⟨193, 194⟩)],
        [("Spectre1051", ⟨320, 321⟩), ("Spectre1050", (⟨380, 381⟩ : Span))]],
      ∃ report ∈ reports, report.2 = ⟨offset, offset + 1⟩ ∧ Fix.isFixable report.1 = true := by
    decide
  obtain ⟨reports, hreports, report, hreport, hspan, hfix⟩ := hall offset h
  rw [← analyzeClass_sampleSettings.1] at hreports
  obtain ⟨cls, hcls, rfl⟩ := List.mem_map.mp hreports
  obtain ⟨d, hd, rfl⟩ := List.mem_map.mp hreport
  exact ⟨d, mem_check_of_mem_analyze (List.mem_flatMap.mpr ⟨cls, hcls, hd⟩), hspan, hfix⟩

end SettingsLint
