import SettingsLint.Proofs.Analysis.Layout
import SettingsLint.Proofs.Options.Validation
import SettingsLint.Proofs.Rule.Flagged

/-! # Severities are set after the analysis

What options say about severities does not change what is found: the report is the one without
such options, with each diagnostic given its severity or dropped. So an option for one kind of
problem leaves all other kinds alone, and no option touches the syntax errors.
-/

namespace SettingsLint

/-! ## Options about severities -/

namespace Options

/-- The options without those about severities. -/
def withoutSeverities (options : Options) : Options where
  entries := options.entries.filter (!isSeverityKey ·.1)
  sorted := options.sorted.filter _

theorem lookup_filter_key (p : String → Bool) (key : String) (entries : List (String × String)) :
    (entries.filter (p ·.1)).lookup key = if p key then entries.lookup key else none := by
  induction entries with
  | nil => simp
  | cons entry entries ih =>
    obtain ⟨k, v⟩ := entry
    by_cases hkey : key = k
    · subst hkey
      by_cases hp : p key <;> simp [hp, ih]
    · by_cases hp : p k <;> simp [List.lookup_cons, hp, ih, beq_false_of_ne hkey]

theorem get?_withoutSeverities (options : Options) (key : String) :
    options.withoutSeverities.get? key = if isSeverityKey key then none else options.get? key := by
  rw [TextMap.get?, withoutSeverities, lookup_filter_key (!isSeverityKey ·)]
  cases isSeverityKey key <;> rfl

theorem isSeverityKey_aotKey : isSeverityKey aotKey = false := by
  decide

theorem severityKey_injective {id id' : String} (h : severityKey id = severityKey id') : id = id' := by
  have htexts := congrArg String.toList h
  simp only [severityKey, String.toList_append, List.append_assoc] at htexts
  exact String.toList_injective (List.append_cancel_right (List.append_cancel_left htexts))

@[simp] theorem aot_withoutSeverities (options : Options) :
    options.withoutSeverities.aot = options.aot := by
  simp [aot, get?_withoutSeverities, isSeverityKey_aotKey]

@[simp] theorem aot_insert_severityKey (options : Options) (id value : String) :
    aot (options.insert (severityKey id) value) = options.aot := by
  have hdiffer : aotKey ≠ severityKey id := by
    intro h
    have hkey := isSeverityKey_severityKey id
    rw [← h, isSeverityKey_aotKey] at hkey
    cases hkey
  simp [aot, TextMap.get?_insert, hdiffer]

end Options

/-- The diagnostic without its severity. -/
def Diagnostic.bare (d : Diagnostic) : Diagnostic := { d with severity := default }

namespace Analyzer

/-! ## The severity of one diagnostic -/

theorem lookup_filterMap_pair (value? : String → Option SeverityOverride) (id : String)
    (ids : List String) :
    (ids.filterMap fun i => (value? i).map (i, ·)).lookup id
      = if id ∈ ids then value? id else none := by
  induction ids with
  | nil => simp
  | cons i ids ih =>
    by_cases hid : id = i
    · subst hid
      cases hvalue : value? id with
      | none => simp [hvalue, ih]
      | some value => simp [hvalue]
    · cases hvalue : value? i with
      | none => simp [hvalue, ih, hid]
      | some value => simp [List.lookup_cons, hvalue, ih, hid, beq_false_of_ne hid]

/-- Options set the severities of the configurable kinds of problems, each by its own key. -/
theorem lookup_overrides (options : Options) (id : String) :
    (ofOptions options).overrides.lookup id
      = if id ∈ configurableIds then
          (options.get? (Options.severityKey id)).bind SeverityOverride.ofName?
        else none :=
  lookup_filterMap_pair
    (fun id => (options.get? (Options.severityKey id)).bind SeverityOverride.ofName?) id _

/-- The analyzer that sets no severities. -/
def plain (a : Analyzer) : Analyzer := { a with overrides := [] }

theorem ofOptions_withoutSeverities (options : Options) :
    ofOptions options.withoutSeverities = (ofOptions options).plain := by
  have hnone : (ofOptions options.withoutSeverities).overrides = [] := by
    simp [ofOptions, Options.get?_withoutSeverities]
  have haot : (ofOptions options.withoutSeverities).aot = (ofOptions options).aot :=
    options.aot_withoutSeverities
  rw [plain, ← haot, ← hnone]

variable {a b : Analyzer}

@[simp] theorem applySeverity_plain (a : Analyzer) (d : Diagnostic) :
    a.plain.applySeverity d = some d := rfl

theorem applySeverity_congr {d : Diagnostic}
    (h : a.overrides.lookup d.id = b.overrides.lookup d.id) :
    a.applySeverity d = b.applySeverity d := by
  rw [applySeverity, applySeverity, h]

theorem id_of_applySeverity {d d' : Diagnostic} (h : a.applySeverity d = some d') :
    d'.id = d.id := by
  rw [a.eq_of_applySeverity h]

/-! ## The severities of a report -/

theorem findings_plain (a : Analyzer) (model : Model) (p : BindingProperty) :
    a.plain.findings model p = a.findings model p := rfl

theorem analyze_eq_filterMap (a : Analyzer) (model : Model) :
    a.analyze model = (a.plain.analyze model).filterMap a.applySeverity := by
  have hclass (cls : TypeId) :
      a.analyzeClass model cls = (a.plain.analyzeClass model cls).filterMap a.applySeverity := by
    simp only [analyzeClass, findings_plain, applySeverity_plain, List.filterMap_flatMap,
      List.filterMap_filterMap, Option.bind_some]
  rw [analyze, analyze, List.filterMap_flatMap]
  exact congrArg List.flatten (List.map_congr_left fun cls _ => hclass cls)

theorem check_plain (a : Analyzer) (source : Source) :
    a.plain.check source = Diagnostic.sort (source.diagnostics ++
      (Model.ofUnit source.unit).diagnostics ++ a.plain.analyze (Model.ofUnit source.unit)) := by
  have hall (ds : List Diagnostic) : ds.filterMap a.plain.applySeverity = ds := List.filterMap_some
  rw [check, report, hall]

/-- The report is the plain report with the severities set afterwards. -/
theorem check_eq_filterMap_plain (a : Analyzer) (source : Source) :
    a.check source = (a.plain.check source).filterMap a.applySeverity := by
  have hkeep (d d' : Diagnostic) (h : a.applySeverity d = some d') :
      d'.span = d.span ∧ d'.id = d.id :=
    ⟨a.span_of_applySeverity h, id_of_applySeverity h⟩
  rw [check_plain, Diagnostic.filterMap_sort hkeep, List.filterMap_append, ← analyze_eq_filterMap]
  rfl

/-- Kinds of problems with the same severities are reported in the same way. -/
theorem filter_check_congr (haot : a.aot = b.aot) (source : Source) {p : String → Bool}
    (h : ∀ id, p id = true → a.overrides.lookup id = b.overrides.lookup id) :
    (a.check source).filter (p ·.id) = (b.check source).filter (p ·.id) := by
  have hplain : a.plain = b.plain := by rw [plain, plain, haot]
  rw [check_eq_filterMap_plain a, check_eq_filterMap_plain b, hplain]
  induction b.plain.check source with
  | nil => rfl
  | cons d ds ih =>
    by_cases hp : p d.id = true
    · have hsame : a.applySeverity d = b.applySeverity d := applySeverity_congr (h d.id hp)
      cases hd : b.applySeverity d with
      | none => rw [List.filterMap_cons_none (hsame.trans hd), List.filterMap_cons_none hd, ih]
      | some d' =>
        rw [List.filterMap_cons_some (hsame.trans hd), List.filterMap_cons_some hd,
          List.filter_cons, List.filter_cons, ih]
    · -- Whatever becomes of the diagnostic, its kind is kept, so it is filtered out.
      have hdrop (c : Analyzer) (es : List Diagnostic) :
          ((d :: es).filterMap c.applySeverity).filter (p ·.id)
            = (es.filterMap c.applySeverity).filter (p ·.id) := by
        cases hd : c.applySeverity d with
        | none => rw [List.filterMap_cons_none hd]
        | some d' =>
          have hid : p d'.id = false := by simpa [id_of_applySeverity hd] using hp
          rw [List.filterMap_cons_some hd, List.filter_cons_of_neg (by simp [hid])]
      rw [hdrop, hdrop, ih]

/-- Setting severities drops diagnostics or changes their severity, and nothing else. -/
theorem map_bare_sublist (a : Analyzer) (ds : List Diagnostic) :
    ((ds.filterMap a.applySeverity).map (·.bare)).Sublist (ds.map (·.bare)) := by
  induction ds with
  | nil => simp
  | cons d ds ih =>
    cases hd : a.applySeverity d with
    | none =>
      rw [List.filterMap_cons_none hd]
      exact ih.cons _
    | some d' =>
      have hbare : d'.bare = d.bare := by rw [a.eq_of_applySeverity hd]; rfl
      rw [List.filterMap_cons_some hd, List.map_cons, hbare]
      exact ih.cons_cons _

/-! ## Syntax errors -/

theorem id_of_mem_analyze {model : Model} {d : Diagnostic} (h : d ∈ a.analyze model) :
    d.id ∈ Descriptor.catalog.map (·.id) := by
  obtain ⟨cls, -, p, -, f, -, hd⟩ := a.exists_finding h
  rw [hd]
  rw [f.id_diagnostic]
  cases f.problem <;> simp [Problem.descriptor, Descriptor.catalog]

/-- Among the diagnostics of a report, the syntax errors are those of the source. -/
theorem filter_syntaxErrorId_check (options : Options) (source : Source) :
    ((ofOptions options).check source).filter (·.id = Diagnostic.syntaxErrorId)
      = Diagnostic.sort source.diagnostics := by
  -- No severity is set for syntax errors, so only the plain report matters.
  have hplain : ((ofOptions options).check source).filter (·.id = Diagnostic.syntaxErrorId)
      = ((ofOptions options).plain.check source).filter (·.id = Diagnostic.syntaxErrorId) := by
    have haot : (ofOptions options).aot = (ofOptions options).plain.aot := rfl
    apply filter_check_congr (p := (· = Diagnostic.syntaxErrorId)) haot
    intro id hid
    rw [lookup_overrides, of_decide_eq_true hid]
    rfl
  have hsource : ∀ d ∈ source.diagnostics, d.id = Diagnostic.syntaxErrorId := by
    intro d hd
    obtain ⟨error, -, rfl⟩ := List.mem_map.mp hd
    rfl
  have hmodel : ∀ d ∈ (Model.ofUnit source.unit).diagnostics, d.id ≠ Diagnostic.syntaxErrorId := by
    intro d hd heq
    have hid := Model.id_of_mem_diagnostics hd
    rw [heq] at hid
    revert hid
    decide
  have hrules : ∀ d ∈ (ofOptions options).plain.analyze (Model.ofUnit source.unit),
      d.id ≠ Diagnostic.syntaxErrorId := by
    intro d hd heq
    have hid := id_of_mem_analyze hd
    rw [heq] at hid
    revert hid
    decide
  rw [hplain, check_plain, Diagnostic.filter_sort, List.filter_append, List.filter_append,
    List.filter_eq_self.mpr (by simpa using hsource),
    List.filter_eq_nil_iff.mpr (by simpa using hmodel),
    List.filter_eq_nil_iff.mpr (by simpa using hrules), List.append_nil, List.append_nil]

/-! ## Severities are a filter -/

/-- The report with options is the report without those about severities, with the severities set
    afterwards and suppressed diagnostics dropped. Setting the severity of one kind of problem
    leaves the others as they were, and changes at most the severity or the presence of those of
    its own kind. The syntax errors of the source are reported under all options. -/
theorem check_ofOptions (options : Options) (text : String) :
    let source := Source.parse text
    let bare := (ofOptions options.withoutSeverities).check source
    (ofOptions options).check source = bare.filterMap (ofOptions options).applySeverity ∧
    (∀ id value,
      let overridden := (ofOptions (options.insert (Options.severityKey id) value)).check source
      overridden.filter (·.id ≠ id) = ((ofOptions options).check source).filter (·.id ≠ id) ∧
      ((overridden.filter (·.id = id)).map (·.bare)).Sublist
        ((bare.filter (·.id = id)).map (·.bare))) ∧
    ((ofOptions options).check source).filter (·.id = Diagnostic.syntaxErrorId)
      = Diagnostic.sort source.diagnostics := by
  intro source bare
  have hbare : bare = (ofOptions options).plain.check source := by
    rw [← ofOptions_withoutSeverities]
  have haot (id value : String) : (ofOptions (options.insert (Options.severityKey id) value)).aot
      = (ofOptions options).aot := options.aot_insert_severityKey id value
  refine ⟨hbare ▸ check_eq_filterMap_plain _ source, fun id value => ⟨?_, ?_⟩,
    filter_syntaxErrorId_check options source⟩
  · apply filter_check_congr (p := (· ≠ id)) (haot id value)
    intro other hother
    have hkey : Options.severityKey other ≠ Options.severityKey id :=
      fun h => of_decide_eq_true hother (Options.severityKey_injective h)
    rw [lookup_overrides, lookup_overrides, TextMap.get?_insert, if_neg hkey]
  · have hsublist := map_bare_sublist (ofOptions (options.insert (Options.severityKey id) value)) bare
    have hplain : (ofOptions (options.insert (Options.severityKey id) value)).plain
        = (ofOptions options).plain := by
      rw [plain, plain, haot id value]
    rw [hbare, ← hplain, ← check_eq_filterMap_plain, hplain, ← hbare] at hsublist
    have hkind (ds : List Diagnostic) :
        (ds.filter (·.id = id)).map (·.bare) = (ds.map (·.bare)).filter (·.id = id) := by
      rw [List.filter_map]
      rfl
    rw [hkind, hkind]
    exact hsublist.filter _

end Analyzer

end SettingsLint
