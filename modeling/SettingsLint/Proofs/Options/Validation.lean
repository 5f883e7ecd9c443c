import SettingsLint.Main

/-! # Which severities are refused

The key of a severity is made from the identifier of a kind of problem, and recognised by its start and its
end. Every key that is made is recognised. Besides, there is one key that is recognised and never made: the
one whose start and end share a dot.
-/

namespace SettingsLint

/-- The entries of a map are what it maps keys to. -/
theorem TextMap.get?_eq_some_iff {m : TextMap} {key value : String} :
    m.get? key = some value ↔ (key, value) ∈ m.entries := by
  obtain ⟨entries, sorted⟩ := m
  rw [get?]
  induction entries with
  | nil => simp
  | cons entry entries ih =>
    obtain ⟨k, v⟩ := entry
    obtain ⟨hbelow, hrest⟩ := List.pairwise_cons.mp sorted
    by_cases hkey : key = k
    · -- Keys are in order, so the key is not met again.
      subst hkey
      have hlater : (key, value) ∉ entries := fun hmem => String.lt_irrefl key (hbelow _ hmem)
      simp [hlater, eq_comm]
    · simp [List.lookup_cons, beq_false_of_ne hkey, hkey, ih hrest]

namespace Options

/-! ## Keys of severities -/

/-- The key whose start and end share the dot between them. -/
def sharedDotKey : String := "dotnet_diagnostic.severity"

@[simp] theorem isSeverityKey_severityKey (id : String) : isSeverityKey (severityKey id) = true := by
  have hstart : severityKeyStart.toList <+: (severityKey id).toList :=
    ⟨id.toList ++ severityKeyEnd.toList, by simp [severityKey]⟩
  have hend : severityKeyEnd.toList <:+ (severityKey id).toList :=
    ⟨severityKeyStart.toList ++ id.toList, by simp [severityKey]⟩
  rw [isSeverityKey, List.isPrefixOf_iff_prefix.mpr hstart, List.isSuffixOf_iff_suffix.mpr hend,
    Bool.and_self]

/-- Start and end of the key can share the dot, and nothing else. -/
theorem eq_of_shared {start rest shared : List Char} (hstart : severityKeyStart.toList = start ++ shared)
    (hend : severityKeyEnd.toList = shared ++ rest) : shared = [] ∨ shared = ['.'] := by
  have hlength : shared.length ≤ 9 := by
    have := congrArg List.length hend
    rw [List.length_append] at this
    exact Nat.le_trans (Nat.le_add_right _ _) (Nat.le_of_eq this.symm)
  have htake : shared = severityKeyEnd.toList.take shared.length := by rw [hend, List.take_left]
  have hdrop : shared = severityKeyStart.toList.drop (18 - shared.length) := by
    have := congrArg List.length hstart
    rw [List.length_append, show severityKeyStart.toList.length = 18 from rfl] at this
    rw [this, Nat.add_sub_cancel, hstart, List.drop_left]
  have hcases : ∀ n ≤ 9, severityKeyEnd.toList.take n = severityKeyStart.toList.drop (18 - n) → n = 0 ∨ n = 1 := by
    decide
  rcases hcases shared.length hlength (htake.symm.trans hdrop) with hzero | hone
  · exact .inl (List.eq_nil_of_length_eq_zero hzero)
  · rw [hone] at htake
    exact .inr htake

/-- A key that is recognised is made from an identifier, or its start and end share the dot. -/
theorem isSeverityKey_iff {key : String} :
    isSeverityKey key = true ↔ key = sharedDotKey ∨ ∃ id, key = severityKey id := by
  constructor
  · intro h
    rw [isSeverityKey, Bool.and_eq_true, List.isPrefixOf_iff_prefix, List.isSuffixOf_iff_suffix] at h
    obtain ⟨⟨rest, hrest⟩, ⟨start, hstart⟩⟩ := h
    rcases List.append_eq_append_iff.mp (hrest.trans hstart.symm) with ⟨id, rfl, rfl⟩ | ⟨shared, hshared, hend⟩
    · refine .inr ⟨String.ofList id, String.toList_injective ?_⟩
      rw [← hstart, severityKey]
      simp
    · rcases eq_of_shared hshared hend with rfl | rfl
      · refine .inr ⟨"", String.toList_injective ?_⟩
        rw [← hrest, ← List.nil_append rest, ← hend, severityKey]
        simp
      · refine .inl (String.toList_injective ?_)
        rw [← hrest, show rest = "severity".toList from (List.cons.inj hend).2.symm]
        rfl
  · rintro (rfl | ⟨id, rfl⟩)
    · decide
    · exact isSeverityKey_severityKey id

/-! ## Refusing options -/

/-- The value is recognised as a severity to report with, and names none. -/
structure Misnames (options : Options) (key value : String) : Prop where
  set : options.get? key = some value
  severity : key = sharedDotKey ∨ ∃ id, key = severityKey id
  unknown : value ∉ ["error", "warning", "none"]

theorem ofName?_eq_none_iff {name : String} :
    (SeverityOverride.ofName? name).isNone = true ↔ name ∉ ["error", "warning", "none"] := by
  unfold SeverityOverride.ofName?
  split
  · simp [*]
  · split
    · simp [*]
    · split <;> simp [*]

/-- Is the entry recognised as a severity that is none? -/
def isMisnamed (entry : String × String) : Bool :=
  isSeverityKey entry.1 && (SeverityOverride.ofName? entry.2).isNone

theorem invalidSeverity?_eq (options : Options) :
    options.invalidSeverity? = options.entries.find? isMisnamed := rfl

theorem misnames_iff {options : Options} (entry : String × String) :
    options.Misnames entry.1 entry.2 ↔ entry ∈ options.entries ∧ isMisnamed entry = true := by
  rw [isMisnamed, Bool.and_eq_true, isSeverityKey_iff, ofName?_eq_none_iff, ← TextMap.get?_eq_some_iff]
  exact ⟨fun h => ⟨h.set, h.severity, h.unknown⟩, fun h => ⟨h.1, h.2.1, h.2.2⟩⟩

/-- Of the entries of a map, the first one with a property has the smallest key. -/
theorem le_of_find? {m : TextMap} {p : String × String → Bool} {first entry : String × String}
    (hfirst : m.entries.find? p = some first) (hentry : entry ∈ m.entries) (hp : p entry = true) :
    first.1 ≤ entry.1 := by
  obtain ⟨-, before, after, heq, hbefore⟩ := List.find?_eq_some_iff_append.mp hfirst
  rw [heq] at hentry
  rcases List.mem_append.mp hentry with hmem | hmem
  · have hnot := hbefore entry hmem
    rw [hp] at hnot
    cases hnot
  · rcases List.mem_cons.mp hmem with rfl | hmem
    · exact String.le_refl _
    · have hsorted := (List.pairwise_append.mp (heq ▸ m.sorted)).2.1
      exact Std.le_of_lt ((List.pairwise_cons.mp hsorted).1 entry hmem)

theorem eq_of_validate {options accepted : Options} (h : options.validate = .ok accepted) : accepted = options := by
  rw [validate] at h
  split at h
  · cases h
  · exact (Except.ok.inj h).symm

/-- Options are refused if and only if one of them is recognised as a severity and names none, and then the one
    with the smallest key is told. -/
theorem validate_exact (options : Options) :
    ((∃ e, options.validate = .error e) ↔ ∃ key value, options.Misnames key value) ∧
    (∀ e, options.validate = .error e → ∃ key value, e = .invalidValue key value ∧
      options.Misnames key value ∧ ∀ key' value', options.Misnames key' value' → key ≤ key') ∧
    ∀ accepted, options.validate = .ok accepted → accepted = options := by
  rw [← and_assoc]
  refine ⟨?_, fun _ h => eq_of_validate h⟩
  rw [validate, invalidSeverity?_eq]
  cases hfind : options.entries.find? isMisnamed with
  | none =>
    refine ⟨⟨nofun, ?_⟩, nofun⟩
    rintro ⟨key, value, h⟩
    obtain ⟨hmem, hbad⟩ := (misnames_iff (key, value)).mp h
    exact absurd hbad (List.find?_eq_none.mp hfind _ hmem)
  | some entry =>
    have hentry : options.Misnames entry.1 entry.2 :=
      (misnames_iff entry).mpr ⟨List.mem_of_find?_eq_some hfind, List.find?_some hfind⟩
    refine ⟨⟨fun _ => ⟨_, _, hentry⟩, fun _ => ⟨_, rfl⟩⟩, fun e he => ?_⟩
    refine ⟨entry.1, entry.2, (Except.error.inj he).symm, hentry, fun key' value' h => ?_⟩
    obtain ⟨hmem, hbad⟩ := (misnames_iff (key', value')).mp h
    exact le_of_find? hfind hmem hbad

/-- An option is refused as a severity although it is that of no kind of problem. -/
theorem validate_sharedDotKey :
    validate (TextMap.empty.insert sharedDotKey "loud") = .error (.invalidValue sharedDotKey "loud") ∧
    ∀ id, (TextMap.empty.insert sharedDotKey "loud").get? (severityKey id) = none := by
  refine ⟨?_, fun id => ?_⟩
  · have hbad : isMisnamed (sharedDotKey, "loud") = true := by decide
    have hentries : (TextMap.empty.insert sharedDotKey "loud").entries = [(sharedDotKey, "loud")] := rfl
    rw [validate, invalidSeverity?_eq, hentries, List.find?_cons_of_pos hbad]
  have hne : severityKey id ≠ sharedDotKey := by
    intro h
    have hlength := congrArg String.length h
    rw [severityKey, String.length_append, String.length_append] at hlength
    have : severityKeyStart.length + severityKeyEnd.length = 27 := by decide
    have : sharedDotKey.length = 26 := by decide
    omega
  rw [TextMap.get?_insert, if_neg hne]
  rfl

end Options

end SettingsLint
