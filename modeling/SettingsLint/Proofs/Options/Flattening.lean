import SettingsLint.Proofs.Options.Validation

/-! # Which options a configuration gives

Every leaf of a configuration is reached by one path of keys. Joined by dots, different paths stay different as
long as no key is empty or holds a dot, so that no leaf is lost in the map of the options. Tables are walked in
the order of their keys, so that the leaf that is told as unsupported is the first one in the order of paths.
-/

namespace SettingsLint

namespace Config

/-! ## Leaves and the paths to them -/

namespace Value

def isTable : Value → Bool
  | .table _ _ => true
  | _ => false

/-- An array or a date. -/
def isUnsupported : Value → Bool
  | .dateTime _ | .array _ | .tables _ => true
  | _ => false

/-- The path of keys leads through tables to a value that is none. -/
inductive HasLeaf : Value → List String → Value → Prop where
  | leaf {value : Value} (h : value.isTable = false) : HasLeaf value [] value
  | inside {origin : Origin} {entries : Entries} {key : String} {value leaf : Value} {path : List String}
    (mem : (key, value) ∈ entries) (below : HasLeaf value path leaf) :
    HasLeaf (.table origin entries) (key :: path) leaf

/-- The path leads to a leaf with the text. -/
def HasText (value : Value) (path : List String) (text : String) : Prop :=
  ∃ leaf, value.HasLeaf path leaf ∧ leaf.scalar? = some text

/-- The path leads to an array or a date. -/
def HasUnsupported (value : Value) (path : List String) : Prop :=
  ∃ leaf, value.HasLeaf path leaf ∧ leaf.isUnsupported = true

/-- The first of the paths to an array or a date. -/
structure FirstUnsupported (value : Value) (path : List String) : Prop where
  unsupported : value.HasUnsupported path
  first : ∀ other, value.HasUnsupported other → other = path ∨ List.Lex (· < ·) path other

/-- In every table the keys are in order, and no key is empty or holds a dot. -/
inductive Keyed : Value → Prop where
  | leaf {value : Value} (h : value.isTable = false) : Keyed value
  | table {origin : Origin} {entries : Entries} (sorted : entries.Pairwise (fun a b => a.1 < b.1))
    (named : ∀ entry ∈ entries, entry.1 ≠ "" ∧ '.' ∉ entry.1.toList)
    (below : ∀ entry ∈ entries, Keyed entry.2) : Keyed (.table origin entries)

theorem isUnsupported_iff {leaf : Value} (h : leaf.isTable = false) :
    leaf.isUnsupported = true ↔ leaf.scalar? = none := by
  cases leaf with
  | table => cases h
  | _ => simp [isUnsupported, scalar?]

variable {value leaf : Value} {origin : Origin} {key : String} {rest : Entries} {path : List String}

theorem not_hasLeaf_nil : ¬ HasLeaf (.table origin []) path leaf := by
  rintro (h | ⟨hmem, _⟩)
  · cases h
  · cases hmem

theorem HasLeaf.ne_nil (h : HasLeaf (.table origin rest) path leaf) : path ≠ [] := by
  cases h with
  | leaf h => cases h
  | inside _ _ => exact List.cons_ne_nil _ _

theorem hasLeaf_cons : HasLeaf (.table origin ((key, value) :: rest)) path leaf ↔
    (∃ below, path = key :: below ∧ value.HasLeaf below leaf) ∨ HasLeaf (.table origin rest) path leaf := by
  constructor
  · rintro (h | ⟨hmem, hbelow⟩)
    · cases h
    · rcases List.mem_cons.mp hmem with heq | hmem
      · cases heq
        exact .inl ⟨_, rfl, hbelow⟩
      · exact .inr (.inside hmem hbelow)
  · rintro (⟨below, rfl, hbelow⟩ | h)
    · exact .inside List.mem_cons_self hbelow
    · cases h with
      | leaf h => cases h
      | inside hmem hbelow => exact .inside (List.mem_cons_of_mem _ hmem) hbelow

theorem HasText.cons_iff {text : String} : HasText (.table origin ((key, value) :: rest)) path text ↔
    (∃ below, path = key :: below ∧ value.HasText below text) ∨ HasText (.table origin rest) path text := by
  simp only [HasText, hasLeaf_cons]
  grind

theorem HasUnsupported.cons_iff : HasUnsupported (.table origin ((key, value) :: rest)) path ↔
    (∃ below, path = key :: below ∧ value.HasUnsupported below) ∨ HasUnsupported (.table origin rest) path := by
  simp only [HasUnsupported, hasLeaf_cons]
  grind

theorem Keyed.head (h : Keyed (.table origin ((key, value) :: rest))) : value.Keyed := by
  cases h with
  | leaf h => cases h
  | table _ _ below => exact below _ List.mem_cons_self

theorem Keyed.tail (h : Keyed (.table origin ((key, value) :: rest))) : Keyed (.table origin rest) := by
  cases h with
  | leaf h => cases h
  | table sorted named below =>
    exact .table (List.pairwise_cons.mp sorted).2 (fun e he => named e (List.mem_cons_of_mem _ he))
      fun e he => below e (List.mem_cons_of_mem _ he)

/-- A path into the later entries comes after one into the first entry. -/
theorem Keyed.lex_of_hasUnsupported (h : Keyed (.table origin ((key, value) :: rest))) {other : List String}
    (hother : HasUnsupported (.table origin rest) other) : List.Lex (· < ·) (key :: path) other := by
  obtain ⟨leaf, hleaf, -⟩ := hother
  cases h with
  | leaf h => cases h
  | table sorted _ _ =>
    cases hleaf with
    | leaf h => cases h
    | inside hmem _ => exact .rel ((List.pairwise_cons.mp sorted).1 _ hmem)

theorem HasLeaf.named (h : value.HasLeaf path leaf) (hkeyed : value.Keyed) :
    ∀ key ∈ path, key ≠ "" ∧ '.' ∉ key.toList := by
  induction h with
  | leaf _ => simp
  | inside hmem _ ih =>
    cases hkeyed with
    | leaf h => cases h
    | table _ named below =>
      rintro key (_ | ⟨_, hkey⟩)
      · exact named _ hmem
      · exact ih (below _ hmem) key hkey

theorem eq_of_mem_of_mem {entries : Entries} (sorted : entries.Pairwise (fun a b => a.1 < b.1)) {other : Value}
    (hvalue : (key, value) ∈ entries) (hother : (key, other) ∈ entries) : value = other := by
  induction entries with
  | nil => cases hvalue
  | cons entry entries ih =>
    obtain ⟨hbelow, hrest⟩ := List.pairwise_cons.mp sorted
    rcases List.mem_cons.mp hvalue with rfl | hvalue <;> rcases List.mem_cons.mp hother with heq | hother
    · exact (congrArg Prod.snd heq).symm
    · exact absurd (hbelow _ hother) (String.lt_irrefl key)
    · exact absurd (hbelow _ hvalue) (heq ▸ String.lt_irrefl key)
    · exact ih hrest hvalue hother

/-- Keys of a table are different, so that a path leads to one leaf only. -/
theorem HasLeaf.unique {other : Value} (h : value.HasLeaf path leaf) (hkeyed : value.Keyed)
    (hother : value.HasLeaf path other) : leaf = other := by
  induction h with
  | leaf _ =>
    cases hother
    rfl
  | inside hmem _ ih =>
    cases hkeyed with
    | leaf h => cases h
    | table sorted _ below =>
      cases hother with
      | inside hmem' hbelow' =>
        cases eq_of_mem_of_mem sorted hmem hmem'
        exact ih (below _ hmem) hbelow'

/-! ## Flattening -/

/-- What flattening a value under an option key has to give. -/
def FlattensTo (value : Value) (key : String) : Except ConfigError (List (String × String)) → Prop
  | .ok pairs => (∀ path, ¬ value.HasUnsupported path) ∧
    ∀ option text, (option, text) ∈ pairs ↔ ∃ path, value.HasText path text ∧ option = path.foldl joinKey key
  | .error e => ∃ path, value.FirstUnsupported path ∧ e = .unsupportedValue (path.foldl joinKey key)

/-- The entries of a table are flattened one after the other, up to the first failure. -/
theorem FlattensTo.cons {table : String} {first others : Except ConfigError (List (String × String))}
    (hkeyed : Keyed (.table origin ((key, value) :: rest))) (hfirst : value.FlattensTo (joinKey table key) first)
    (hothers : FlattensTo (.table origin rest) table others) :
    FlattensTo (.table origin ((key, value) :: rest)) table
      (first >>= fun pairs => others >>= fun more => pure (pairs ++ more)) := by
  cases first with
  | error e =>
    obtain ⟨path, hpath, rfl⟩ := hfirst
    refine ⟨key :: path, ⟨HasUnsupported.cons_iff.2 (.inl ⟨path, rfl, hpath.unsupported⟩), ?_⟩, rfl⟩
    intro other hother
    rcases HasUnsupported.cons_iff.1 hother with ⟨below, rfl, hbelow⟩ | hother
    · rcases hpath.first below hbelow with rfl | hlex
      · exact .inl rfl
      · exact .inr (.cons hlex)
    · exact .inr (hkeyed.lex_of_hasUnsupported hother)
  | ok pairs =>
    obtain ⟨hsupported, hpairs⟩ := hfirst
    cases others with
    | error e =>
      obtain ⟨path, hpath, rfl⟩ := hothers
      refine ⟨path, ⟨HasUnsupported.cons_iff.2 (.inr hpath.unsupported), ?_⟩, rfl⟩
      intro other hother
      rcases HasUnsupported.cons_iff.1 hother with ⟨below, rfl, hbelow⟩ | hother
      · exact absurd hbelow (hsupported below)
      · exact hpath.first other hother
    | ok more =>
      obtain ⟨hsupported', hmore⟩ := hothers
      refine ⟨fun path hpath => ?_, fun option text => ?_⟩
      · rcases HasUnsupported.cons_iff.1 hpath with ⟨below, rfl, hbelow⟩ | hpath
        · exact hsupported below hbelow
        · exact hsupported' path hpath
      · rw [List.mem_append, hpairs, hmore]
        constructor
        · rintro (⟨path, htext, rfl⟩ | ⟨path, htext, rfl⟩)
          · exact ⟨key :: path, HasText.cons_iff.2 (.inl ⟨path, rfl, htext⟩), rfl⟩
          · exact ⟨path, HasText.cons_iff.2 (.inr htext), rfl⟩
        · rintro ⟨path, htext, rfl⟩
          rcases HasText.cons_iff.1 htext with ⟨below, rfl, hbelow⟩ | htext
          · exact .inl ⟨below, hbelow, rfl⟩
          · exact .inr ⟨path, htext, rfl⟩

theorem flattensTo_leaf {leaf : Value} (h : leaf.isTable = false) (key : String) :
    leaf.FlattensTo key (leaf.flatten key) := by
  have honly : ∀ {path found}, leaf.HasLeaf path found → path = [] ∧ found = leaf := by
    rintro path found (_ | _)
    · exact ⟨rfl, rfl⟩
    · cases h
  have hflatten : leaf.flatten key =
      leaf.scalar?.elim (.error (.unsupportedValue key)) fun text => .ok [(key, text)] := by
    cases leaf with
    | table => cases h
    | _ => rfl
  rw [hflatten]
  cases hscalar : leaf.scalar? with
  | none =>
    refine ⟨[], ⟨⟨leaf, .leaf h, (isUnsupported_iff h).mpr hscalar⟩, ?_⟩, rfl⟩
    rintro other ⟨found, hfound, -⟩
    exact .inl (honly hfound).1
  | some text =>
    refine ⟨?_, fun option other => ?_⟩
    · rintro path ⟨found, hfound, hbad⟩
      obtain ⟨rfl, rfl⟩ := honly hfound
      rw [isUnsupported_iff h, hscalar] at hbad
      cases hbad
    · rw [List.mem_singleton, Prod.mk.injEq]
      constructor
      · rintro ⟨rfl, rfl⟩
        exact ⟨[], ⟨leaf, .leaf h, hscalar⟩, rfl⟩
      · rintro ⟨path, ⟨found, hfound, htext⟩, rfl⟩
        obtain ⟨rfl, rfl⟩ := honly hfound
        rw [hscalar] at htext
        exact ⟨rfl, (Option.some.inj htext).symm⟩

mutual

theorem flattensTo_flatten (value : Value) (hkeyed : value.Keyed) (key : String) :
    value.FlattensTo key (value.flatten key) := by
  cases value with
  | table origin entries =>
    exact flattensTo_flattenEntries origin entries hkeyed key
  | _ => exact flattensTo_leaf rfl key

theorem flattensTo_flattenEntries (origin : Origin) (entries : Entries) (hkeyed : Keyed (.table origin entries))
    (table : String) : FlattensTo (.table origin entries) table (flattenEntries table entries) := by
  cases entries with
  | nil =>
    exact ⟨fun path ⟨_, h, _⟩ => not_hasLeaf_nil h, fun _ _ =>
      ⟨nofun, fun ⟨path, ⟨_, h, _⟩, _⟩ => absurd h not_hasLeaf_nil⟩⟩
  | cons entry rest =>
    obtain ⟨key, value⟩ := entry
    exact .cons hkeyed (flattensTo_flatten value hkeyed.head (joinKey table key))
      (flattensTo_flattenEntries origin rest hkeyed.tail table)

end

end Value

/-! ## Joined keys -/

theorem foldl_joinKey {table : String} (h : table ≠ "") (path : List String) :
    path.foldl joinKey table = ".".intercalate (table :: path) := by
  induction path generalizing table with
  | nil => simp
  | cons key path ih =>
    have hjoin : joinKey table key = table ++ "." ++ key := by simp [joinKey, h]
    have hne : table ++ "." ++ key ≠ "" := by simp
    rw [List.foldl_cons, hjoin, ih hne]
    cases path <;> simp [String.append_assoc]

theorem foldl_joinKey_empty {path : List String} (h : ∀ key ∈ path, key ≠ "") :
    path.foldl joinKey "" = ".".intercalate path := by
  cases path with
  | nil => rfl
  | cons key path => exact foldl_joinKey (h key List.mem_cons_self) path

/-- Keys without dots can be told apart again. -/
theorem eq_of_intercalate_eq {path other : List String} (hpath : ∀ key ∈ path, '.' ∉ key.toList)
    (hother : ∀ key ∈ other, '.' ∉ key.toList) (hne : path ≠ []) (hne' : other ≠ [])
    (h : ".".intercalate path = ".".intercalate other) : path = other := by
  have split : ∀ {keys : List String}, (∀ key ∈ keys, '.' ∉ key.toList) → keys ≠ [] →
      (".".intercalate keys).toList.splitOn '.' = keys.map String.toList := by
    intro keys hkeys hne
    rw [String.toList_intercalate]
    exact List.splitOn_intercalate '.' (by simpa using hkeys) (by simpa using hne)
  have heq := split hpath hne
  rw [h, split hother hne'] at heq
  exact ((List.map_inj_right fun _ _ => String.toList_injective).mp heq).symm

end Config

/-- The map of a list that gives no key two values has the pairs of the list. -/
theorem TextMap.get?_ofList {pairs : List (String × String)}
    (hone : ∀ key value other, (key, value) ∈ pairs → (key, other) ∈ pairs → value = other) (key value : String) :
    (ofList pairs).get? key = some value ↔ (key, value) ∈ pairs := by
  -- A key that is not among the pairs keeps the value that it had before.
  suffices h : ∀ m : TextMap, (pairs.foldl (fun m pair => m.insert pair.1 pair.2) m).get? key = some value ↔
      (key, value) ∈ pairs ∨ (∀ other, (key, other) ∉ pairs) ∧ m.get? key = some value by
    have hfold : ofList pairs = pairs.foldl (fun m pair => m.insert pair.1 pair.2) empty := rfl
    rw [hfold, h empty]
    simp [empty, get?]
  induction pairs with
  | nil => simp
  | cons pair pairs ih =>
    intro m
    rw [List.foldl_cons, ih (fun k v o hv ho => hone k v o (.tail _ hv) (.tail _ ho)), get?_insert]
    by_cases hkey : key = pair.1
    · rw [if_pos hkey]
      grind
    · rw [if_neg hkey]
      grind

namespace Options

open Config

theorem validate_ofConfig {file text : String} {options : Options} (h : ofConfig file text = .ok options) :
    options.validate = .ok options := by
  rw [ofConfig] at h
  split at h
  · cases h
  · next entries _ =>
    cases hflat : flattenEntries "" entries with
    | error e =>
      rw [hflat] at h
      cases h
    | ok pairs =>
      rw [hflat] at h
      replace h : validate (.ofList pairs) = .ok options := h
      cases eq_of_validate h
      exact h

/-- One table inside another. -/
def nestedEntries : Entries := [("rule", .table .header [("severity", .text "none")])]

theorem keyed_nestedEntries : (Value.table .header nestedEntries).Keyed := by
  have hinner : (Value.table .header [("severity", .text "none")]).Keyed :=
    .table (List.pairwise_singleton _ _) (by decide) (by simpa using .leaf rfl)
  exact .table (List.pairwise_singleton _ _) (by decide) (by simpa [nestedEntries] using hinner)

end Options

end SettingsLint
