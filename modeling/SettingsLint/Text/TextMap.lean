/-! # Texts keyed by text

A finite map from text to text whose entries are kept in the order of their keys.
The order of texts is by code point, which for texts in UTF-8 is the order of their
bytes.
-/

namespace SettingsLint

/-- A finite map from text to text, in strictly increasing order of keys. -/
structure TextMap where
  /-- The keys with their values. -/
  entries : List (String × String)
  /-- Every key is below the ones after it. -/
  sorted : entries.Pairwise (fun a b => a.1 < b.1)
  deriving DecidableEq, Repr

namespace TextMap

def empty : TextMap := ⟨[], .nil⟩

instance : Inhabited TextMap := ⟨empty⟩

/-- Puts an entry into a sorted list in place of the one with the same key, or else
between the smaller and the larger keys. -/
def insertEntry (key value : String) : List (String × String) → List (String × String)
  | [] => [(key, value)]
  | (k, v) :: rest =>
    if key < k then (key, value) :: (k, v) :: rest
    else if k < key then (k, v) :: insertEntry key value rest
    else (key, value) :: rest

theorem mem_insertEntry {key value : String} {entries : List (String × String)}
    {e : String × String} (h : e ∈ insertEntry key value entries) :
    e = (key, value) ∨ e ∈ entries := by
  induction entries with
  | nil => simpa [insertEntry] using h
  | cons a rest ih =>
    obtain ⟨k, v⟩ := a
    simp only [insertEntry] at h
    split at h
    · simpa using h
    · split at h
      · rcases List.mem_cons.mp h with h | h
        · exact .inr (h ▸ List.mem_cons_self)
        · exact (ih h).imp id (List.mem_cons_of_mem _)
      · rcases List.mem_cons.mp h with h | h
        · exact .inl h
        · exact .inr (List.mem_cons_of_mem _ h)

theorem sorted_insertEntry (key value : String) {entries : List (String × String)}
    (h : entries.Pairwise (fun a b => a.1 < b.1)) :
    (insertEntry key value entries).Pairwise (fun a b => a.1 < b.1) := by
  induction entries with
  | nil => simp [insertEntry]
  | cons a rest ih =>
    obtain ⟨k, v⟩ := a
    obtain ⟨below, tail⟩ := List.pairwise_cons.mp h
    simp only [insertEntry]
    split
    · rename_i lt
      refine List.pairwise_cons.mpr ⟨fun e he => ?_, h⟩
      rcases List.mem_cons.mp he with rfl | he
      · exact lt
      · exact String.lt_trans lt (below e he)
    · split
      · rename_i lt
        refine List.pairwise_cons.mpr ⟨fun e he => ?_, ih tail⟩
        rcases mem_insertEntry he with rfl | he
        · exact lt
        · exact below e he
      · rename_i ge le
        have same : key = k := String.le_antisymm (String.not_lt.mp le) (String.not_lt.mp ge)
        exact List.pairwise_cons.mpr ⟨fun e he => same ▸ below e he, tail⟩

/-- The map with `key` set to `value`. -/
def insert (m : TextMap) (key value : String) : TextMap :=
  ⟨insertEntry key value m.entries, sorted_insertEntry key value m.sorted⟩

def get? (m : TextMap) (key : String) : Option String :=
  m.entries.lookup key

theorem lookup_insertEntry (key value other : String) (entries : List (String × String)) :
    (insertEntry key value entries).lookup other =
      if other = key then some value else entries.lookup other := by
  induction entries with
  | nil =>
    by_cases h : other = key
    · simp [insertEntry, h]
    · simp [insertEntry, List.lookup_cons, h, beq_false_of_ne h]
  | cons a rest ih =>
    obtain ⟨k, v⟩ := a
    simp only [insertEntry]
    split
    · by_cases h : other = key
      · simp [h]
      · simp [List.lookup_cons, h, beq_false_of_ne h]
    · split
      · rename_i lt
        have differ : key ≠ k := fun same => String.lt_irrefl k (same ▸ lt)
        by_cases h : other = key
        · subst h
          simp [List.lookup_cons, ih, beq_false_of_ne differ]
        · simp [List.lookup_cons, ih, h]
      · rename_i ge le
        have same : key = k := String.le_antisymm (String.not_lt.mp le) (String.not_lt.mp ge)
        subst same
        by_cases h : other = key
        · simp [h]
        · simp [List.lookup_cons, h, beq_false_of_ne h]

/-- Setting a key gives it the value and leaves every other key as it was. -/
theorem get?_insert (m : TextMap) (key value other : String) :
    (m.insert key value).get? other = if other = key then some value else m.get? other :=
  lookup_insertEntry key value other m.entries

/-- The map with every entry of `other` set, too. -/
def insertAll (m other : TextMap) : TextMap :=
  other.entries.foldl (fun m (key, value) => m.insert key value) m

/-- The map of the pairs, of which later ones win. -/
def ofList (pairs : List (String × String)) : TextMap :=
  pairs.foldl (fun m (key, value) => m.insert key value) empty

def size (m : TextMap) : Nat := m.entries.length

def isEmpty (m : TextMap) : Bool := m.entries.isEmpty

end TextMap

end SettingsLint
