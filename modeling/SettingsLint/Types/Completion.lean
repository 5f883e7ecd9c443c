import SettingsLint.Types.Table

/-! # Completion

Completion fills in what follows from the shapes of types:

- a generic type with arguments gets the base, interfaces and constructors of its
  definition, with the arguments in place of the parameters;
- an array gets the common base of arrays;
- every type gets the list of all its interfaces, inherited ones included.

Filling in can bring up new types, which are filled in, too. A type that comes up is
one step deeper than the type that brought it up, and types at `maxInstantiationDepth`
bring up nothing. So completion goes in rounds: every round fills in the types that
came up in the round before, and after `maxInstantiationDepth + 1` rounds no type is
left, even where a declaration expands for ever.
-/

namespace SettingsLint

/-- Types this many steps deep get no members. -/
def maxInstantiationDepth : Nat := 8

/-- What replaces each type parameter. -/
structure Substitution where
  parameters : List TypeId
  arguments : List TypeId

/-- The replacement of a type, if it is a parameter. -/
def Substitution.apply? (s : Substitution) (id : TypeId) : Option TypeId :=
  (s.parameters.idxOf? id).map fun i => s.arguments[i]?.getD id

namespace TypeTable

/-- The type with the arguments in place of the parameters, everywhere inside it. New
types are made at the given depth. -/
def substitute (s : Substitution) (depth : Nat) (id : TypeId) : StateM TypeTable TypeId := do
  match s.apply? id with
  | some replacement => return replacement
  | none =>
    match (← get).shape id with
    | .constructed definition arguments =>
      let arguments ← arguments.mapM fun a =>
        if a.index < id.index then substitute s depth a else pure a
      modifyGet (·.construct definition arguments depth)
    | .array element rank =>
      let element ← if element.index < id.index then substitute s depth element else pure element
      modifyGet (·.array element rank depth)
    | _ => return id
termination_by id.index

/-- The signature with the arguments in place of the parameters. -/
def substituteSignature (s : Substitution) (depth : Nat) (signature : Signature) :
    StateM TypeTable Signature := do
  let parameters ← signature.parameters.mapM fun p =>
    return { p with type := ← substitute s depth p.type }
  return ⟨parameters⟩

/-- Fills in the members of a type from its shape. -/
def instantiate (id : TypeId) : StateM TypeTable Unit := do
  modify (·.update id ({ · with instantiated := true }))
  let t ← get
  let depth := (t.entry id).depth
  match t.shape id with
  | .constructed definition arguments =>
    if depth < maxInstantiationDepth then
      let s : Substitution := ⟨t.typeParameters definition, arguments⟩
      let declared := t.entry definition
      let base ← declared.base.mapM (substitute s (depth + 1))
      let interfaces ← declared.interfaces.mapM (substitute s (depth + 1))
      let constructors ← declared.constructors.mapM (substituteSignature s (depth + 1))
      modify (·.update id ({ · with base, interfaces, constructors }))
  | .array _ _ => modify (·.update id ({ · with base := t.lookup arrayBaseName }))
  | _ => return

/-- Fills in the members of the types from the `start`-th up to the `stop`-th, where
that has not been done. -/
def instantiateRange (start stop : Nat) (t : TypeTable) : TypeTable :=
  (List.range' start (stop - start)).foldl
    (fun t i => if (t.entry ⟨i⟩).instantiated then t else (instantiate ⟨i⟩ t).2) t

/-- Fills in members in rounds: first of the types from the `start`-th on, then of those
that came up in the round before. -/
def instantiateRounds : (rounds start : Nat) → TypeTable → TypeTable
  | 0, _, t => t
  | rounds + 1, start, t => instantiateRounds rounds t.size (instantiateRange start t.size t)

/-! ### Interfaces -/

/-- The types of the table that are not among `met`. -/
def unmet (t : TypeTable) (met : List TypeId) : List TypeId := t.ids.filter (· ∉ met)

/-- Is the type in the table, and not among `met`? -/
def isNew (t : TypeTable) (met : List TypeId) (id : TypeId) : Bool :=
  id.index < t.size && !met.any (·.index == id.index)

theorem isNew_iff (t : TypeTable) (met : List TypeId) (id : TypeId) :
    t.isNew met id = true ↔ id.index < t.size ∧ id ∉ met := by
  have same (other : TypeId) : other.index = id.index ↔ other = id := by
    cases other; cases id; simp
  simp only [isNew, Bool.and_eq_true, decide_eq_true_eq, Bool.not_eq_true', List.any_eq_false,
    beq_iff_eq, same]
  exact and_congr_right fun _ => ⟨fun h mem => h id mem rfl, fun h x mem e => h (e ▸ mem)⟩

/-- Meeting a new type leaves fewer to be met. -/
theorem length_unmet_cons_lt (t : TypeTable) {met : List TypeId} {id : TypeId}
    (new : t.isNew met id = true) : (t.unmet (id :: met)).length < (t.unmet met).length := by
  obtain ⟨inTable, notMet⟩ := (t.isNew_iff met id).mp new
  have split : t.unmet (id :: met) = (t.unmet met).filter (· ≠ id) := by
    simp only [unmet, List.filter_filter]
    congr 1
    funext other
    by_cases same : other = id <;> simp [same]
  have mem : id ∈ t.unmet met := by
    simp only [unmet, List.mem_filter, ids, List.mem_map, List.mem_range]
    exact ⟨⟨id.index, inTable, rfl⟩, by simpa using notMet⟩
  rw [split]
  exact List.length_filter_lt_length_iff_exists.mpr ⟨id, mem, by simp⟩

/-- The type and its bases, nearest first, up to the first one that is among `met` or
comes again. -/
def baseChainFrom (t : TypeTable) (met : List TypeId) (id : TypeId) : List TypeId :=
  if t.isNew met id then
    id :: (match t.base id with
      | some base => t.baseChainFrom (id :: met) base
      | none => [])
  else []
termination_by (t.unmet met).length
decreasing_by
  rename_i new
  exact t.length_unmet_cons_lt new

/-- The type and its bases, nearest first, up to the first repetition. -/
def baseChain (t : TypeTable) (id : TypeId) : List TypeId := t.baseChainFrom [] id

/-- How many interfaces the types of the table name together. -/
def namedInterfaces (t : TypeTable) : Nat := (t.ids.flatMap t.interfaces).length

theorem length_interfaces_le (t : TypeTable) {id : TypeId} (inTable : id.index < t.size) :
    (t.interfaces id).length ≤ t.namedInterfaces := by
  have mem : id ∈ t.ids := by
    simp only [ids, List.mem_map, List.mem_range]
    exact ⟨id.index, inTable, rfl⟩
  obtain ⟨before, after, split⟩ := List.append_of_mem mem
  simp only [namedInterfaces, split, List.flatMap_append, List.flatMap_cons, List.length_append]
  omega

/-- A bound on the rounds of a walk: every type is met once, and then brings in no more
than all the interfaces that are named. -/
def walkBound (t : TypeTable) (met pending : List TypeId) : Nat :=
  (t.unmet met).length * (t.namedInterfaces + 1) + pending.length

theorem walkBound_cons_lt (t : TypeTable) {met pending : List TypeId} {id : TypeId}
    (new : t.isNew met id = true) :
    t.walkBound (id :: met) (t.interfaces id ++ pending) < t.walkBound met (id :: pending) := by
  have fewer := t.length_unmet_cons_lt new
  have named := t.length_interfaces_le ((t.isNew_iff met id).mp new).1
  have rounds := Nat.mul_le_mul_right (t.namedInterfaces + 1) fewer
  simp only [walkBound, List.length_append, List.length_cons]
  rw [Nat.succ_mul] at rounds
  omega

/-- The pending types and their interfaces, depth first, each one before the ones it
names, without those that are among `met` or come again. -/
def interfaceWalk (t : TypeTable) (met : List TypeId) : List TypeId → List TypeId
  | [] => []
  | next :: pending =>
    if t.isNew met next then
      next :: t.interfaceWalk (next :: met) (t.interfaces next ++ pending)
    else t.interfaceWalk met pending
termination_by pending => t.walkBound met pending
decreasing_by
  · rename_i new
    exact t.walkBound_cons_lt new
  · exact Nat.lt_succ_self _

/-- All interfaces of a type: those of the type and of its bases, nearest first, each
followed by the ones it extends. -/
def collectInterfaces (t : TypeTable) (id : TypeId) : List TypeId :=
  t.interfaceWalk [] ((t.baseChain id).flatMap t.interfaces)

/-- The table with all interfaces of every type filled in. -/
def fillInterfaces (t : TypeTable) : TypeTable :=
  { t with
    entries := t.entries.mapIdx fun i e => { e with allInterfaces := t.collectInterfaces ⟨i⟩ } }

/-- The table with everything filled in that follows from the shapes of its types. -/
def complete (t : TypeTable) : TypeTable :=
  (instantiateRounds (maxInstantiationDepth + 1) 0 t).fillInterfaces

end TypeTable

end SettingsLint
