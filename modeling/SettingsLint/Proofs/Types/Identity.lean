import Mathlib.Logic.Relation
import SettingsLint.Proofs.Types.Substitution
import SettingsLint.Types.Display

/-! # The identity of types

`TableStep` lists everything that can be done to a table from outside, and `TypeTable.Reaches` is
what a sequence of such steps can make of a table. Every table that is reached from the empty one
is sound, so

- types with equal structure are the same type, and are found by their structure;
- a type is built from older types only, so going down into types ends;
- no step changes what a type is, so a structure keeps its type in all later tables.
-/

namespace SettingsLint

/-- One step of building a table. -/
inductive TableStep where
  | declare (namespaceName name : String) (kind : TypeKind) (typeParameters : List String)
      (containing : Option TypeId)
  | setSpecial (id : TypeId) (special : SpecialType)
  | setBase (id base : TypeId)
  | addInterface (id interface : TypeId)
  | addConstructor (id : TypeId) (parameters : List ParameterSymbol)
  | addProperty (id : TypeId) (property : PropertySymbol)
  | construct (definition : TypeId) (arguments : List TypeId)
  | array (element : TypeId) (rank : Nat)
  | nullable (underlying : TypeId)
  | error (name : String)
  | complete

namespace TableStep

/-- The table after the step. -/
def run : TableStep → TypeTable → TypeTable
  | declare namespaceName name kind typeParameters containing, t =>
    (t.declare namespaceName name kind typeParameters containing).2
  | setSpecial id special, t => t.setSpecial id special
  | setBase id base, t => t.setBase id base
  | addInterface id interface, t => t.addInterface id interface
  | addConstructor id parameters, t => t.addConstructor id parameters
  | addProperty id property, t => t.addProperty id property
  | construct definition arguments, t => (t.construct definition arguments).2
  | array element rank, t => (t.array element rank).2
  | nullable underlying, t => (t.nullable underlying).2
  | error name, t => (t.error name).2
  | complete, t => t.complete

/-- The types that the step is about. -/
def subjects : TableStep → List TypeId
  | declare _ _ _ _ containing => containing.toList
  | setSpecial id _ => [id]
  | setBase id base => [id, base]
  | addInterface id interface => [id, interface]
  | addConstructor id parameters => id :: parameters.map (·.type)
  | addProperty id property => [id, property.type]
  | construct definition arguments => definition :: arguments
  | array element _ => [element]
  | nullable underlying => [underlying]
  | error _ | complete => []

/-- The step is about types of the table. -/
def Fits (step : TableStep) (t : TypeTable) : Prop := ∀ id ∈ step.subjects, id.index < t.size

instance (step : TableStep) (t : TypeTable) : Decidable (step.Fits t) :=
  inferInstanceAs (Decidable (∀ id ∈ step.subjects, id.index < t.size))

end TableStep

namespace TypeTable

variable {t t' : TypeTable}

/-- A sequence of steps, each about types of the table at that point, leads from `t` to `t'`. -/
def Reaches : TypeTable → TypeTable → Prop :=
  Relation.ReflTransGen fun t t' => ∃ step : TableStep, step.Fits t ∧ step.run t = t'

/-! ## What a step keeps -/

/-- No step changes what a type is. -/
theorem keeps_run (step : TableStep) (t : TypeTable) : t.Keeps (step.run t) := by
  have hextends {t' : TypeTable} (h : t.Grows t') : t.Keeps t' := .of_extends (h Extends inferInstance)
  cases step with
  | declare namespaceName name kind typeParameters containing =>
    exact (declares_declare t namespaceName name kind typeParameters containing).keeps
  | setSpecial id special =>
    rw [TableStep.run, setSpecial]
    split
    · have hmarked : t.Keeps (t.update id ({ · with special := some special })) :=
        keeps_update t id fun _ => rfl
      exact ⟨hmarked.size_le, hmarked.shape_eq⟩
    · exact .refl t
  | setBase id base => exact keeps_update t id fun _ => rfl
  | addInterface id interface =>
    refine keeps_update t id fun e => ?_
    split <;> rfl
  | addConstructor id parameters => exact keeps_update t id fun _ => rfl
  | addProperty id property =>
    rw [TableStep.run, addProperty]
    split
    · exact keeps_update t id fun _ => rfl
    · exact .refl t
  | construct definition arguments =>
    exact hextends fun R hR => Growth.construct t definition arguments 0
  | array element rank => exact hextends fun R hR => hR.intern t _ 0 rfl
  | nullable underlying =>
    rw [TableStep.run, nullable]
    split
    · exact hextends fun R hR => Growth.construct t _ _ 0
    · exact .refl t
  | error name => exact hextends fun R hR => hR.intern t _ 0 rfl
  | complete => exact hextends fun R hR => growth_complete t

/-- A step about types of the table keeps the table sound. -/
theorem Sound.run (h : t.Sound) {step : TableStep} (hfits : step.Fits t) :
    (step.run t).Sound := by
  cases step with
  | declare namespaceName name kind typeParameters containing =>
    exact h.declare namespaceName name kind typeParameters fun outer houter =>
      hfits outer (Option.mem_toList.2 houter)
  | setSpecial id special =>
    rw [TableStep.run, TypeTable.setSpecial]
    split
    · have hmarked := h.update id (f := ({ · with special := some special })) (fun _ => rfl)
        fun _ hother => h.named hother
      exact { hmarked with }
    · exact h
  | setBase id base =>
    refine h.update id (fun _ => rfl) fun other hother => ?_
    rcases Entry.mem_named_setBase hother with rfl | hother
    · exact hfits other (by simp [TableStep.subjects])
    · exact h.named hother
  | addInterface id interface =>
    refine h.update id (fun e => by split <;> rfl) fun other hother => ?_
    rcases Entry.mem_named_addInterface hother with rfl | hother
    · exact hfits other (by simp [TableStep.subjects])
    · exact h.named hother
  | addConstructor id parameters =>
    refine h.update id (fun _ => rfl) fun other hother => ?_
    rcases Entry.mem_named_addConstructor hother with ⟨p, hp, rfl⟩ | hother
    · exact hfits p.type (List.mem_cons_of_mem _ (List.mem_map_of_mem hp))
    · exact h.named hother
  | addProperty id property =>
    rw [TableStep.run, TypeTable.addProperty]
    split
    · exact h.update id (fun _ => rfl) fun _ hother => h.named hother
    · exact h
  | construct definition arguments =>
    exact h.construct (hfits definition List.mem_cons_self)
      (fun a ha => hfits a (List.mem_cons_of_mem _ ha)) 0
  | array element rank => exact h.array (hfits element List.mem_cons_self) rank 0
  | nullable underlying =>
    rw [TableStep.run, TypeTable.nullable]
    split
    · next definition hlookup =>
      exact h.construct (index_lt_of_lookup hlookup)
        (fun a ha => List.mem_singleton.1 ha ▸ hfits underlying List.mem_cons_self) 0
    · exact h
  | error name => exact h.intern (fun _ hp => absurd hp List.not_mem_nil) rfl 0
  | complete => exact h.complete

/-! ## What a sequence of steps keeps -/

theorem Reaches.keeps (h : t.Reaches t') : t.Keeps t' := by
  induction h with
  | refl => exact .refl t
  | tail _ hstep ih =>
    obtain ⟨step, -, rfl⟩ := hstep
    exact ih.trans (keeps_run step _)

theorem Reaches.sound (h : t.Reaches t') (ht : t.Sound) : t'.Sound := by
  induction h with
  | refl => exact ht
  | tail _ hstep ih =>
    obtain ⟨step, hfits, rfl⟩ := hstep
    exact ih.run hfits

/-! ## Going down into types

Each of `kind`, `name`, `display` and `substitute` checks that it goes on to older types only. In a
sound table the check never fails. So each is the fixed point of one layer of itself, which goes on
to the parts of a shape without a check.
-/

/-- One layer of `kind`, which goes on with `next`. -/
def kindLayer (t : TypeTable) (next : TypeId → TypeKind) (id : TypeId) : TypeKind :=
  match t.shape id with
  | .definition _ _ _ _ kind _ => kind
  | .constructed definition _ => next definition
  | .array _ _ => .arrayType
  | .typeParameter _ => .typeParameter
  | .error _ => .error

def nameLayer (t : TypeTable) (next : TypeId → String) (id : TypeId) : String :=
  match t.shape id with
  | .definition name _ _ _ _ _ => name
  | .constructed definition _ => next definition
  | .array element _ => next element
  | .typeParameter name => name
  | .error name => name

def displayLayer (t : TypeTable) (next : TypeId → String) (id : TypeId) : String :=
  match t.shape id with
  | .definition name namespaceName _ containing _ typeParameters =>
    match (t.specialOf id).bind (·.keyword?) with
    | some keyword => keyword
    | none =>
      qualifiedDisplay name namespaceName (containing.map next) ++
        (if typeParameters.isEmpty then "" else bracketedDisplay (typeParameters.map next))
  | .constructed definition arguments =>
    match t.nullableUnderlying id with
    | some underlying => next underlying ++ "?"
    | none =>
      (match t.shape definition with
        | .definition name namespaceName _ containing _ _ =>
          qualifiedDisplay name namespaceName (containing.map next)
        | _ => "") ++ bracketedDisplay (arguments.map next)
  | .array element rank =>
    next element ++ "[" ++ String.ofList (List.replicate (rank - 1) ',') ++ "]"
  | .typeParameter name => name
  | .error name => name

def substituteLayer (s : Substitution) (depth : Nat) (next : TypeId → StateM TypeTable TypeId)
    (id : TypeId) : StateM TypeTable TypeId := do
  match s.apply? id with
  | some replacement => return replacement
  | none =>
    match (← get).shape id with
    | .constructed definition arguments =>
      let arguments ← arguments.mapM next
      modifyGet (·.construct definition arguments depth)
    | .array element rank =>
      let element ← next element
      modifyGet (·.array element rank depth)
    | _ => return id

theorem mapM_congr {f g : α → StateM TypeTable β} {as : List α} (h : ∀ a ∈ as, f a = g a) :
    as.mapM f = as.mapM g := by
  induction as with
  | nil => rfl
  | cons a as ih =>
    rw [List.mapM_cons, List.mapM_cons, h a List.mem_cons_self,
      ih fun b hb => h b (List.mem_cons_of_mem _ hb)]

theorem mem_arguments_of_nullableUnderlying {id definition underlying : TypeId}
    {arguments : List TypeId} (hshape : t.shape id = .constructed definition arguments)
    (h : t.nullableUnderlying id = some underlying) : underlying ∈ arguments := by
  rw [nullableUnderlying, hshape] at h
  dsimp only at h
  split at h
  · exact List.mem_of_head? h
  · cases h

namespace Sound

variable {t : TypeTable}

theorem kind_eq (h : t.Sound) (id : TypeId) : t.kind id = t.kindLayer t.kind id := by
  rw [kind, kindLayer]
  cases hshape : t.shape id with
  | constructed definition arguments => exact if_pos (h.older (hshape ▸ List.mem_cons_self))
  | _ => rfl

theorem name_eq (h : t.Sound) (id : TypeId) : t.name id = t.nameLayer t.name id := by
  rw [name, nameLayer]
  cases hshape : t.shape id with
  | constructed definition arguments => exact if_pos (h.older (hshape ▸ List.mem_cons_self))
  | array element rank => exact if_pos (h.older (hshape ▸ List.mem_cons_self))
  | _ => rfl

theorem display_eq (h : t.Sound) (id : TypeId) : t.display id = t.displayLayer t.display id := by
  rw [display, displayLayer]
  cases hshape : t.shape id with
  | definition name namespaceName unique containing kind typeParameters =>
    have hpart {part : TypeId} (hmem : part ∈ containing.toList ++ typeParameters) :
        part.index < id.index := h.older (hshape ▸ hmem)
    have houter : (containing.map fun other => if other.index < id.index then t.display other else "")
        = containing.map t.display := Option.map_congr fun outer houter =>
      if_pos (hpart (List.mem_append_left _ (Option.mem_toList.2 houter)))
    have hparameters : (typeParameters.map fun other =>
        if other.index < id.index then t.display other else "") = typeParameters.map t.display :=
      List.map_congr_left fun p hp => if_pos (hpart (List.mem_append_right _ hp))
    dsimp only
    rewrite [houter, hparameters]
    rfl
  | constructed definition arguments =>
    have hpart {part : TypeId} (hmem : part ∈ definition :: arguments) : part.index < id.index :=
      h.older (hshape ▸ hmem)
    have harguments : (arguments.map fun other =>
        if other.index < id.index then t.display other else "") = arguments.map t.display :=
      List.map_congr_left fun a ha => if_pos (hpart (List.mem_cons_of_mem _ ha))
    dsimp only
    rw [harguments]
    cases hunder : t.nullableUnderlying id with
    | some underlying =>
      dsimp only
      rw [if_pos (hpart (List.mem_cons_of_mem _ (mem_arguments_of_nullableUnderlying hshape hunder)))]
    | none =>
      cases hdefinition : t.shape definition with
      | definition name namespaceName unique containing kind typeParameters =>
        have houter : (containing.map fun other =>
            if other.index < id.index then t.display other else "") = containing.map t.display := by
          refine Option.map_congr fun outer houter => if_pos ?_
          have hmem : outer ∈ (t.shape definition).parts := by
            rw [hdefinition]
            exact List.mem_append_left _ (Option.mem_toList.2 houter)
          exact Nat.lt_trans (h.older hmem) (hpart List.mem_cons_self)
        dsimp only
        rw [houter]
      | _ => rfl
  | array element rank =>
    dsimp only
    rw [if_pos (h.older (hshape ▸ List.mem_cons_self))]
  | _ => rfl

theorem substitute_eq (h : t.Sound) (s : Substitution) (depth : Nat) (id : TypeId) :
    substitute s depth id t = substituteLayer s depth (substitute s depth) id t := by
  rw [substitute, substituteLayer]
  cases s.apply? id with
  | some replacement => rfl
  | none =>
    have hget (next : TypeTable → StateM TypeTable TypeId) : (get >>= next) t = next t t := rfl
    dsimp only
    rw [hget, hget]
    cases hshape : t.shape id with
    | constructed definition arguments =>
      have hsame : (arguments.mapM fun a =>
          if a.index < id.index then substitute s depth a else pure a)
          = arguments.mapM (substitute s depth) :=
        mapM_congr fun a ha => if_pos (h.older (hshape ▸ List.mem_cons_of_mem _ ha))
      dsimp only
      rw [hsame]
    | array element rank =>
      dsimp only
      rw [if_pos (h.older (hshape ▸ List.mem_cons_self))]
    | _ => rfl

end Sound

/-! ## Structural identity -/

/-- The maps are the inverse of the entries, types with equal structure are the same, types are
    built from older ones, and what goes down into a type goes to its parts, which are older. -/
structure StructuralIdentity (t : TypeTable) : Prop where
  constructed_eq_some_iff : ∀ {id definition : TypeId} {arguments : List TypeId},
    t.constructed.find? definition arguments = some id ↔
      id.index < t.size ∧ t.shape id = .constructed definition arguments
  arrays_eq_some_iff : ∀ {id element : TypeId} {rank : Nat},
    t.arrays.find? element rank = some id ↔ id.index < t.size ∧ t.shape id = .array element rank
  errors_eq_some_iff : ∀ {id : TypeId} {name : String},
    t.errors.lookup name = some id ↔ id.index < t.size ∧ t.shape id = .error name
  unique : ∀ {id id' : TypeId}, id.index < t.size → id'.index < t.size →
    (t.shape id).isBuilt = true → t.shape id' = t.shape id → id' = id
  older : ∀ {id part : TypeId}, part ∈ (t.shape id).parts → part.index < id.index
  kind_eq : ∀ id : TypeId, t.kind id = t.kindLayer t.kind id
  name_eq : ∀ id : TypeId, t.name id = t.nameLayer t.name id
  display_eq : ∀ id : TypeId, t.display id = t.displayLayer t.display id
  substitute_eq : ∀ (s : Substitution) (depth : Nat) (id : TypeId),
    substitute s depth id t = substituteLayer s depth (substitute s depth) id t

/-- Asking for a structure gives a type with this structure, be it an old one or a new one. -/
structure Makes (t : TypeTable) : Prop where
  construct : ∀ (definition : TypeId) {arguments : List TypeId}, arguments ≠ [] →
    (t.construct definition arguments).2.shape (t.construct definition arguments).1
      = .constructed definition arguments
  array : ∀ (element : TypeId) (rank : Nat),
    (t.array element rank).2.shape (t.array element rank).1 = .array element (max rank 1)
  error : ∀ name : String, (t.error name).1.index < (t.error name).2.size ∧
    (t.error name).2.shape (t.error name).1 = .error name

/-- Asking `t'` for the structure of a type of `t` gives this type, and makes no other. -/
structure Returns (t t' : TypeTable) : Prop where
  construct : ∀ {id definition : TypeId} {arguments : List TypeId},
    t.shape id = .constructed definition arguments → t'.construct definition arguments = (id, t')
  array : ∀ {id element : TypeId} {rank : Nat},
    t.shape id = .array element rank → t'.array element rank = (id, t')
  error : ∀ {id : TypeId} {name : String}, id.index < t.size →
    t.shape id = .error name → t'.error name = (id, t')

theorem Sound.structuralIdentity (h : t.Sound) : t.StructuralIdentity where
  constructed_eq_some_iff {id definition arguments} :=
    @h.find?_eq_some_iff (.constructed definition arguments) rfl id
  arrays_eq_some_iff {id element rank} := @h.find?_eq_some_iff (.array element rank) rfl id
  errors_eq_some_iff {id name} := @h.find?_eq_some_iff (.error name) rfl id
  unique := h.unique
  older := h.older
  kind_eq := h.kind_eq
  name_eq := h.name_eq
  display_eq := h.display_eq
  substitute_eq := h.substitute_eq

theorem Sound.makes (h : t.Sound) : t.Makes where
  construct definition {arguments} hne := by
    have hsome : ¬ arguments.isEmpty := by simpa using hne
    rw [TypeTable.construct, if_neg hsome]
    exact h.recorded.shape_intern _ 0
  array element rank := h.recorded.shape_intern _ 0
  error name := ⟨h.intern_lt _ 0, h.recorded.shape_intern _ 0⟩

theorem Sound.intern_eq (h : t.Sound) {id : TypeId} (hid : id.index < t.size)
    (hbuilt : (t.shape id).isBuilt = true) : t.intern (t.shape id) = (id, t) := by
  rw [TypeTable.intern, (h.find?_eq_some_iff hbuilt id).2 ⟨hid, rfl⟩]

theorem Sound.returns (h' : t'.Sound) (hkeeps : t.Keeps t') : t.Returns t' := by
  have hinside {id part : TypeId} (hpart : part ∈ (t.shape id).parts) :
      id.index < t'.size ∧ t'.shape id = t.shape id :=
    ⟨Nat.lt_of_lt_of_le (index_lt_of_parts hpart) hkeeps.size_le,
      hkeeps.shape_eq (index_lt_of_parts hpart)⟩
  constructor
  case construct =>
    intro id definition arguments hshape
    obtain ⟨hid, hsame⟩ := hinside (hshape ▸ List.mem_cons_self : definition ∈ (t.shape id).parts)
    rw [hshape] at hsame
    have hproper := h'.proper id
    have hbuilt : (t'.shape id).isBuilt = true := by rw [hsame]; rfl
    rw [hsame] at hproper
    rw [TypeTable.construct, if_neg (by simpa [Shape.isProper] using hproper), ← hsame,
      h'.intern_eq hid hbuilt]
  case array =>
    intro id element rank hshape
    obtain ⟨hid, hsame⟩ := hinside (hshape ▸ List.mem_cons_self : element ∈ (t.shape id).parts)
    rw [hshape] at hsame
    have hproper := h'.proper id
    have hbuilt : (t'.shape id).isBuilt = true := by rw [hsame]; rfl
    rw [hsame] at hproper
    rw [TypeTable.array, Nat.max_eq_left (of_decide_eq_true hproper), ← hsame, h'.intern_eq hid hbuilt]
  case error =>
    intro id name hid hshape
    have hsame := (hkeeps.shape_eq hid).trans hshape
    have hbuilt : (t'.shape id).isBuilt = true := by rw [hsame]; rfl
    rw [TypeTable.error, ← hsame, h'.intern_eq (Nat.lt_of_lt_of_le hid hkeeps.size_le) hbuilt]

/-- In every table that steps make of the empty one, the identity of types is structural, and
    asking for a structure gives a type with it. Whatever happens to the table afterwards, its types
    stay what they are, and each structure keeps its type. -/
theorem structuralIdentity_of_reaches (h : TypeTable.empty.Reaches t) :
    t.StructuralIdentity ∧ t.Makes ∧ ∀ t', t.Reaches t' → t.Keeps t' ∧ t.Returns t' := by
  have hsound : t.Sound := h.sound .empty
  refine ⟨hsound.structuralIdentity, hsound.makes, fun t' h' => ⟨h'.keeps, ?_⟩⟩
  exact (h'.sound hsound).returns h'.keeps

/-- A generic type whose base is the same type of an array, so that completion goes on to its
    limit. -/
def expanding : TypeTable :=
  [TableStep.declare "" "G" .classType ["T"] none, .array ⟨0⟩ 1, .construct ⟨1⟩ [⟨2⟩],
    .setBase ⟨1⟩ ⟨3⟩].foldl (fun t step => step.run t) .empty

theorem structuralIdentity_expanding :
    TypeTable.empty.Reaches expanding.complete ∧ expanding.complete.StructuralIdentity ∧
      expanding.complete.Makes ∧ ∀ t', expanding.complete.Reaches t' → expanding.complete.Keeps t' ∧
        expanding.complete.Returns t' := by
  have hdeclare : TypeTable.empty.Reaches (TableStep.run (.declare "" "G" .classType ["T"] none) .empty) :=
    .single ⟨_, by decide, rfl⟩
  have harray := hdeclare.tail ⟨.array ⟨0⟩ 1, by decide, rfl⟩
  have hconstruct := harray.tail ⟨.construct ⟨1⟩ [⟨2⟩], by decide, rfl⟩
  have hbase : TypeTable.empty.Reaches expanding :=
    hconstruct.tail ⟨.setBase ⟨1⟩ ⟨3⟩, by decide, rfl⟩
  have hcomplete := hbase.tail ⟨.complete, by decide, rfl⟩
  exact ⟨hcomplete, structuralIdentity_of_reaches hcomplete⟩

end TypeTable

end SettingsLint
