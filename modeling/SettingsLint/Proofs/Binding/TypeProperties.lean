import SettingsLint.Proofs.Binding.Provenance

/-! # The properties of a type

A declaration adds its properties to its type one after the other and leaves all other types
alone. So in the end a type has the properties of the declarations that share it, in the order
in which these are bound, and a property is bound once.
-/

namespace SettingsLint

/-! ## Tables with the same properties -/

namespace TypeTable

variable {t : TypeTable} {id : TypeId}

/-- The properties that the entry of the type holds. -/
def ownProperties (t : TypeTable) (id : TypeId) : List PropertySymbol := (t.entry id).properties

theorem ownProperties_of_le (h : t.size ≤ id.index) :
    t.ownProperties id = [] := by
  rw [ownProperties, entry_of_le h]
  rfl

theorem ownProperties_push (t : TypeTable) (shape : Shape) (depth : Nat) (id : TypeId) :
    (t.push shape depth).2.ownProperties id = t.ownProperties id := by
  rcases Nat.lt_or_ge id.index t.size with hlt | hge
  · rw [ownProperties, ownProperties, entry_push_of_lt hlt]
  · rw [ownProperties_of_le hge]
    rcases Nat.lt_or_eq_of_le hge with hlt | heq
    · exact ownProperties_of_le (by rwa [size_push])
    · -- The new entry starts without properties.
      have hself : id = ⟨t.size⟩ := congrArg TypeId.mk heq.symm
      rw [hself]
      show ((t.entries.push _)[t.entries.size]?.getD default).properties = []
      rw [Array.getElem?_push_size]
      rfl

/-- The table has grown, and no type has got or lost a property. -/
structure SameProperties (t t' : TypeTable) : Prop where
  grown : t.Extends t'
  same : ∀ id, t'.ownProperties id = t.ownProperties id

instance : Growth SameProperties where
  refl t := ⟨.refl t, fun _ => rfl⟩
  trans h g := ⟨Growth.trans h.grown g.grown, fun id => (g.same id).trans (h.same id)⟩
  intern t shape depth hbuilt := by
    refine ⟨Growth.intern t shape depth hbuilt, fun id => ?_⟩
    rw [intern]
    split
    · rfl
    · exact ownProperties_push t shape depth id
  change t f hf := by
    refine ⟨Growth.change t f hf, fun id => ?_⟩
    rcases Nat.lt_or_ge id.index t.size with hlt | hge
    · rw [ownProperties, entry_mapIdx t hlt, (hf id.index).properties]
      rfl
    · rw [ownProperties_of_le hge]
      apply ownProperties_of_le
      rwa [size, Array.size_mapIdx]

theorem index_lt_of_isDefinition (h : t.isDefinition id = true) :
    id.index < t.size := by
  by_contra hge
  rw [isDefinition, metadataName?, shape_of_le (Nat.le_of_not_lt hge)] at h
  cases h

theorem Extends.isDefinition {t' : TypeTable} (h : t.Extends t')
    (hid : t.isDefinition id = true) : t'.isDefinition id = true := by
  rwa [TypeTable.isDefinition, metadataName?, h.shape_eq (index_lt_of_isDefinition hid)]

/-- A property is added behind those that its type has. -/
theorem ownProperties_addProperty (hid : t.isDefinition id = true)
    (symbol : PropertySymbol) (other : TypeId) :
    (t.addProperty id symbol).ownProperties other
      = t.ownProperties other ++ if id = other then [symbol] else [] := by
  rw [addProperty, if_pos hid, update_eq]
  rcases Nat.lt_or_ge other.index t.size with hlt | hge
  · rw [ownProperties, entry_mapIdx t hlt]
    by_cases heq : id = other
    · simp [heq, ownProperties]
    · have hindex : id.index ≠ other.index := fun h => heq (congrArg TypeId.mk h)
      simp [heq, hindex, ownProperties]
  · have hdiffer : id ≠ other := by
      intro heq
      have := index_lt_of_isDefinition hid
      rw [heq] at this
      omega
    rw [if_neg hdiffer, ownProperties_of_le hge]
    apply ownProperties_of_le
    rwa [size, Array.size_mapIdx]

end TypeTable

/-! ## Binding declarations -/

/-- The symbol was bound from the property, wherever that was. -/
def PropertySymbol.IsOf (p : Property) (symbol : PropertySymbol) : Prop :=
  ∃ (context : Context) (s : BindState), symbol = (Bind.property context p s).1

/-- On the way from the one table to the other the properties were added to the type, in their
    order, and nothing to other types. -/
structure TypeTable.Gains (id : TypeId) (ps : List Property) (t t' : TypeTable) : Prop where
  grown : t.Extends t'
  own : ∃ symbols, t'.ownProperties id = t.ownProperties id ++ symbols ∧
    List.Forall₂ PropertySymbol.IsOf ps symbols
  other : ∀ other, id ≠ other → t'.ownProperties other = t.ownProperties other

namespace TypeTable.Gains

variable {id : TypeId} {ps qs : List Property} {t t' t'' : TypeTable}

theorem of_same (h : t.SameProperties t') : Gains id [] t t' where
  grown := h.grown
  own := ⟨[], by rw [h.same, List.append_nil], .nil⟩
  other other _ := h.same other

theorem append (h : Gains id ps t t') (g : Gains id qs t' t'') : Gains id (ps ++ qs) t t'' where
  grown := TypeTable.Growth.trans h.grown g.grown
  own := by
    obtain ⟨symbols, hsymbols, hps⟩ := h.own
    obtain ⟨symbols', hsymbols', hqs⟩ := g.own
    exact ⟨symbols ++ symbols', by rw [hsymbols', hsymbols, List.append_assoc],
      List.rel_append hps hqs⟩
  other other hother := (g.other other hother).trans (h.other other hother)

/-- What changes no properties may come before. -/
theorem after (g : Gains id ps t' t'') (h : t.SameProperties t') : Gains id ps t t'' :=
  (of_same h).append g

/-- What changes no properties may come after. -/
theorem before (h : Gains id ps t t') (g : t'.SameProperties t'') : Gains id ps t t'' := by
  simpa using h.append (of_same g)

end TypeTable.Gains

namespace Bind

open TypeTable (Gains SameProperties)

/-- The action changes no properties. -/
abbrev KeepsProperties (x : Bind α) : Prop :=
  Steps (fun s t => SameProperties s.table t.table) x

theorem gains_addProperty (d : Declared) (p : Property) (s : BindState)
    (hid : s.table.isDefinition d.id = true) :
    Gains d.id [p] s.table (addProperty d p s).2.table := by
  have hbound : s.table.SameProperties (property d.context p s).2.table :=
    Steps.steps (R := fun s t => SameProperties s.table t.table) s
  have hdefined := hbound.grown.isDefinition hid
  have hadded := TypeTable.ownProperties_addProperty hdefined (property d.context p s).1
  refine Gains.after ⟨TypeTable.Extends.addProperty _ _ _, ?_, ?_⟩ hbound
  · have hown := hadded d.id
    rw [if_pos rfl] at hown
    exact ⟨_, hown, .cons ⟨d.context, s, rfl⟩ .nil⟩
  · intro other hother
    have hother' := hadded other
    rwa [if_neg hother, List.append_nil] at hother'

/-- Each member adds what it has of properties. -/
theorem gains_member (d : Declared) (m : Member) (s : BindState)
    (hid : s.table.isDefinition d.id = true) :
    Gains d.id m.property?.toList s.table (member d m s).2.table := by
  cases m with
  | property p => exact gains_addProperty d p s hid
  | constructor c =>
    have hkeeps : KeepsProperties (member d (.constructor c)) :=
      inferInstanceAs (KeepsProperties (if c.isStatic then pure () else constructor d c.parameters))
    exact .of_same (hkeeps.steps s)
  | nested declaration => exact .of_same (TypeTable.Growth.refl _)
  | other span => exact .of_same (TypeTable.Growth.refl _)

theorem gains_members (d : Declared) (list : List Member) (s : BindState)
    (hid : s.table.isDefinition d.id = true) :
    Gains d.id (list.filterMap (·.property?)) s.table (list.forM (member d) s).2.table := by
  induction list generalizing s with
  | nil => exact .of_same (TypeTable.Growth.refl _)
  | cons m list ih =>
    have hfirst := gains_member d m s hid
    have hrest := ih (member d m s).2 (hfirst.grown.isDefinition hid)
    have hsplit : (m :: list).filterMap (·.property?)
        = m.property?.toList ++ list.filterMap (·.property?) := by
      cases hm : m.property? <;> simp [hm]
    rw [hsplit]
    exact hfirst.append hrest

/-- A declaration adds its properties. -/
theorem gains_declaration (d : Declared) (s : BindState) (hid : s.table.isDefinition d.id = true) :
    Gains d.id d.declaration.properties s.table (declaration d s).2.table := by
  let primary : Bind Unit := d.declaration.header.primaryParameters.elim (pure ()) (constructor d)
  have hbefore : KeepsProperties (baseTypes d >>= fun _ => primary) := by
    refine .bind inferInstance fun _ => ?_
    show KeepsProperties (d.declaration.header.primaryParameters.elim (pure ()) (constructor d))
    cases d.declaration.header.primaryParameters with
    | none => exact inferInstanceAs (KeepsProperties (pure ()))
    | some list => exact inferInstanceAs (KeepsProperties (constructor d list))
  have hafter : KeepsProperties (implicitConstructor d) := inferInstance
  have hstart := hbefore.steps s
  have hmembers := gains_members d d.declaration.members _ (hstart.grown.isDefinition hid)
  have heq : declaration d = (baseTypes d >>= fun _ => primary) >>= fun _ =>
      d.declaration.members.forM (member d) >>= fun _ => implicitConstructor d := by
    rw [declaration, members]
    show _ = (baseTypes d >>= fun _ =>
      d.declaration.header.primaryParameters.elim (pure ()) (constructor d)) >>= _
    cases d.declaration.header.primaryParameters <;> rfl
  rw [heq]
  exact (hmembers.after hstart).before (hafter.steps _)

/-- In the end each type has the properties of its declarations. -/
theorem forall₂_forM_declaration (ds : List Declared) (s : BindState)
    (hds : ∀ d ∈ ds, s.table.isDefinition d.id = true) (id : TypeId) :
    ∃ symbols, (ds.forM declaration s).2.table.ownProperties id
        = s.table.ownProperties id ++ symbols ∧
      List.Forall₂ PropertySymbol.IsOf
        ((ds.filter (·.id = id)).flatMap (·.declaration.properties)) symbols := by
  induction ds generalizing s with
  | nil => exact ⟨[], by rw [List.append_nil]; rfl, .nil⟩
  | cons d ds ih =>
    have hfirst := gains_declaration d s (hds d List.mem_cons_self)
    obtain ⟨symbols', hsymbols', hrest⟩ := ih (declaration d s).2
      fun e he => hfirst.grown.isDefinition (hds e (List.mem_cons_of_mem _ he))
    by_cases heq : d.id = id
    · subst heq
      obtain ⟨symbols, hsymbols, hown⟩ := hfirst.own
      refine ⟨symbols ++ symbols', ?_, ?_⟩
      · rw [← List.append_assoc, ← hsymbols]
        exact hsymbols'
      · rw [List.filter_cons_of_pos (by simp)]
        exact List.rel_append hown hrest
    · refine ⟨symbols', ?_, ?_⟩
      · rw [← hfirst.other id heq]
        exact hsymbols'
      · rwa [List.filter_cons_of_neg (by simpa using heq)]

end Bind

end SettingsLint
