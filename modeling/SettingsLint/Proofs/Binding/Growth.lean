import SettingsLint.Binding.Model
import SettingsLint.Proofs.Types.Growth

/-! # Binding only adds to the table

Whatever it resolves, binding makes types that are built from others, and it fills in bases,
interfaces and constructors. `Bind.Steps R` says that an action goes along a relation that
allows this. A declaration does if its properties are added along the relation.
-/

namespace SettingsLint

/-- The relation allows what binding does, other than adding properties. -/
class Bind.Growth (R : BindState → BindState → Prop) : Prop where
  refl : ∀ s, R s s
  trans : ∀ {s t u}, R s t → R t u → R s u
  table : ∀ (s : BindState) t, s.table.Grows t → R s { s with table := t }
  report : ∀ (s : BindState) (d : Diagnostic),
    d.id ∈ [Diagnostic.unresolvedTypeId, Diagnostic.unresolvedAttributeId] →
    R s { s with diagnostics := s.diagnostics ++ [d] }

/-- A relation between tables is one between the states that have them. -/
instance {R : TypeTable → TypeTable → Prop} [hR : TypeTable.Growth R] :
    Bind.Growth fun s t => R s.table t.table where
  refl s := hR.refl s.table
  trans := hR.trans
  table _ _ h := h R hR
  report s _ _ := hR.refl s.table

/-- The action takes the state along the relation. -/
class Bind.Steps (R : BindState → BindState → Prop) (x : Bind α) : Prop where
  steps : ∀ s : BindState, R s (x s).2

namespace Bind

theorem bind_apply (x : Bind α) (next : α → Bind β) (s : BindState) :
    (x >>= next) s = next (x s).1 (x s).2 := rfl

variable {R : BindState → BindState → Prop} [hR : Growth R]

/-! ## Single steps -/

instance (a : α) : Steps R (pure a : Bind α) := ⟨fun _ => hR.refl _⟩

instance : Steps R table := ⟨fun _ => hR.refl _⟩

theorem steps_report {id message : String} {span : Span}
    (h : id ∈ [Diagnostic.unresolvedTypeId, Diagnostic.unresolvedAttributeId]) :
    Steps R (report id message span) := ⟨fun s => hR.report s _ h⟩

instance (message : String) (span : Span) :
    Steps R (report Diagnostic.unresolvedTypeId message span) := steps_report (by decide)

instance (message : String) (span : Span) :
    Steps R (report Diagnostic.unresolvedAttributeId message span) := steps_report (by decide)

theorem Steps.bind {x : Bind α} {next : α → Bind β} (h : Steps R x)
    (hnext : ∀ a, Steps R (next a)) : Steps R (x >>= next) :=
  ⟨fun s => hR.trans (h.steps s) ((hnext _).steps _)⟩

instance {x : Bind α} {next : α → Bind β} [h : Steps R x] [hnext : ∀ a, Steps R (next a)] :
    Steps R (x >>= next) := h.bind hnext

instance {c : Prop} [Decidable c] {x y : Bind α} [hx : Steps R x] [hy : Steps R y] :
    Steps R (if c then x else y) := by
  split
  · exact hx
  · exact hy

instance (as : List α) (k : α → Bind β) [h : ∀ a, Steps R (k a)] : Steps R (as.mapM k) := by
  induction as with
  | nil =>
    rw [List.mapM_nil]
    infer_instance
  | cons a as ih =>
    rw [List.mapM_cons]
    infer_instance

theorem Steps.forM {as : List α} {k : α → Bind Unit} (h : ∀ a ∈ as, Steps R (k a)) :
    Steps R (as.forM k) := by
  induction as with
  | nil => exact inferInstanceAs (Steps R (pure ()))
  | cons a as ih =>
    exact (h a List.mem_cons_self).bind fun _ => ih fun b hb => h b (List.mem_cons_of_mem _ hb)

theorem Steps.onTable {f : TypeTable → α × TypeTable} (h : ∀ t : TypeTable, t.Grows (f t).2) :
    Steps R (onTable f) := ⟨fun s => hR.table s _ (h s.table)⟩

theorem Steps.changeTable {f : TypeTable → TypeTable} (h : ∀ t : TypeTable, t.Grows (f t)) :
    Steps R (changeTable f) := ⟨fun s => hR.table s _ (h s.table)⟩

/-! ## Types -/

instance (name : String) : Steps R (onTable (·.error name)) :=
  .onTable fun t _ hG => hG.intern t _ 0 rfl

section

variable {resolveAlias : ResolveAlias} [halias : ∀ target, Steps R (resolveAlias target)]

instance (usings : List UsingDirective) (name : String) (arity : Nat) :
    Steps R (foundInUsings resolveAlias usings name arity) := by
  rw [foundInUsings]
  split <;> infer_instance

instance (name : String) (arity : Nat) (scopes : List UsingScope) :
    Steps R (foundInScopes resolveAlias name arity scopes) := by
  induction scopes with
  | nil => exact inferInstanceAs (Steps R (pure none))
  | cons scope scopes ih =>
    exact .bind inferInstance fun found => by cases found <;> infer_instance

instance (scopes : List UsingScope) (name : String) (arity : Nat) (namespaces : List String) :
    Steps R (foundInNamespaces resolveAlias scopes name arity namespaces) := by
  induction namespaces with
  | nil => exact inferInstanceAs (Steps R (pure none))
  | cons namespaceName outer ih =>
    refine .bind inferInstance fun t => ?_
    split
    · infer_instance
    · exact .bind inferInstance fun found => by cases found <;> infer_instance

instance (context : Context) (name : String) (arity : Nat) :
    Steps R (foundFirst resolveAlias context name arity) := by
  refine .bind inferInstance fun t => ?_
  split
  · infer_instance
  · split <;> infer_instance

omit halias in
instance (outer : Found) (name : String) (arity : Nat) :
    Steps R (foundInside outer name arity) := by
  refine .bind inferInstance fun t => ?_
  cases outer <;> infer_instance

omit halias in
instance (found : Found) (arguments : List TypeId) : Steps R (withArguments found arguments) := by
  cases found with
  | inNamespace name => exact inferInstanceAs (Steps R (pure _))
  | type definition =>
    exact .bind (.onTable fun t _ _ => TypeTable.Growth.construct t definition arguments 0) inferInstance

omit halias in
instance (outer : Found) (segments : List (String × List TypeId)) :
    Steps R (lookupInside outer segments) := by
  induction segments generalizing outer with
  | nil => exact inferInstanceAs (Steps R (pure _))
  | cons segment segments ih =>
    exact .bind inferInstance fun found => by cases found <;> infer_instance

instance (context : Context) (isGlobal : Bool) (segments : List (String × List TypeId)) :
    Steps R (Bind.lookup resolveAlias context isGlobal segments) := by
  cases segments with
  | nil => exact inferInstanceAs (Steps R (pure none))
  | cons segment segments =>
    have hrest (first : Option Found) : Steps R (lookupFrom segment.2 segments first) := by
      cases first
      · exact inferInstanceAs (Steps R (pure none))
      · exact inferInstanceAs (Steps R (_ >>= _))
    rw [Bind.lookup]
    split
    · exact .bind inferInstance fun t => .bind inferInstance hrest
    · exact .bind inferInstance hrest

instance (context : Context) (isGlobal : Bool) (segments : List NameSegment) (span : Span)
    (arguments : List (List TypeId)) :
    Steps R (namedType resolveAlias context isGlobal segments span arguments) := by
  refine .bind inferInstance fun t => ?_
  split
  · infer_instance
  · exact .bind inferInstance fun found => by cases found <;> infer_instance

omit halias in
instance (element : TypeId) (rank : Nat) : Steps R (arrayType element rank) := by
  refine .bind inferInstance fun t => ?_
  split
  · infer_instance
  · exact .onTable fun t _ hG => hG.intern t _ 0 rfl

omit halias in
instance (inner : TypeId) : Steps R (nullableType inner) := by
  refine .bind inferInstance fun t => ?_
  split
  · refine .onTable fun t _ hG => ?_
    rw [TypeTable.nullable]
    split
    · exact TypeTable.Growth.construct t _ _ 0
    · exact hG.refl t
  · infer_instance

end

mutual

theorem steps_typeWith {resolveAlias : ResolveAlias} (h : ∀ target, Steps R (resolveAlias target))
    (context : Context) : (expr : TypeExpr) → Steps R (typeWith resolveAlias context expr)
  | .named isGlobal segments span => by
    exact (steps_argumentsWith h context segments).bind inferInstance
  | .array element rank span => by
    exact (steps_typeWith h context element).bind inferInstance
  | .nullable inner span => by
    exact (steps_typeWith h context inner).bind inferInstance
  | .unsupported span => by
    rw [typeWith]
    infer_instance

theorem steps_argumentsWith {resolveAlias : ResolveAlias}
    (h : ∀ target, Steps R (resolveAlias target)) (context : Context) :
    (segments : List NameSegment) → Steps R (argumentsWith resolveAlias context segments)
  | [] => by
    rw [argumentsWith]
    infer_instance
  | .mk name arguments :: segments => by
    exact (steps_typesWith h context arguments).bind fun _ =>
      (steps_argumentsWith h context segments).bind inferInstance

theorem steps_typesWith {resolveAlias : ResolveAlias} (h : ∀ target, Steps R (resolveAlias target))
    (context : Context) : (exprs : List TypeExpr) → Steps R (typesWith resolveAlias context exprs)
  | [] => by
    rw [typesWith]
    infer_instance
  | expr :: exprs => by
    exact (steps_typeWith h context expr).bind fun _ =>
      (steps_typesWith h context exprs).bind inferInstance

end

instance {resolveAlias : ResolveAlias} [h : ∀ target, Steps R (resolveAlias target)]
    (context : Context) (segments : List NameSegment) :
    Steps R (argumentsWith resolveAlias context segments) :=
  steps_argumentsWith h context segments

instance (target : TypeExpr) : Steps R (aliasTarget target) := by
  cases target with
  | named isGlobal segments span =>
    rw [aliasTarget]
    infer_instance
  | _ => exact inferInstanceAs (Steps R (pure none))

instance (context : Context) (expr : TypeExpr) : Steps R (type context expr) :=
  steps_typeWith inferInstance context expr

/-! ## Attributes -/

instance (context : Context) (value : Expr) : Steps R (constant context value) := by
  cases value with
  | typeOf expr span =>
    rw [constant]
    infer_instance
  | _ => exact inferInstanceAs (Steps R (pure _))

instance (context : Context) (a : Attribute) : Steps R (attributeClass context a) := by
  rw [attributeClass]
  split
  · refine .bind inferInstance fun _ => .bind inferInstance fun found => ?_
    cases found <;> infer_instance
  · infer_instance

instance (context : Context) (a : Attribute) : Steps R (appliedAttribute context a) := by
  rw [appliedAttribute]
  infer_instance

instance (context : Context) (p : Property) : Steps R (property context p) := by
  rw [property]
  infer_instance

/-! ## Declarations -/

theorem keeps_setBase (base : TypeId) : Entry.Keeps ({ · with base := some base }) :=
  ⟨fun _ => rfl, fun _ => rfl, fun _ => rfl⟩

instance (d : Declared) (isFirst : Bool) (expr : TypeExpr) : Steps R (baseType d isFirst expr) := by
  refine .bind inferInstance fun id => .bind inferInstance fun t => ?_
  have hinterface : Steps R (changeTable (·.addInterface d.id id)) := by
    refine .changeTable fun t _ _ => TypeTable.Growth.update t d.id ⟨fun e => ?_, fun e => ?_, fun e => ?_⟩
    all_goals
      split <;> rfl
  have hbase : Steps R (changeTable (·.setBase d.id id)) :=
    .changeTable fun t _ _ => TypeTable.Growth.update t d.id (keeps_setBase id)
  infer_instance

instance (d : Declared) : Steps R (setDefaultBase d) := by
  refine .bind inferInstance fun t => ?_
  split
  · split
    · exact .changeTable fun t _ _ => TypeTable.Growth.update t d.id (keeps_setBase _)
    · infer_instance
  · infer_instance

instance (d : Declared) : Steps R (baseTypes d) := by
  have hbases : Steps R (d.declaration.header.bases.zipIdx.forM
      fun (expr, i) => baseType d (i = 0) expr) := .forM fun _ _ => inferInstance
  rw [baseTypes]
  infer_instance

theorem steps_addConstructor (d : Declared) (parameters : List ParameterSymbol) :
    Steps R (changeTable (·.addConstructor d.id parameters)) :=
  .changeTable fun t _ _ => TypeTable.Growth.update t d.id ⟨fun _ => rfl, fun _ => rfl, fun _ => rfl⟩

instance (d : Declared) (list : List Parameter) : Steps R (constructor d list) := by
  refine .bind ?_ (steps_addConstructor d)
  rw [parameters]
  infer_instance

instance (d : Declared) : Steps R (implicitConstructor d) := by
  have hadd := steps_addConstructor (R := R) d []
  rw [implicitConstructor]
  infer_instance

/-- Binds a property and adds it to its type. -/
def addProperty (d : Declared) (p : Property) : Bind Unit := do
  let symbol ← property d.context p
  changeTable (·.addProperty d.id symbol)

/-- A declaration is bound along the relation if its properties are. -/
theorem steps_declaration (d : Declared)
    (h : ∀ p ∈ d.declaration.properties, Steps R (addProperty d p)) :
    Steps R (declaration d) := by
  have hmembers : Steps R (d.declaration.members.forM (member d)) := by
    refine .forM fun m hm => ?_
    cases m with
    | property p => exact h p (List.mem_filterMap.2 ⟨_, hm, rfl⟩)
    | constructor c => exact inferInstanceAs (Steps R (if c.isStatic then pure () else _))
    | nested declaration => exact inferInstanceAs (Steps R (pure ()))
    | other span => exact inferInstanceAs (Steps R (pure ()))
  refine .bind inferInstance fun _ => ?_
  rw [members]
  cases d.declaration.header.primaryParameters with
  | none => exact hmembers.bind fun _ => inferInstance
  | some list => exact .bind inferInstance fun _ => hmembers.bind fun _ => inferInstance

end Bind

end SettingsLint
