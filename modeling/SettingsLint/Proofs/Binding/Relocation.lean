import SettingsLint.Binding.Model
import SettingsLint.Proofs.Tree.Places
import SettingsLint.Proofs.Types.MapProperties

/-! # Binding does not look at places

The places of a tree are copied into property symbols and diagnostics, and otherwise left
alone. So binding a tree with other places gives the same model with other places,
whatever the places are. `Bind.Moves` states this of an action of binding.
-/

namespace SettingsLint

open Placed (relocate)

/-! ## Models with other places -/

/-- The attribute with another place. -/
def AppliedAttribute.relocate (g : Place → Span) (a : AppliedAttribute) : AppliedAttribute :=
  { a with span := g (.node a.span) }

def PropertySymbol.relocate (g : Place → Span) (p : PropertySymbol) : PropertySymbol :=
  { p with
    nameSpan := g (.property p.name p.nameSpan)
    span := g (.node p.span)
    attributes := p.attributes.map (·.relocate g) }

abbrev TypeTable.relocate (g : Place → Span) (t : TypeTable) : TypeTable :=
  t.mapProperties (·.relocate g)

/-- The diagnostic about a node, with another place. -/
def Diagnostic.atNode (g : Place → Span) (d : Diagnostic) : Diagnostic :=
  { d with span := g (.node d.span) }

def UsingScope.relocate (g : Place → Span) (scope : UsingScope) : UsingScope :=
  { scope with usings := Placed.relocate g scope.usings }

def Context.relocate (g : Place → Span) (context : Context) : Context :=
  { context with scopes := context.scopes.map (·.relocate g) }

def BindState.relocate (g : Place → Span) (s : BindState) : BindState :=
  ⟨s.table.relocate g, s.diagnostics.map (·.atNode g)⟩

/-! ## Actions -/

namespace Bind

/-- The action `x'` does with other places what `x` does; its result is changed by `φ`. -/
def Moves (g : Place → Span) (φ : α → α) (x x' : Bind α) : Prop :=
  ∀ s : BindState, x' (s.relocate g) = (φ (x s).1, (x s).2.relocate g)

namespace Moves

variable {g : Place → Span}

theorem pure (φ : α → α) (a : α) : Moves g φ (pure a) (pure (φ a)) := fun _ => rfl

theorem bind {φ : α → α} {ψ : β → β} {x x' : Bind α} {next next' : α → Bind β}
    (h : Moves g φ x x') (hnext : ∀ a, Moves g ψ (next a) (next' (φ a))) :
    Moves g ψ (x >>= next) (x' >>= next') := by
  intro s
  show next' (x' (s.relocate g)).1 (x' (s.relocate g)).2 = _
  rw [h s]
  exact hnext _ _

theorem table_bind {φ : α → α} {next next' : TypeTable → Bind α}
    (h : ∀ t, Moves g φ (next t) (next' (t.relocate g))) :
    Moves g φ (table >>= next) (table >>= next') :=
  fun s => h s.table s

theorem onTable {f : TypeTable → α × TypeTable}
    (h : ∀ t, f (t.relocate g) = Prod.map id (·.relocate g) (f t)) :
    Moves g id (onTable f) (onTable f) := by
  intro s
  show ((f (s.table.relocate g)).1, BindState.mk (f (s.table.relocate g)).2 _) = _
  rw [h]
  rfl

theorem changeTable {f f' : TypeTable → TypeTable}
    (h : ∀ t, f' (t.relocate g) = (f t).relocate g) :
    Moves g id (changeTable f) (changeTable f') := by
  intro s
  show ((), BindState.mk (f' (s.table.relocate g)) _) = _
  rw [h]
  rfl

theorem report (id message : String) (span : Span) :
    Moves g (fun a => a) (report id message span) (report id message (g (.node span))) := by
  intro s
  show ((), BindState.mk _ (_ ++ _)) = ((), BindState.mk _ (List.map _ (_ ++ _)))
  rw [List.map_append]
  rfl

theorem mapM {φ : α → α} {ψ : β → β} {k k' : α → Bind β} (as : List α)
    (h : ∀ a, Moves g ψ (k a) (k' (φ a))) :
    Moves g (List.map ψ) (as.mapM k) ((as.map φ).mapM k') := by
  induction as with
  | nil => exact pure _ []
  | cons a as ih =>
    rw [List.map_cons, List.mapM_cons, List.mapM_cons]
    exact (h a).bind fun b => ih.bind fun bs => pure (List.map ψ) (b :: bs)

theorem forM {φ : α → α} {k k' : α → Bind Unit} (as : List α)
    (h : ∀ a, Moves g id (k a) (k' (φ a))) :
    Moves g id (as.forM k) ((as.map φ).forM k') := by
  induction as with
  | nil => exact pure id ()
  | cons a as ih => exact (h a).bind fun _ => ih

theorem ite {φ : α → α} {x x' y y' : Bind α} (p : Prop) [Decidable p] (hx : Moves g φ x x')
    (hy : Moves g φ y y') : Moves g φ (if p then x else y) (if p then x' else y') := by
  split
  · exact hx
  · exact hy

end Moves

end Bind

/-! ## Scopes -/

section

variable (g : Place → Span)

@[simp] theorem names_relocate (segments : List NameSegment) :
    (relocate g segments).map (·.name.name) = segments.map (·.name.name) := by
  rw [relocate_list, List.map_map]
  refine List.map_congr_left fun segment _ => ?_
  cases segment
  rfl

namespace TypeTable

variable (f : PropertySymbol → PropertySymbol) (t : TypeTable)

@[simp] theorem foundIn_mapProperties (namespaceName name : String) (arity : Nat) :
    (t.mapProperties f).foundIn namespaceName name arity = t.foundIn namespaceName name arity := by
  rw [foundIn, lookupIn_mapProperties]
  rfl

@[simp] theorem foundInType_mapProperties (outer : TypeId) (name : String) (arity : Nat) :
    (t.mapProperties f).foundInType outer name arity = t.foundInType outer name arity := by
  simp only [foundInType, typeParameters_mapProperties, name_mapProperties,
    lookupNested_mapProperties]

@[simp] theorem foundKeyword_mapProperties (word : String) :
    (t.mapProperties f).foundKeyword word = t.foundKeyword word := rfl

end TypeTable

@[simp] theorem dottedText_relocate (segments : List NameSegment) :
    dottedText (relocate g segments) = dottedText segments := by
  rw [dottedText, dottedText, names_relocate]

theorem relocate_attribute (a : Attribute) : relocate g a =
    ⟨(relocate g a.name).withSpan (g (.node a.name.span)), relocate g a.arguments,
      g (.node a.span)⟩ := rfl

theorem span_name_relocate (a : Attribute) : (relocate g a).name.span = g (.node a.name.span) := by
  rw [relocate_attribute]
  cases relocate g a.name <;> rfl

@[simp] theorem simpleName_relocate (a : Attribute) : (relocate g a).simpleName = a.simpleName := by
  have hspan (type : TypeExpr) (span : Span) : (type.withSpan span).simpleName? = type.simpleName? := by
    cases type <;> rfl
  rw [Attribute.simpleName, relocate_attribute]
  simp only [hspan, simpleName?_relocate]
  rfl

theorem writtenArguments_relocate (a : Attribute) :
    (relocate g a).writtenArguments = relocate g a.writtenArguments := by
  obtain ⟨name, arguments, span⟩ := a
  cases arguments <;> rfl

theorem applied_relocate (a : Attribute) (cls : Option TypeId) (constructors : List Signature)
    (values : List Constant) :
    (relocate g a).applied cls constructors values
      = (a.applied cls constructors values).relocate g := by
  have hplaced (argument : Argument) (value : Constant) :
      (relocate g argument).placed? value = argument.placed? value := by
    obtain ⟨name, _, _⟩ := argument
    cases name <;> rfl
  have hnamed (argument : Argument) (value : Constant) :
      (relocate g argument).named? value = argument.named? value := by
    obtain ⟨name, _, _⟩ := argument
    cases name <;> rfl
  simp only [Attribute.applied, simpleName_relocate, writtenArguments_relocate, relocate_list,
    List.zip_map_left, List.filterMap_map, Function.comp_def, Prod.map_fst, hplaced,
    hnamed]
  rfl

theorem appliesToProperty_relocate (list : AttributeList) :
    (relocate g list).appliesToProperty = list.appliesToProperty := by
  obtain ⟨target, attributes, span⟩ := list
  cases target <;> rfl

theorem ownAttributes_relocate (p : Property) :
    (relocate g p).ownAttributes = p.ownAttributes.map (relocate g) := by
  show ((p.attributes.map (relocate g)).filter (·.appliesToProperty)).flatMap (·.attributes) = _
  rw [Property.ownAttributes, List.filter_map, List.flatMap_map, List.map_flatMap]
  simp only [Function.comp_def, appliesToProperty_relocate]
  rfl

theorem isStatic_relocate (c : Constructor) : (relocate g c).isStatic = c.isStatic := List.any_map

theorem relocate_usingDirective (u : UsingDirective) : relocate g u =
    ⟨u.isGlobal, relocate g u.kind, relocate g u.target, g (.node u.span)⟩ := rfl

theorem findAlias_relocate (usings : List UsingDirective) (name : String) :
    findAlias (relocate g usings) name = (findAlias usings name).map (relocate g) := by
  rw [findAlias, findAlias, relocate_list, List.findSome?_map, List.map_findSome?]
  congr 1
  funext directive
  obtain ⟨isGlobal, kind, target, span⟩ := directive
  cases kind with
  | ofAlias ident =>
    show (if ident.name = name then _ else _) = Option.map _ (if ident.name = name then _ else _)
    split <;> rfl
  | _ => rfl

theorem findImported_relocate (f : PropertySymbol → PropertySymbol) (t : TypeTable)
    (usings : List UsingDirective) (name : String) (arity : Nat) :
    findImported (t.mapProperties f) (relocate g usings) name arity
      = findImported t usings name arity := by
  rw [findImported, relocate_list, List.findSome?_map]
  congr 1
  funext directive
  obtain ⟨isGlobal, kind, target, span⟩ := directive
  cases kind with
  | ofNamespace =>
    cases target with
    | named isGlobal segments span =>
      have hkind : relocate g UsingKind.ofNamespace = .ofNamespace := rfl
      simp only [Function.comp, relocate_usingDirective, relocate_named, hkind, dottedText_relocate,
        TypeTable.lookupIn_mapProperties]
    | _ => rfl
  | _ => rfl

@[simp] theorem dottedName_relocate (header : NamespaceHeader) :
    (relocate g header).dottedName = header.dottedName := by
  show ".".intercalate ((header.name.map (relocate g)).map (·.name)) = _
  rw [List.map_map]
  rfl

end

/-- What the alias targets stand for does not depend on their places. -/
abbrev ResolveAlias.Moves (g : Place → Span) (resolveAlias : ResolveAlias) : Prop :=
  ∀ target, Bind.Moves g id (resolveAlias target) (resolveAlias (relocate g target))

namespace Bind

variable {g : Place → Span} {resolveAlias : ResolveAlias}

theorem moves_foundInUsings (h : resolveAlias.Moves g) (usings : List UsingDirective) (name : String)
    (arity : Nat) : Moves g id (foundInUsings resolveAlias usings name arity)
      (foundInUsings resolveAlias (relocate g usings) name arity) := by
  have halias : (if arity = 0 then findAlias (relocate g usings) name else none)
      = (if arity = 0 then findAlias usings name else none).map (relocate g) := by
    split
    · exact findAlias_relocate g usings name
    · rfl
  rw [foundInUsings, foundInUsings, halias]
  cases if arity = 0 then findAlias usings name else none with
  | some target => exact h target
  | none =>
    refine .table_bind fun t => ?_
    rw [findImported_relocate]
    exact .pure id _

theorem moves_foundInScopes (h : resolveAlias.Moves g) (name : String) (arity : Nat)
    (scopes : List UsingScope) : Moves g id (foundInScopes resolveAlias name arity scopes)
      (foundInScopes resolveAlias name arity (scopes.map (·.relocate g))) := by
  induction scopes with
  | nil => exact .pure id _
  | cons scope scopes ih =>
    refine (moves_foundInUsings h scope.usings name arity).bind fun found => ?_
    cases found with
    | some found => exact .pure id _
    | none => exact ih

theorem moves_foundInNamespaces (h : resolveAlias.Moves g) (scopes : List UsingScope)
    (name : String) (arity : Nat) (namespaces : List String) :
    Moves g id (foundInNamespaces resolveAlias scopes name arity namespaces)
      (foundInNamespaces resolveAlias (scopes.map (·.relocate g)) name arity namespaces) := by
  induction namespaces with
  | nil => exact .pure id _
  | cons namespaceName outer ih =>
    refine .table_bind fun t => ?_
    rw [TypeTable.foundIn_mapProperties]
    split
    · exact .pure id _
    · rw [List.filter_map]
      refine (moves_foundInScopes h name arity _).bind fun found => ?_
      cases found with
      | some found => exact .pure id _
      | none => exact ih

theorem moves_foundFirst (h : resolveAlias.Moves g) (context : Context) (name : String)
    (arity : Nat) : Moves g id (foundFirst resolveAlias context name arity)
      (foundFirst resolveAlias (context.relocate g) name arity) := by
  refine .table_bind fun t => ?_
  simp only [TypeTable.foundKeyword_mapProperties, TypeTable.foundInType_mapProperties]
  split
  · exact .pure id _
  · have henclosing : (context.relocate g).enclosing = context.enclosing := rfl
    rw [henclosing]
    split
    · exact .pure id _
    · exact moves_foundInNamespaces h context.scopes name arity _

theorem moves_foundInside (outer : Found) (name : String) (arity : Nat) :
    Moves g id (foundInside outer name arity) (foundInside outer name arity) := by
  refine .table_bind fun t => ?_
  cases outer with
  | inNamespace namespaceName =>
    simp only [TypeTable.foundIn_mapProperties]
    exact .pure id _
  | type id =>
    simp only [TypeTable.lookupNested_mapProperties, TypeTable.constructedFrom_mapProperties]
    exact .pure (fun a => a) _

theorem moves_withArguments (found : Found) (arguments : List TypeId) :
    Moves g id (withArguments found arguments) (withArguments found arguments) := by
  cases found with
  | inNamespace name => exact .pure id _
  | type definition =>
    refine Moves.bind (.onTable fun t => ?_) fun id => .pure (fun a => a) _
    exact TypeTable.construct_mapProperties _ t definition arguments 0

theorem moves_lookupInside (outer : Found) (segments : List (String × List TypeId)) :
    Moves g id (lookupInside outer segments) (lookupInside outer segments) := by
  induction segments generalizing outer with
  | nil => exact .pure id _
  | cons segment segments ih =>
    obtain ⟨name, arguments⟩ := segment
    refine (moves_foundInside outer name arguments.length).bind fun found => ?_
    cases found with
    | none => exact .pure id _
    | some found => exact (moves_withArguments found arguments).bind ih

theorem moves_lookup (h : resolveAlias.Moves g) (context : Context) (isGlobal : Bool)
    (segments : List (String × List TypeId)) :
    Moves g id (lookup resolveAlias context isGlobal segments)
      (lookup resolveAlias (context.relocate g) isGlobal segments) := by
  cases segments with
  | nil => exact .pure id _
  | cons segment segments =>
    obtain ⟨name, arguments⟩ := segment
    have hrest (first : Option Found) : Moves g id (lookupFrom arguments segments first)
        (lookupFrom arguments segments first) := by
      cases first with
      | none => exact .pure id _
      | some found => exact (moves_withArguments found arguments).bind fun outer =>
          moves_lookupInside outer segments
    refine .ite _ (.table_bind fun t => ?_) ((moves_foundFirst h context name _).bind hrest)
    rw [TypeTable.foundIn_mapProperties]
    exact (Moves.pure id _).bind hrest

/-! ## Types -/

theorem moves_error (name : String) : Moves g id (onTable (·.error name)) (onTable (·.error name)) :=
  .onTable fun t => TypeTable.error_mapProperties _ t name

theorem moves_namedType (h : resolveAlias.Moves g) (context : Context) (isGlobal : Bool)
    (segments : List NameSegment) (span : Span) (arguments : List (List TypeId)) :
    Moves g id (namedType resolveAlias context isGlobal segments span arguments)
      (namedType resolveAlias (context.relocate g) isGlobal (relocate g segments) (g (.node span))
        arguments) := by
  rw [namedType, namedType, dottedText_relocate, names_relocate]
  refine .table_bind fun t => ?_
  simp only [TypeTable.kind_mapProperties]
  refine .ite _ (moves_error _) ((moves_lookup h context isGlobal _).bind fun found => ?_)
  cases found with
  | some id => exact .pure (fun a => a) _
  | none => exact (Moves.report _ _ span).bind fun _ => moves_error _

theorem moves_arrayType (element : TypeId) (rank : Nat) :
    Moves g id (arrayType element rank) (arrayType element rank) := by
  refine .table_bind fun t => ?_
  rw [TypeTable.kind_mapProperties]
  exact .ite _ (.pure id _) (.onTable fun t => TypeTable.array_mapProperties _ t element rank 0)

theorem moves_nullableType (inner : TypeId) :
    Moves g id (nullableType inner) (nullableType inner) := by
  refine .table_bind fun t => ?_
  rw [TypeTable.isValueType_mapProperties, TypeTable.nullableUnderlying_mapProperties]
  exact .ite _ (.onTable fun t => TypeTable.nullable_mapProperties _ t inner) (.pure id _)

mutual

theorem moves_typeWith (h : resolveAlias.Moves g) (context : Context) : (expr : TypeExpr) →
    Moves g id (typeWith resolveAlias context expr)
      (typeWith resolveAlias (context.relocate g) (relocate g expr))
  | .named isGlobal segments span => by
    rw [relocate_named]
    exact (moves_argumentsWith h context segments).bind fun arguments =>
      moves_namedType h context isGlobal segments span arguments
  | .array element rank span => by
    exact (moves_typeWith h context element).bind fun element => moves_arrayType element rank
  | .nullable inner span => by
    exact (moves_typeWith h context inner).bind moves_nullableType
  | .unsupported span => by
    exact moves_error _

theorem moves_argumentsWith (h : resolveAlias.Moves g) (context : Context) :
    (segments : List NameSegment) → Moves g id (argumentsWith resolveAlias context segments)
      (argumentsWith resolveAlias (context.relocate g) (relocate g segments))
  | [] => .pure id _
  | .mk name arguments :: segments => by
    rw [relocate_cons, relocate_segment]
    exact (moves_typesWith h context arguments).bind fun ids =>
      (moves_argumentsWith h context segments).bind fun rest => .pure id (ids :: rest)

theorem moves_typesWith (h : resolveAlias.Moves g) (context : Context) :
    (exprs : List TypeExpr) → Moves g id (typesWith resolveAlias context exprs)
      (typesWith resolveAlias (context.relocate g) (relocate g exprs))
  | [] => .pure id _
  | expr :: exprs => by
    exact (moves_typeWith h context expr).bind fun type =>
      (moves_typesWith h context exprs).bind fun rest => .pure id (type :: rest)

end

theorem moves_aliasTarget : ResolveAlias.Moves g aliasTarget := by
  intro target
  cases target with
  | named isGlobal segments span =>
    have hnone : ResolveAlias.Moves g fun _ => return none := fun _ => .pure id _
    have hall : (relocate g segments).all (·.arguments.isEmpty)
        = segments.all (·.arguments.isEmpty) := by
      rw [relocate_list, List.all_map]
      congr 1
      funext segment
      obtain ⟨name, arguments⟩ := segment
      rw [Function.comp, relocate_segment]
      exact List.isEmpty_map
    rw [relocate_named, aliasTarget, aliasTarget, dottedText_relocate, names_relocate, hall]
    refine .table_bind fun t => ?_
    refine .ite _ (.pure id _) ((moves_argumentsWith hnone {} segments).bind fun arguments => ?_)
    exact (moves_lookup hnone {} isGlobal _).bind fun found => .pure id _
  | _ => exact .pure id _

theorem moves_type (context : Context) (expr : TypeExpr) :
    Moves g id (type context expr) (type (context.relocate g) (relocate g expr)) :=
  moves_typeWith moves_aliasTarget context expr

/-! ## Attributes -/

theorem moves_constant (context : Context) (value : Expr) :
    Moves g id (constant context value) (constant (context.relocate g) (relocate g value)) := by
  cases value with
  | typeOf expr span =>
    refine (moves_type context expr).bind fun id => .table_bind fun t => ?_
    rw [TypeTable.kind_mapProperties]
    exact .ite _ (.pure (fun a => a) _) (.pure (fun a => a) _)
  | literal kind text span => exact .pure id _
  | other span => exact .pure id _

theorem moves_attributeClass (context : Context) (a : Attribute) :
    Moves g id (attributeClass context a) (attributeClass (context.relocate g) (relocate g a)) := by
  rw [attributeClass, attributeClass, simpleName_relocate]
  obtain ⟨name, arguments, span⟩ := a
  cases name with
  | named isGlobal segments span =>
    simp only [relocate_attribute, relocate_named, TypeExpr.withSpan, names_relocate]
    refine (moves_argumentsWith moves_aliasTarget context segments).bind fun arguments => ?_
    refine (moves_lookup moves_aliasTarget context isGlobal _).bind fun found => ?_
    cases found with
    | some id => exact .pure (fun a => a) _
    | none => exact moves_lookup moves_aliasTarget context isGlobal _
  | _ => exact .pure id _

theorem moves_appliedAttribute (context : Context) (a : Attribute) :
    Moves g (·.relocate g) (appliedAttribute context a)
      (appliedAttribute (context.relocate g) (relocate g a)) := by
  rw [appliedAttribute, appliedAttribute, simpleName_relocate, writtenArguments_relocate]
  refine (moves_attributeClass context a).bind fun cls => ?_
  have hrest : Moves g (·.relocate g)
      (do
        let values ← a.writtenArguments.mapM fun argument => constant context argument.value
        let t ← table
        return a.applied cls ((cls.map t.constructors).getD []) values)
      (do
        let values ← (relocate g a.writtenArguments).mapM fun argument =>
          constant (context.relocate g) argument.value
        let t ← table
        return (relocate g a).applied cls ((cls.map t.constructors).getD []) values) := by
    refine Moves.bind (.mapM a.writtenArguments fun argument => moves_constant context argument.value)
      fun values => .table_bind fun t => ?_
    rw [List.map_id, applied_relocate, funext (TypeTable.constructors_mapProperties _ t)]
    exact .pure _ _
  have hreport := Moves.report Diagnostic.unresolvedAttributeId
    ("the attribute `" ++ a.simpleName ++ "` could not be found") a.name.span (g := g)
  rw [← span_name_relocate g a] at hreport
  exact .ite _ (hreport.bind fun _ => hrest) hrest

end Bind

/-! ## Declaring -/

def Declared.relocate (g : Place → Span) (d : Declared) : Declared :=
  ⟨d.id, Placed.relocate g d.declaration, d.context.relocate g⟩

def DeclareState.relocate (g : Place → Span) (s : DeclareState) : DeclareState :=
  { s with table := s.table.relocate g, declared := s.declared.map (·.relocate g) }

namespace DeclareState

variable (g : Place → Span)

theorem enter_relocate (s : DeclareState) (context : Context) (containing : Option TypeId)
    (header : DeclarationHeader) :
    (s.relocate g).enter (context.relocate g) containing (Placed.relocate g header)
      = Prod.map id (·.relocate g) (s.enter context containing header) := by
  have hlength : (Placed.relocate g header).typeParameters.length = header.typeParameters.length :=
    List.length_map _
  have hnames : (Placed.relocate g header).typeParameters.map (·.name)
      = header.typeParameters.map (·.name) := List.map_map
  simp only [enter, DeclareState.relocate, Context.relocate, hlength, hnames, TypeTable.lookupNested_mapProperties, TypeTable.lookupIn_mapProperties,
    TypeTable.declare_mapProperties]
  generalize Option.filter _ _ = known
  cases known <;> rfl

mutual

theorem declareType_relocate (s : DeclareState) (context : Context) (containing : Option TypeId) :
    (declaration : TypeDeclaration) →
    (s.relocate g).declareType (context.relocate g) containing (Placed.relocate g declaration)
      = (s.declareType context containing declaration).relocate g
  | .mk header members => by
    rw [relocate_declaration, declareType, declareType, enter_relocate]
    obtain ⟨id, entered⟩ := s.enter context containing header
    let inner : Context := { context with enclosing := id :: context.enclosing }
    have hinner : { context.relocate g with enclosing := id :: (context.relocate g).enclosing }
        = inner.relocate g := rfl
    dsimp only [Prod.map]
    rw [id_eq, hinner, declareNested_relocate entered inner id members]
    simp [DeclareState.relocate, Declared.relocate, inner]

theorem declareNested_relocate (s : DeclareState) (context : Context) (outer : TypeId) :
    (members : List Member) →
    (s.relocate g).declareNested (context.relocate g) outer (Placed.relocate g members)
      = (s.declareNested context outer members).relocate g
  | [] => rfl
  | .nested declaration :: members => by
    rw [declareNested, ← declareNested_relocate _ context outer members,
      ← declareType_relocate s context _ declaration]
    rfl
  | .property _ :: members => declareNested_relocate s context outer members
  | .constructor _ :: members => declareNested_relocate s context outer members
  | .other _ :: members => declareNested_relocate s context outer members

end

mutual

theorem declareMember_relocate (s : DeclareState) (context : Context) : (member : UnitMember) →
    (s.relocate g).declareMember (context.relocate g) (Placed.relocate g member)
      = (s.declareMember context member).relocate g
  | .scope header members => by
    rw [relocate_scope, declareMember, dottedName_relocate]
    exact declareMembers_relocate s ⟨_, ⟨_, header.usings⟩ :: context.scopes, []⟩ members
  | .type declaration => declareType_relocate g s context none declaration

theorem declareMembers_relocate (s : DeclareState) (context : Context) :
    (members : List UnitMember) →
    (s.relocate g).declareMembers (context.relocate g) (Placed.relocate g members)
      = (s.declareMembers context members).relocate g
  | [] => rfl
  | member :: members => by
    rw [declareMembers, ← declareMembers_relocate _ context members,
      ← declareMember_relocate s context member]
    rfl

end

theorem declareUnit_relocate (s : DeclareState) (unit : SourceUnit) :
    (s.relocate g).declareUnit (Placed.relocate g unit) = (s.declareUnit unit).relocate g :=
  declareMembers_relocate g s ⟨"", [⟨"", unit.usings⟩], []⟩ unit.members

end DeclareState

/-! ## Members -/

namespace Bind

variable {g : Place → Span}

theorem header_relocate (d : Declared) :
    (d.relocate g).declaration.header = relocate g d.declaration.header := by
  obtain ⟨id, ⟨header, members⟩, context⟩ := d
  rfl

theorem moves_baseType (d : Declared) (isFirst : Bool) (expr : TypeExpr) :
    Moves g id (baseType d isFirst expr) (baseType (d.relocate g) isFirst (relocate g expr)) := by
  rw [baseType, baseType, header_relocate]
  refine (moves_type d.context expr).bind fun id => .table_bind fun t => ?_
  rw [TypeTable.kind_mapProperties]
  refine .ite _ (.changeTable fun t => ?_) (.ite _ (.changeTable fun t => ?_) (.pure (fun a => a) ()))
  · exact TypeTable.addInterface_mapProperties _ t d.id id
  · exact TypeTable.setBase_mapProperties _ t d.id id

@[simp] theorem defaultBase_mapProperties (f : PropertySymbol → PropertySymbol) (t : TypeTable)
    (kind : TypeKind) : defaultBase (t.mapProperties f) kind = defaultBase t kind := by
  cases kind <;> simp [defaultBase]

theorem moves_setDefaultBase (d : Declared) :
    Moves g id (setDefaultBase d) (setDefaultBase (d.relocate g)) := by
  have hkind : (relocate g d.declaration.header).kind = d.declaration.header.kind := rfl
  rw [setDefaultBase, setDefaultBase, header_relocate, hkind]
  refine .table_bind fun t => ?_
  rw [TypeTable.base_mapProperties, defaultBase_mapProperties]
  refine .ite _ ?_ (.pure id ())
  split
  · exact .changeTable fun t => TypeTable.setBase_mapProperties _ t d.id _
  · exact .pure id ()

theorem moves_baseTypes (d : Declared) : Moves g id (baseTypes d) (baseTypes (d.relocate g)) := by
  have hbases : (relocate g d.declaration.header).bases.zipIdx
      = d.declaration.header.bases.zipIdx.map (Prod.map (relocate g) id) := List.zipIdx_map
  rw [baseTypes, baseTypes, header_relocate, hbases]
  refine .ite _ (Moves.bind (.forM _ fun p => ?_) fun _ => moves_setDefaultBase d)
    (moves_setDefaultBase d)
  exact moves_baseType d (p.2 = 0) p.1

theorem moves_parameters (context : Context) (list : List Parameter) :
    Moves g id (parameters context list) (parameters (context.relocate g) (relocate g list)) := by
  rw [← List.map_id_fun]
  exact .mapM list fun p => (moves_type context p.type).bind fun _ => .pure id _

theorem moves_constructor (d : Declared) (list : List Parameter) :
    Moves g id (constructor d list) (constructor (d.relocate g) (relocate g list)) := by
  refine (moves_parameters d.context list).bind fun symbols => .changeTable fun t => ?_
  exact TypeTable.addConstructor_mapProperties _ t d.id symbols

theorem moves_property (context : Context) (p : Property) :
    Moves g (·.relocate g) (property context p) (property (context.relocate g) (relocate g p)) := by
  rw [property, property, ownAttributes_relocate]
  refine (moves_type context p.type).bind fun id => ?_
  exact (Moves.mapM _ (moves_appliedAttribute context)).bind fun attributes => .pure _ _

theorem moves_member (d : Declared) (m : Member) :
    Moves g id (member d m) (member (d.relocate g) (relocate g m)) := by
  cases m with
  | property p =>
    refine (moves_property d.context p).bind fun symbol => .changeTable fun t => ?_
    exact TypeTable.addProperty_mapProperties _ t d.id symbol
  | constructor c =>
    have hmember : relocate g (Member.constructor c) = .constructor (relocate g c) := rfl
    have hstatic : (relocate g c).isStatic = c.isStatic := isStatic_relocate g c
    rw [hmember, member, member, hstatic]
    exact .ite _ (.pure id ()) (moves_constructor d c.parameters)
  | nested declaration => exact .pure id ()
  | other span => exact .pure id ()

theorem hasConstructor_relocate (d : TypeDeclaration) :
    hasConstructor (relocate g d) = hasConstructor d := by
  obtain ⟨header, members⟩ := d
  have hprimary : (relocate g header).primaryParameters.isSome = header.primaryParameters.isSome :=
    Option.isSome_map
  rw [relocate_declaration, hasConstructor]
  refine congr (congrArg or hprimary) ?_
  show (members.map (relocate g)).any _ = members.any _
  rw [List.any_map]
  congr 1
  funext m
  cases m with
  | constructor c => exact congrArg not (isStatic_relocate g c)
  | _ => rfl

theorem moves_implicitConstructor (d : Declared) :
    Moves g id (implicitConstructor d) (implicitConstructor (d.relocate g)) := by
  have hconstructor : hasConstructor (d.relocate g).declaration = hasConstructor d.declaration :=
    hasConstructor_relocate d.declaration
  rw [implicitConstructor, implicitConstructor, header_relocate, hconstructor]
  refine .table_bind fun t => ?_
  rw [TypeTable.constructors_mapProperties]
  exact .ite _ (.changeTable fun t => TypeTable.addConstructor_mapProperties _ t d.id [])
    (.pure id ())

theorem moves_members (d : Declared) : Moves g id (members d) (members (d.relocate g)) := by
  have hmembers : (d.relocate g).declaration.members = d.declaration.members.map (relocate g) := by
    obtain ⟨id, ⟨header, members⟩, context⟩ := d
    rw [Declared.relocate, relocate_declaration]
    rfl
  have hprimary : (relocate g d.declaration.header).primaryParameters
      = d.declaration.header.primaryParameters.map (relocate g) := rfl
  have hrest : Moves g id (d.declaration.members.forM (member d) >>= fun _ => implicitConstructor d)
      ((d.declaration.members.map (relocate g)).forM (member (d.relocate g)) >>= fun _ =>
        implicitConstructor (d.relocate g)) :=
    (Moves.forM _ (moves_member d)).bind fun _ => moves_implicitConstructor d
  rw [members, members, header_relocate, hmembers, hprimary]
  cases d.declaration.header.primaryParameters with
  | none => exact hrest
  | some list => exact (moves_constructor d list).bind fun _ => hrest

theorem moves_declaration (d : Declared) :
    Moves g id (declaration d) (declaration (d.relocate g)) :=
  (moves_baseTypes d).bind fun _ => moves_members d

end Bind

/-! ## Models -/

def Model.relocate (g : Place → Span) (model : Model) : Model :=
  { model with table := model.table.relocate g, diagnostics := model.diagnostics.map (·.atNode g) }

theorem DeclareState.bound_relocate (g : Place → Span) (s : DeclareState) :
    ((s.relocate g).declared.forM Bind.declaration { table := (s.relocate g).table }).2
      = (s.declared.forM Bind.declaration { table := s.table }).2.relocate g :=
  congrArg Prod.snd (Bind.Moves.forM s.declared Bind.moves_declaration { table := s.table })

theorem Model.ofUnit_relocate (g : Place → Span) (unit : SourceUnit) :
    ofUnit (Placed.relocate g unit) = (ofUnit unit).relocate g := by
  have hstart : DeclareState.relocate g { table := .withLibrary } = { table := .withLibrary } :=
    congrArg (DeclareState.mk · [] []) (TypeTable.mapProperties_withLibrary _)
  have hdeclared := DeclareState.declareUnit_relocate g { table := .withLibrary } unit
  rw [hstart] at hdeclared
  rw [ofUnit, hdeclared]
  simp only [DeclareState.bound_relocate, BindState.relocate, TypeTable.complete_mapProperties]
  rfl

end SettingsLint
