import SettingsLint.Fix.TypeArgument
import SettingsLint.Proofs.Binding.Provenance
import SettingsLint.Proofs.Binding.Relocation
import SettingsLint.Proofs.Reading.PropertySpans

/-! # The types of a model

The types of a model with type arguments have the members of their definitions, with the arguments
in place of the type parameters. A type that is written twice around one property stands for one
type, although the table grows between the two.
-/

namespace SettingsLint

open Placed (erase)

/-! ## Members of types with arguments -/

/-- In the model of a text every type with arguments that is not too deep has the base, the
    interfaces and the constructors of its definition, with its arguments in place of the type
    parameters, all at once and at any depth. -/
theorem Model.derives_members (text : String) (id : TypeId) :
    (ofUnit (Source.parse text).unit).table.Derives id := by
  obtain ⟨t, htable, hbeyond, -⟩ := beyond_ofUnit (Source.parse text).unit
  rw [htable]
  exact (hbeyond.derived TypeTable.derived_withLibrary).derives_complete
    (hbeyond.rested TypeTable.rested_withLibrary) id

/-! ## Types that are written twice -/

mutual

/-- Do the written types differ in their places only? -/
def TypeExpr.alike : TypeExpr → TypeExpr → Bool
  | .named isGlobal segments _, .named isGlobal' segments' _ =>
    isGlobal = isGlobal' && NameSegment.alikeIn segments segments'
  | .array element rank _, .array element' rank' _ => rank = rank' && element.alike element'
  | .nullable inner _, .nullable inner' _ => inner.alike inner'
  | .unsupported _, .unsupported _ => true
  | _, _ => false

/-- Do the segments differ in their places only? -/
def NameSegment.alikeIn : List NameSegment → List NameSegment → Bool
  | [], [] => true
  | .mk name arguments :: segments, .mk name' arguments' :: segments' =>
    name.name = name'.name && TypeExpr.alikeIn arguments arguments' &&
      NameSegment.alikeIn segments segments'
  | _, _ => false

/-- Do the type arguments differ in their places only? -/
def TypeExpr.alikeIn : List TypeExpr → List TypeExpr → Bool
  | [], [] => true
  | type :: types, type' :: types' => type.alike type' && TypeExpr.alikeIn types types'
  | _, _ => false

end

theorem Ident.erase_eq_iff {a b : Ident} : erase a = erase b ↔ a.name = b.name := by
  cases a
  cases b
  simp

mutual

theorem TypeExpr.alike_iff : (a b : TypeExpr) → (a.alike b = true ↔ erase a = erase b)
  | .named isGlobal segments span, b => by
    cases b <;> simp [TypeExpr.alike, NameSegment.alikeIn_iff segments]
  | .array element rank span, b => by
    cases b <;> simp [TypeExpr.alike, TypeExpr.alike_iff element, and_comm]
  | .nullable inner span, b => by
    cases b <;> simp [TypeExpr.alike, TypeExpr.alike_iff inner]
  | .unsupported span, b => by
    cases b <;> simp [TypeExpr.alike]

theorem NameSegment.alikeIn_iff : (as bs : List NameSegment) →
    (NameSegment.alikeIn as bs = true ↔ erase as = erase bs)
  | [], bs => by
    cases bs <;> simp [NameSegment.alikeIn]
  | .mk name arguments :: segments, bs => by
    cases bs with
    | nil => simp [NameSegment.alikeIn]
    | cons b bs =>
      obtain ⟨name', arguments'⟩ := b
      simp [NameSegment.alikeIn, TypeExpr.alikeIn_iff arguments, NameSegment.alikeIn_iff segments,
        ← Ident.erase_eq_iff]

theorem TypeExpr.alikeIn_iff : (as bs : List TypeExpr) →
    (TypeExpr.alikeIn as bs = true ↔ erase as = erase bs)
  | [], bs => by
    cases bs <;> simp [TypeExpr.alikeIn]
  | type :: types, bs => by
    cases bs <;> simp [TypeExpr.alikeIn, TypeExpr.alike_iff type, TypeExpr.alikeIn_iff types]

end

namespace Bind

theorem admits_regular : Admits TypeTable.Regular where
  regular h := h
  intern h hbuilt hproper hparts hgeneric := h.intern hbuilt hproper hparts hgeneric 0

/-- The places in a written type do not matter for what it stands for. -/
theorem type_congr (context : Context) {a b : TypeExpr} (h : a.alike b = true)
    (s : BindState) : (type context a s).1 = (type context b s).1 := by
  have ha := congrArg Prod.fst (moves_type (g := fun _ => default) context a s)
  have hb := congrArg Prod.fst (moves_type (g := fun _ => default) context b s)
  have herase := (TypeExpr.alike_iff a b).mp h
  exact ha.symm.trans ((congrArg (fun e => (type _ e _).1) herase).trans hb)

variable {s : BindState} {context : Context} {expr : TypeExpr}

/-- A written `typeof` has the type as its value, unless the type is an error. -/
theorem constant_typeOf (h : s.table.Regular) (hkind : s.table.kind (type context expr s).1 ≠ .error)
    (hhas : s.table.Has (type context expr s).1) (span : Span) :
    (constant context (.typeOf expr span) s).1 = .type (type context expr s).1 := by
  have hgrowth := (settles_type admits_regular context expr h).growth
  have hlater := TypeTable.Keeps.kind_eq (.of_extends hgrowth) hhas
  have hrun : constant context (.typeOf expr span) s
      = (if (type context expr s).2.table.kind (type context expr s).1 = .error then pure .unknown
        else pure (.type (type context expr s).1) : Bind Constant) (type context expr s).2 := rfl
  rw [hrun, if_neg (hlater ▸ hkind)]
  rfl

/-- What is made nullable is a value type afterwards, or is not made nullable at all. -/
theorem nullableType_eq {inner : TypeId} (h : s.table.Regular) (hinner : s.table.Has inner) :
    (nullableType inner s).1 = inner ∨ ∃ definition,
      s.table.lookup TypeTable.nullableName = some definition ∧
        (nullableType inner s).2.table.shape (nullableType inner s).1 = .constructed definition [inner] := by
  have hrun : nullableType inner s = (if s.table.isValueType inner &&
      (s.table.nullableUnderlying inner).isNone then onTable (·.nullable inner)
      else pure inner : Bind TypeId) s := rfl
  rw [hrun]
  split
  · show (s.table.nullable inner).1 = inner ∨ ∃ definition, _ ∧
      (s.table.nullable inner).2.shape (s.table.nullable inner).1 = _
    rw [TypeTable.nullable]
    cases hlookup : s.table.lookup TypeTable.nullableName with
    | none => exact .inl rfl
    | some definition =>
      have hparts : ∀ p ∈ (Shape.constructed definition [inner]).parts, s.table.Has p :=
        List.forall_mem_cons.2 ⟨TypeTable.index_lt_of_lookup hlookup,
          fun p hp => List.mem_singleton.1 hp ▸ hinner⟩
      exact .inr ⟨definition, rfl, (h.toSound.interned hparts rfl rfl 0).shape_eq⟩
  · exact .inl rfl

/-- Without the question mark a written type stands for the same type if it does not stand for a
    value type, as long as nullable types are value types. -/
theorem type_typeToName (h : s.table.Regular)
    (hvalue : s.table.isValueType (type context expr s).1 = false)
    (hhas : s.table.Has (type context expr s).1)
    (hnullable : ∀ definition, s.table.lookup TypeTable.nullableName = some definition →
      s.table.isValueType definition = true) :
    (type context (TypeArgumentFix.typeToName true expr) s).1 = (type context expr s).1 := by
  cases expr with
  | nullable inner span =>
    have hinner := settles_type admits_regular context inner h
    have hwhole := settles_type admits_regular context (.nullable inner span) h
    have hrun : type context (.nullable inner span) s
        = nullableType (type context inner s).1 (type context inner s).2 := by
      rfl
    rcases nullableType_eq hinner.inv hinner.value with hsame | ⟨definition, hlookup, hshape⟩
    · rw [hrun]
      exact hsame.symm
    · -- The definition of nullable types is older than the type, and of the same kind.
      rw [← hrun, hwhole.growth.shape_eq hhas] at hshape
      rw [hinner.growth.lookup_eq] at hlookup
      have holder : definition.index < (type context (.nullable inner span) s).1.index := by
        apply h.older
        rw [hshape]
        exact List.mem_cons_self
      have hkind : s.table.kind (type context (.nullable inner span) s).1 = s.table.kind definition := by
        rw [TypeTable.kind, hshape]
        exact if_pos holder
      rw [TypeTable.isValueType, hkind] at hvalue
      exact absurd (hvalue.symm.trans (hnullable definition hlookup)) Bool.false_ne_true
  | _ => rfl

end Bind

/-- Is the argument a `typeof` of the written type? -/
def Argument.isTypeOf (argument : Argument) (type : TypeExpr) : Bool :=
  match argument.value with
  | .typeOf expr _ => expr.alike type
  | _ => false

theorem Argument.value_of_isTypeOf {argument : Argument} {type : TypeExpr}
    (h : argument.isTypeOf type = true) :
    ∃ expr span, argument.value = .typeOf expr span ∧ expr.alike type = true := by
  rw [isTypeOf] at h
  split at h
  · exact ⟨_, _, ‹_›, h⟩
  · cases h

/-- The value is the declared type if the argument is a `typeof` of the written type of the
    property, or of that without a question mark unless it is a value type. -/
def Argument.NamesDeclaredType (t : TypeTable) (p : Property) (type : TypeId) (argument : Argument)
    (value : Constant) : Prop :=
  argument.isTypeOf p.type = true ∨
    (argument.isTypeOf (TypeArgumentFix.typeToName true p.type) = true ∧ t.isValueType type = false ∧
      ∀ definition, t.lookup TypeTable.nullableName = some definition → t.isValueType definition = true) →
  value = .type type

/-- A `typeof` of the written type of a property, in an attribute of the property, has the declared
    type as its value. So has one of the type without the question mark if the declared type is not
    a value type, as long as nullable types are value types. -/
theorem Model.typeOf_declaredType (text : String) {id : TypeId} {symbol : PropertySymbol} {p : Property}
    (hsymbol : symbol ∈ (ofUnit (Source.parse text).unit).table.properties id)
    (hp : p ∈ (Source.parse text).unit.properties) (hname : symbol.nameSpan = p.name.span)
    (hkind : (ofUnit (Source.parse text).unit).table.kind symbol.type ≠ .error) :
    List.Forall₂ (fun a applied => ∃ cls constructors values,
        applied = a.applied cls constructors values ∧ List.Forall₂
          (Argument.NamesDeclaredType (ofUnit (Source.parse text).unit).table p symbol.type)
          a.writtenArguments values)
      p.ownAttributes symbol.attributes := by
  obtain ⟨d, hd, p', hp', s, hregular, -, hstop, rfl⟩ := (boundIn_of_mem hsymbol).source
  -- Properties do not share their names.
  obtain rfl : p' = p := by
    have hlisted : p' ∈ (Source.parse text).unit.properties :=
      List.mem_flatMap.2 ⟨_, DeclareState.mem_declareUnit hd, hp'⟩
    have hfound := Source.propertyAt?_name hlisted
    rw [show p'.name.span = p.name.span from hname, Source.propertyAt?_name hp] at hfound
    exact (Option.some.inj hfound).symm
  obtain ⟨hhas, htype, hattributes⟩ := (Bind.gives_property Bind.admits_regular d.context p' hregular).value
  -- The types are what they are in the table of the model.
  let last : BindState := { table := (ofUnit (Source.parse text).unit).table }
  have hlast : last.table.Regular := regular_ofUnit _
  have hhas := hhas.mono hstop
  have htype := htype last hlast hstop
  rw [← htype] at hkind hhas ⊢
  refine hattributes.imp fun a applied happlied => ?_
  obtain ⟨cls, constructors, values, heq, -, hvalues⟩ := happlied.mono hstop
  refine ⟨cls, constructors, values, heq, hvalues.imp fun argument value hvalue => ?_⟩
  intro hwritten
  obtain ⟨expr, span, hexpr, hsame⟩ : ∃ expr span, argument.value = .typeOf expr span ∧
      (Bind.type d.context expr last).1 = (Bind.type d.context p'.type last).1 := by
    rcases hwritten with hwritten | ⟨hwritten, hvalue, hnullable⟩
    · obtain ⟨expr, span, hexpr, halike⟩ := argument.value_of_isTypeOf hwritten
      exact ⟨expr, span, hexpr, Bind.type_congr d.context halike last⟩
    · obtain ⟨expr, span, hexpr, halike⟩ := argument.value_of_isTypeOf hwritten
      refine ⟨expr, span, hexpr, (Bind.type_congr d.context halike last).trans ?_⟩
      exact Bind.type_typeToName hlast hvalue hhas hnullable
  rw [← hvalue last hlast (.refl _), hexpr, ← hsame]
  rw [← hsame] at hkind hhas
  exact Bind.constant_typeOf hlast hkind hhas span

/-- The type of a property of a model is in its table. -/
theorem Model.has_type {unit : SourceUnit} {id : TypeId} {symbol : PropertySymbol}
    (h : symbol ∈ (ofUnit unit).table.properties id) : (ofUnit unit).table.Has symbol.type := by
  obtain ⟨d, -, p, -, s, hregular, -, hstop, rfl⟩ := (boundIn_of_mem h).source
  exact (Bind.gives_property Bind.admits_regular d.context p hregular).value.1.mono hstop

/-- A source with a text that may be missing. -/
def annotatedText : String :=
  "class C \x7b [A(typeof(string), typeof(int))] string? P \x7b get; \x7d \x7d"

set_option maxRecDepth 100000 in
/-- In the source the first argument of the attribute names the written type without its question
    mark, the declared type is not a value type, and nullable types are. -/
theorem Model.bound_annotatedText :
    ∃ id ∈ (ofUnit (Source.parse annotatedText).unit).types,
      ∃ symbol ∈ (ofUnit (Source.parse annotatedText).unit).table.properties id,
      ∃ p ∈ (Source.parse annotatedText).unit.properties, symbol.nameSpan = p.name.span ∧
        (ofUnit (Source.parse annotatedText).unit).table.kind symbol.type ≠ .error ∧
        p.ownAttributes.map (·.writtenArguments.map
          (·.isTypeOf (TypeArgumentFix.typeToName true p.type))) = [[true, false]] ∧
        (ofUnit (Source.parse annotatedText).unit).table.isValueType symbol.type = false ∧
        ∀ definition ∈ (ofUnit (Source.parse annotatedText).unit).table.lookup TypeTable.nullableName,
          (ofUnit (Source.parse annotatedText).unit).table.isValueType definition = true := by
  decide +kernel

/-- A `typeof` of texts names the type of a text that may be missing. -/
theorem Model.typeOf_declaredType_annotatedText :
    let unit := (Source.parse annotatedText).unit
    let model := ofUnit unit
    ∃ id symbol p, symbol ∈ model.table.properties id ∧ p ∈ unit.properties ∧
      symbol.nameSpan = p.name.span ∧ model.table.kind symbol.type ≠ .error ∧
      ∃ a first second cls constructors value, p.ownAttributes = [a] ∧
        a.writtenArguments = [first, second] ∧
        first.isTypeOf (TypeArgumentFix.typeToName true p.type) = true ∧
        symbol.attributes = [a.applied cls constructors [.type symbol.type, value]] := by
  obtain ⟨id, -, symbol, hsymbol, p, hp, hname, hkind, hwritten, hvalue, hnullable⟩ :=
    bound_annotatedText
  have hall := typeOf_declaredType _ hsymbol hp hname hkind
  refine ⟨id, symbol, p, hsymbol, hp, hname, hkind, ?_⟩
  obtain ⟨a, hattributes, harguments⟩ := List.map_eq_singleton_iff.1 hwritten
  obtain ⟨first, rest, hrest, hfirst, hsecond⟩ := List.map_eq_cons_iff.1 harguments
  obtain ⟨second, rfl, -⟩ := List.map_eq_singleton_iff.1 hsecond
  rw [hattributes] at hall
  obtain ⟨applied, _, ⟨cls, constructors, values, rfl, hvalues⟩, hnone, happlied⟩ :=
    List.forall₂_cons_left_iff.1 hall
  rw [List.forall₂_nil_left_iff.1 hnone] at happlied
  rw [hrest] at hvalues
  obtain ⟨_, _, hnames, hothers, rfl⟩ := List.forall₂_cons_left_iff.1 hvalues
  obtain ⟨value, _, -, hend, rfl⟩ := List.forall₂_cons_left_iff.1 hothers
  rw [hnames (.inr ⟨hfirst, hvalue, hnullable⟩), List.forall₂_nil_left_iff.1 hend] at happlied
  exact ⟨a, first, second, cls, constructors, value, hattributes, hrest, hfirst, happlied⟩

/-- A source with a class in the place of the library's nullable types. -/
def shadowedNullable : String :=
  "namespace System \x7b class Nullable<T> \x7b\x7d \x7d\n" ++
  "class C \x7b [A(typeof(int), typeof(int?))] int? P \x7b get; \x7d \x7d"

set_option maxRecDepth 100000 in
/-- If the source has a class in the place of nullable types, `int?` stands for this class with
    the argument `int`, which is no value type, and `typeof(int)` does not stand for it. -/
theorem Model.typeOf_ne_declaredType_shadowedNullable :
    ∃ id ∈ (ofUnit (Source.parse shadowedNullable).unit).types,
      ∃ symbol ∈ (ofUnit (Source.parse shadowedNullable).unit).table.properties id,
      ∃ p ∈ (Source.parse shadowedNullable).unit.properties, symbol.nameSpan = p.name.span ∧
        (ofUnit (Source.parse shadowedNullable).unit).table.kind symbol.type ≠ .error ∧
        (ofUnit (Source.parse shadowedNullable).unit).table.isValueType symbol.type = false ∧
        p.ownAttributes.map (·.writtenArguments.map
          (·.isTypeOf (TypeArgumentFix.typeToName true p.type))) = [[true, false]] ∧
        symbol.attributes.map (·.arguments.map fun value => decide (value = .type symbol.type))
          = [[false, true]] := by
  decide +kernel

end SettingsLint
