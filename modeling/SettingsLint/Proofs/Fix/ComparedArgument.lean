import SettingsLint.Proofs.Binding.ArgumentOrder
import SettingsLint.Proofs.Rule.Flagged

/-! # The argument that the fix replaces and the one that the rule compares

The fix replaces the first argument that is written like one for the type. The rule takes the
last constructor argument in the order of the parameters, or without constructor arguments the
first one that is set under a name for the type to another value. `Attribute.compared?_eq_some_iff`
says when these are the same.
-/

namespace SettingsLint

open TypeArgumentFix (isTypeArgument isBinding editFor)

/-! ## What the rule compares -/

/-- The place of the argument whose value the rule compares with the declared type: the last
    constructor argument in the order of the parameters, or without constructor arguments the
    first one that is set under a name for the type to another value. -/
def Attribute.compared? (a : Attribute) (constructors : List Signature) (values : List Constant)
    (declared : TypeId) : Option Nat :=
  if a.order constructors = [] then
    (a.writtenArguments.zip values).findIdx? fun pair =>
      isTypeArgument pair.1 && pair.2 ≠ .type declared
  else (a.order constructors).getLast?

section

variable {a : Attribute} {constructors : List Signature} {values : List Constant} {i : Nat}

/-- The last constructor argument is compared. -/
theorem Attribute.problem?_of_order (h : values.length = a.writtenArguments.length)
    (hlast : (a.order constructors).getLast? = some i) (cls : Option TypeId) (declared : TypeId) :
    attributeProblem? declared (a.applied cls constructors values)
      = typeProblem? declared (values.getD i .unknown) := by
  have harguments := a.arguments_applied constructors h cls
  have hne : a.order constructors ≠ [] := by
    intro hnil
    rw [hnil] at hlast
    cases hlast
  have hsome : ((a.order constructors).map (values.getD · .unknown)).isEmpty = false := by
    rw [List.isEmpty_map, List.isEmpty_eq_false_iff]
    exact hne
  rw [attributeProblem?, AppliedAttribute.bindingArguments, harguments, hsome]
  simp only [Bool.false_eq_true, if_false, List.getLastD_eq_getLast?, List.getLast?_map, hlast]
  rfl

/-- The name that an argument is given under. -/
def Argument.givenName (argument : Argument) : String :=
  (argument.name.map (·.name.name)).getD ""

/-- Of arguments that are all set, the ones under a name for the type are those written like one
    for the type. -/
theorem filter_named {pairs : List (Argument × Constant)}
    (h : ∀ p ∈ pairs, p.1.placed? () = none) :
    (pairs.filterMap fun (argument, value) => argument.named? value).filter
        (fun (name, _) => typeArgumentNames.contains name)
      = (pairs.filter (isTypeArgument ·.1)).map fun p => (p.1.givenName, p.2) := by
  induction pairs with
  | nil => rfl
  | cons p pairs ih =>
    obtain ⟨hp, hpairs⟩ := List.forall_mem_cons.1 h
    obtain ⟨⟨name, expr, span⟩, value⟩ := p
    cases name with
    | none => cases hp
    | some name =>
      obtain ⟨ident, mark⟩ := name
      cases mark with
      | colon => cases hp
      | equals =>
        show List.filter _ ((ident.name, value) :: pairs.filterMap _) = _
        rw [List.filter_cons, List.filter_cons, ih hpairs]
        show (if typeArgumentNames.contains ident.name then _ else _)
          = List.map _ (if typeArgumentNames.contains ident.name then _ else _)
        split <;> rfl

/-- The first problem with the arguments for the type is that with the first other value. -/
theorem findSome?_typeProblem? (declared : TypeId) (pairs : List (Argument × Constant)) :
    (pairs.filter (isTypeArgument ·.1)).findSome? (typeProblem? declared ·.2)
      = (pairs.findIdx? fun pair => isTypeArgument pair.1 && pair.2 ≠ .type declared).bind fun i =>
          typeProblem? declared ((pairs.map (·.2)).getD i .unknown) := by
  induction pairs with
  | nil => rfl
  | cons pair pairs ih =>
    have hshift (o : Option Nat) : (o.map (· + 1)).bind (fun i =>
          typeProblem? declared (((pair :: pairs).map (·.2)).getD i .unknown))
        = o.bind fun i => typeProblem? declared ((pairs.map (·.2)).getD i .unknown) := by
      cases o <;> rfl
    rw [List.findIdx?_cons, List.filter_cons]
    cases isTypeArgument pair.1 with
    | false => exact ih.trans (hshift _).symm
    | true =>
      rw [if_pos rfl, List.findSome?_cons]
      by_cases hsame : pair.2 = .type declared
      · rw [(typeProblem?_eq_none_iff ..).2 hsame, ih, ← hshift]
        simp [hsame]
      · obtain ⟨problem, hproblem⟩ := Option.ne_none_iff_exists'.1
          (mt (typeProblem?_eq_none_iff declared pair.2).1 hsame)
        simp [hsame, hproblem]

/-- Without constructor arguments, those written like one for the type are compared. -/
theorem Attribute.problem?_of_order_nil (h : values.length = a.writtenArguments.length)
    (hnil : a.order constructors = []) (cls : Option TypeId) (declared : TypeId) :
    attributeProblem? declared (a.applied cls constructors values)
      = if a.writtenArguments.any isTypeArgument then
          ((a.writtenArguments.zip values).filter (isTypeArgument ·.1)).findSome?
            (typeProblem? declared ·.2)
        else some .missingType := by
  have hset : ∀ p ∈ a.writtenArguments.zip values, p.1.placed? () = none := fun p hp =>
    (a.order_eq_nil_iff constructors).1 hnil p.1 (List.of_mem_zip hp).1
  have harguments : (a.applied cls constructors values).arguments = [] := by
    rw [a.arguments_applied constructors h cls, hnil]
    rfl
  have hnamed : (a.applied cls constructors values).bindingArguments
      = .named (((a.writtenArguments.zip values).filter (isTypeArgument ·.1)).map
          fun p => (p.1.givenName, p.2)) := by
    rw [AppliedAttribute.bindingArguments, harguments]
    exact congrArg BindingArguments.named (filter_named hset)
  have hany : a.writtenArguments.any isTypeArgument
      = (a.writtenArguments.zip values).any (isTypeArgument ·.1) := by
    have hfirst := List.any_map (f := Prod.fst) (l := a.writtenArguments.zip values)
      (p := isTypeArgument)
    rwa [List.map_fst_zip (Nat.le_of_eq h.symm)] at hfirst
  rw [attributeProblem?, hnamed, hany]
  cases hpairs : (a.writtenArguments.zip values).filter (isTypeArgument ·.1) with
  | nil =>
    have hnone := List.any_eq_false.2 (List.filter_eq_nil_iff.1 hpairs)
    rw [hnone]
    rfl
  | cons p pairs =>
    have hp : p ∈ (a.writtenArguments.zip values).filter (isTypeArgument ·.1) :=
      hpairs ▸ List.mem_cons_self
    have hsome := List.any_eq_true.2 ⟨p, List.mem_filter.1 hp⟩
    rw [if_pos hsome]
    show List.findSome? _ (List.map _ (p :: pairs)) = _
    rw [List.findSome?_map]
    rfl

/-- What the rule says about an attribute is what it says about the value that it compares. If it
    compares none, then the type is named or no argument is for it. -/
theorem Attribute.problem?_applied (h : values.length = a.writtenArguments.length)
    (cls : Option TypeId) (declared : TypeId) :
    attributeProblem? declared (a.applied cls constructors values)
      = (a.compared? constructors values declared).elim
          (if a.order constructors = [] ∧ a.writtenArguments.any isTypeArgument = false then
            some .missingType else none)
          fun i => typeProblem? declared (values.getD i .unknown) := by
  rw [compared?]
  split
  · next hnil =>
    rw [problem?_of_order_nil h hnil, findSome?_typeProblem?, List.map_snd_zip (Nat.le_of_eq h)]
    cases hfound : (a.writtenArguments.zip values).findIdx? fun pair =>
      isTypeArgument pair.1 && pair.2 ≠ .type declared with
    | none => cases hany : a.writtenArguments.any isTypeArgument <;> simp [hnil]
    | some i =>
      obtain ⟨hlt, haccepted, -⟩ := List.findIdx?_eq_some_iff_getElem.1 hfound
      have hmem := (List.of_mem_zip (List.getElem_mem hlt)).1
      rw [if_pos (List.any_eq_true.2 ⟨_, hmem, (Bool.and_eq_true_iff.1 haccepted).1⟩)]
      rfl
  · next hne =>
    obtain ⟨i, hlast⟩ := Option.ne_none_iff_exists'.1 (mt List.getLast?_eq_none_iff.1 hne)
    rw [problem?_of_order h hlast, hlast]
    rfl

/-! ## Agreement -/

/-- The argument that the fix replaces is the one that the rule compares if and only if it is the
    last constructor argument in the order of the parameters, or there are no constructor
    arguments and its value is not the declared type. -/
theorem Attribute.compared?_eq_some_iff (h : values.length = a.writtenArguments.length)
    (hi : a.writtenArguments.findIdx? isTypeArgument = some i) (declared : TypeId) :
    a.compared? constructors values declared = some i ↔
      (a.order constructors).getLast? = some i ∨
        (a.order constructors = [] ∧ values.getD i .unknown ≠ .type declared) := by
  obtain ⟨hlt, haccepted, hfirst⟩ := List.findIdx?_eq_some_iff_getElem.1 hi
  rw [compared?]
  split
  · next hnil =>
    have hin : i < values.length := h ▸ hlt
    have hzip : i < (a.writtenArguments.zip values).length := by
      rw [List.length_zip]
      exact Nat.lt_min.2 ⟨hlt, hin⟩
    rw [hnil, List.findIdx?_eq_some_iff_getElem]
    constructor
    · rintro ⟨_, hother, _⟩
      exact .inr ⟨rfl, by simpa [hin, haccepted] using hother⟩
    · rintro (hlast | ⟨-, hother⟩)
      · cases hlast
      · -- no argument before the first accepted one counts
        refine ⟨hzip, by simpa [hin, haccepted] using hother, fun j hj haccepted' => hfirst j hj ?_⟩
        have hboth := (Bool.and_eq_true_iff.1 haccepted').1
        rwa [List.getElem_zip] at hboth
  · next hne => simp [hne]

end

/-! ## In a source -/

/-- The symbol has the class and the argument values of the attribute. Its constructor arguments
    stand in the order that the constructors call for, which are those of the class in a table
    between the two. -/
structure Attribute.AppliedAs (a : Attribute) (start stop : TypeTable) (constructors : List Signature)
    (values : List Constant) (symbol : AppliedAttribute) : Prop where
  table : ∃ t : TypeTable, start.Extends t ∧ t.Extends stop ∧
    constructors = (symbol.cls.map t.constructors).getD []
  length_values : values.length = a.writtenArguments.length
  symbol_eq : symbol = a.applied symbol.cls constructors values

theorem AppliedAttribute.BoundFrom.exists_appliedAs {start stop : TypeTable} {context : Context}
    {a : Attribute} {symbol : AppliedAttribute} (h : symbol.BoundFrom start stop context a) :
    ∃ constructors values, a.AppliedAs start stop constructors values symbol := by
  obtain ⟨s, hstart, hstop, rfl⟩ := h.source
  obtain ⟨values, hlength, hsymbol⟩ := Bind.appliedAttribute_eq context a s
  have hgrown := Bind.Steps.steps (R := fun s t => TypeTable.Extends s.table t.table)
    (x := Bind.appliedAttribute context a) s
  have hcls : (Bind.appliedAttribute context a s).1.cls = (Bind.attributeClass context a s).1 :=
    congrArg AppliedAttribute.cls hsymbol
  rw [← hcls] at hsymbol
  exact ⟨_, values, ⟨_, TypeTable.Growth.trans hstart hgrown, hstop, rfl⟩, hlength, hsymbol⟩

/-- The attributes of a flagged property and those of its symbol belong together one by one. -/
theorem Source.Flagged.forall₂_attributes {source : Source} {d : Diagnostic} {p : Property}
    {b : BindingProperty} (h : source.Flagged d p b) : List.Forall₂
      (fun a symbol => ∃ constructors values, a.AppliedAs source.unit.declared.table
        (Model.ofUnit source.unit).table constructors values symbol)
      p.ownAttributes b.property.attributes := by
  obtain ⟨declared, -, -, s, hstart, hstop, hsymbol⟩ := h.bound
  rw [hsymbol]
  exact (Bind.forall₂_attributes hstart hstop).imp fun _ _ hbound => hbound.exists_appliedAs

namespace TypeArgumentFix

/-- Every argument that the fix replaces in the source is the one that the rule compares. -/
def ReplacesCompared (source : Source) : Prop :=
  ∀ d p b, source.Flagged d p b →
    ∀ a symbol, (a, symbol) ∈ p.ownAttributes.zip b.property.attributes →
    (Model.ofUnit source.unit).isBindingAttribute symbol = true → isBinding a = true →
    ∀ i, a.writtenArguments.findIdx? isTypeArgument = some i →
    ∀ constructors values, a.AppliedAs source.unit.declared.table (Model.ofUnit source.unit).table
      constructors values symbol → a.compared? constructors values b.property.type = some i

/-- Of the arguments of the attribute, the fix for the diagnostic replaces the first one that is
    written like one for the type. This is the one that the rule compares with the declared type
    if and only if it is the last constructor argument in the order of the parameters, or there
    are no constructor arguments and its value is another one. -/
structure ReplacesExactly (source : Source) (d : Diagnostic) (declared : TypeId) (a : Attribute)
    (symbol : AppliedAttribute) (constructors : List Signature) (values : List Constant) :
    Prop where
  applied : a.AppliedAs source.unit.declared.table (Model.ofUnit source.unit).table constructors
    values symbol
  problem : attributeProblem? declared symbol = (a.compared? constructors values declared).elim
    (if a.order constructors = [] ∧ a.writtenArguments.any isTypeArgument = false then
      some .missingType else none)
    fun i => typeProblem? declared (values.getD i .unknown)
  replaced : isBinding a = true → ∀ i argument,
    a.writtenArguments.findIdx? isTypeArgument = some i → a.writtenArguments[i]? = some argument →
    ∃ fix typeOf, Fix.fix? source d = some fix ∧ ⟨argument.value.span, typeOf⟩ ∈ fix.edits
  compared : ∀ i, a.writtenArguments.findIdx? isTypeArgument = some i →
    (a.compared? constructors values declared = some i ↔
      (a.order constructors).getLast? = some i ∨
        (a.order constructors = [] ∧ values.getD i .unknown ≠ .type declared))

theorem editFor_of_findIdx? {a : Attribute} {i : Nat} {argument : Argument}
    (hi : a.writtenArguments.findIdx? isTypeArgument = some i)
    (hargument : a.writtenArguments[i]? = some argument) (typeOf : String) :
    editFor typeOf a = ⟨argument.value.span, typeOf⟩ := by
  have hfind : a.writtenArguments.find? isTypeArgument = some argument := by
    rw [List.find?_eq_bind_findIdx?_getElem?, hi]
    exact hargument
  cases harguments : a.arguments with
  | none =>
    rw [Attribute.writtenArguments, harguments] at hfind
    cases hfind
  | some list =>
    rw [Attribute.writtenArguments, harguments] at hfind
    have hlist : list.arguments.find? isTypeArgument = some argument := hfind
    rw [editFor, harguments]
    show editIn typeOf list = _
    rw [editIn, hlist]

/-- The fix has an edit for each attribute that is written like a binding attribute. -/
theorem exists_fix? {source : Source} {d : Diagnostic} {p : Property} {a : Attribute}
    (hfix : Fix.isFixable d.id = true) (hp : source.unit.propertyAt? d.span.start = some p)
    (ha : a ∈ p.ownAttributes) (hbinding : isBinding a = true) :
    ∃ fix typeOf, Fix.fix? source d = some fix ∧ editFor typeOf a ∈ fix.edits := by
  let typeOf := typeOfFor source (d.property? isReferenceKey = some "true") p
  let edits := (p.ownAttributes.filter isBinding).map (editFor typeOf)
  have hmem : editFor typeOf a ∈ edits :=
    List.mem_map.2 ⟨a, List.mem_filter.2 ⟨ha, hbinding⟩, rfl⟩
  have hne : edits.isEmpty = false := List.isEmpty_eq_false_iff.2 (List.ne_nil_of_mem hmem)
  refine ⟨⟨title, key, edits⟩, typeOf, ?_, hmem⟩
  rw [Fix.fix?, if_pos hfix, fix?, hp]
  show (if edits.isEmpty then none else some _) = _
  rw [hne]
  rfl

/-- The diagnostic of the sample at the offset, with what the fix and the rule do about it. -/
def SampleReplacesAt (offset : Nat) : Prop :=
  ∃ d ∈ Analyzer.aheadOfTime.check (Source.parse sampleSettings),
    d.span = ⟨offset, offset + 1⟩ ∧ Fix.isFixable d.id = true ∧
    ∃ p b, (Source.parse sampleSettings).Flagged d p b ∧
      (Source.parse sampleSettings).unit.propertyAt? d.span.start = some p ∧
      List.Forall₂ (fun a symbol => ∃ constructors values, ReplacesExactly
        (Source.parse sampleSettings) d b.property.type a symbol constructors values)
        p.ownAttributes b.property.attributes

set_option maxRecDepth 100000 in
/-- What is read of the sample: how the attributes of some properties are written, which of their
    arguments have no name, and how the attributes of the last property are called. -/
theorem attributes_sampleSettings :
    (Source.parse sampleSettings).errors.isEmpty = true ∧
    [158, 193, 380].map (fun offset =>
        ((Source.parse sampleSettings).unit.propertyAt? offset).map fun p => p.ownAttributes.map
          fun a => (isBinding a, a.writtenArguments.findIdx? isTypeArgument,
            a.writtenArguments.map (·.name.isNone)))
      = [some [(true, some 0, [true, true])], some [(false, none, [true])],
        some [(true, none, []), (false, none, [])]] ∧
    ((Source.parse sampleSettings).unit.propertyAt? 380).map (·.ownAttributes.map (·.simpleName))
      = some ["CommandArgument", "Attribute"] := by
  decide +kernel

end TypeArgumentFix

end SettingsLint
