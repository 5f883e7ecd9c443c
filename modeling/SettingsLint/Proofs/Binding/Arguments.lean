import SettingsLint.Proofs.Analysis.Findings
import SettingsLint.Proofs.Binding.ModelTypes

/-! # What type arguments a type is told apart by

A qualified name is resolved from left to right, and each segment is given its type arguments. Of
these the last ones make the type: two names with the same last definition stand for the same type if
and only if their last segments have the same arguments. Arguments of the segments before are lost,
since a type is looked up inside the definition of the type around it.
-/

namespace SettingsLint

namespace Bind

/-- What a segment and those after it stand for before they are given their arguments, and these
    arguments, if the first of them stands for what has been found. -/
def partsAfter : Option Found → List TypeId → List (String × List TypeId) →
    Bind (List (Found × List TypeId))
  | none, _, _ => return []
  | some found, arguments, [] => return [(found, arguments)]
  | some found, arguments, (name, next) :: segments => do
    let outer ← withArguments found arguments
    return (found, arguments) :: (← partsAfter (← foundInside outer name next.length) next segments)

/-- What each segment of a qualified name stands for before it is given its arguments, and these
    arguments. -/
def parts (context : Context) (isGlobal : Bool) :
    List (String × List TypeId) → Bind (List (Found × List TypeId))
  | [] => return []
  | (name, arguments) :: segments => do
    let first ←
      if isGlobal then pure ((← table).foundIn "" name arguments.length)
      else foundFirst aliasTarget context name arguments.length
    partsAfter first arguments segments

/-- What each segment of a written name stands for, and its arguments. -/
def writtenParts (context : Context) (isGlobal : Bool) (segments : List NameSegment) :
    Bind (List (Found × List TypeId)) := do
  let arguments ← argumentsWith aliasTarget context segments
  parts context isGlobal ((segments.map (·.name.name)).zip arguments)

end Bind

namespace TypeTable

variable {t u : TypeTable} {definition id id' : TypeId} {arguments arguments' : List TypeId}

/-- The type is the definition with the arguments, or the definition itself without arguments. -/
def IsWith (t : TypeTable) (definition : TypeId) (arguments : List TypeId) (id : TypeId) : Prop :=
  t.Has id ∧ if arguments = [] then id = definition else t.shape id = .constructed definition arguments

theorem IsWith.mono (h : t.IsWith definition arguments id) (hextends : t.Extends u) :
    u.IsWith definition arguments id := by
  refine ⟨h.1.mono hextends, ?_⟩
  rw [hextends.shape_eq h.1]
  exact h.2

/-- With the same definition, types differ if and only if their arguments do. -/
theorem IsWith.eq_iff (ht : t.Sound) (h : t.IsWith definition arguments id)
    (h' : t.IsWith definition arguments' id') : id = id' ↔ arguments = arguments' := by
  obtain ⟨hid, hwith⟩ := h
  obtain ⟨hid', hwith'⟩ := h'
  -- A type with arguments is newer than its definition.
  have hne {id : TypeId} {arguments : List TypeId} (hshape : t.shape id = .constructed definition arguments) :
      id ≠ definition := by
    intro heq
    have holder := ht.older (hshape ▸ List.mem_cons_self : definition ∈ (t.shape id).parts)
    exact Nat.lt_irrefl _ (heq ▸ holder)
  split at hwith <;> split at hwith'
  · next hnil hnil' => simp [hwith, hwith', hnil, hnil']
  · next hnil hcons =>
    subst hwith hnil
    exact ⟨fun heq => absurd heq.symm (hne hwith'), fun heq => absurd heq.symm hcons⟩
  · next hcons hnil =>
    subst hwith' hnil
    exact ⟨fun heq => absurd heq (hne hwith), fun heq => absurd heq hcons⟩
  · constructor
    · intro heq
      rw [heq, hwith'] at hwith
      exact (Shape.constructed.inj hwith).2.symm
    · intro heq
      refine ht.unique hid' hid (by rw [hwith']; rfl) ?_
      rw [hwith, hwith', heq]

end TypeTable

namespace Bind

variable {s : BindState} {outer found : Found} {arguments : List TypeId} {id : TypeId}

/-- A type that is given arguments is its definition with the arguments. -/
theorem isWith_withArguments (h : s.table.Regular) {definition : TypeId}
    (hfits : (Found.type definition).Fits s.table arguments.length)
    (harguments : ∀ a ∈ arguments, s.table.Has a) : ∃ id,
    (withArguments (.type definition) arguments s).1 = .type id ∧
      (withArguments (.type definition) arguments s).2.table.IsWith definition arguments id := by
  refine ⟨(s.table.construct definition arguments).1, rfl, ?_⟩
  cases arguments with
  | nil => exact ⟨hfits.1, rfl⟩
  | cons a as =>
    have hparts : ∀ p ∈ (Shape.constructed definition (a :: as)).parts, s.table.Has p :=
      List.forall_mem_cons.2 ⟨hfits.1, harguments⟩
    have hinterned := h.toSound.interned hparts rfl rfl 0
    exact ⟨hinterned.index_lt, hinterned.shape_eq⟩

/-- The type of a name is what its last segment stands for, with the arguments of the last segment. -/
theorem isWith_lookupInside (segments : List (String × List TypeId)) (h : s.table.Regular)
    (hfits : found.Fits s.table arguments.length) (harguments : ∀ a ∈ arguments, s.table.Has a)
    (hsegments : ∀ segment ∈ segments, ∀ a ∈ segment.2, s.table.Has a)
    (hid : ((withArguments found arguments >>= (lookupInside · segments)) s).1 = some id) :
    ∃ definition last,
      (partsAfter (some found) arguments segments s).1.getLast? = some (.type definition, last) ∧
      ((withArguments found arguments >>= (lookupInside · segments)) s).2.table.IsWith definition last
        id := by
  induction segments generalizing found arguments s with
  | nil =>
    cases found with
    | inNamespace name => cases hid
    | type definition =>
      obtain ⟨id', heq, hwith⟩ := isWith_withArguments h hfits harguments
      have hid : ((withArguments (.type definition) arguments s).1.type?) = some id := hid
      rw [heq] at hid
      obtain rfl : id' = id := Option.some.inj hid
      exact ⟨definition, arguments, rfl, hwith⟩
  | cons segment segments ih =>
    obtain ⟨name, next⟩ := segment
    obtain ⟨hnext, hrest⟩ := List.forall_mem_cons.1 hsegments
    have hgiven := settles_withArguments admits_regular h hfits harguments
    have hinside := settles_foundInside hgiven.inv hgiven.value name next.length
    have hgrown := TypeTable.Growth.trans hgiven.growth hinside.growth
    have hregular := hinside.inv
    have hvalue := hinside.value
    -- Both go on from what is found inside the type so far.
    have hlookup : (withArguments found arguments >>= (lookupInside · ((name, next) :: segments))) s
        = lookupFrom next segments (foundInside (withArguments found arguments s).1 name next.length
            (withArguments found arguments s).2).1 (foundInside (withArguments found arguments s).1 name
            next.length (withArguments found arguments s).2).2 := rfl
    have hparts : (partsAfter (some found) arguments ((name, next) :: segments) s).1
        = (found, arguments) :: (partsAfter (foundInside (withArguments found arguments s).1 name
            next.length (withArguments found arguments s).2).1 next segments
          (foundInside (withArguments found arguments s).1 name next.length
            (withArguments found arguments s).2).2).1 := rfl
    rw [hlookup] at hid ⊢
    rw [hparts]
    generalize foundInside (withArguments found arguments s).1 name next.length
      (withArguments found arguments s).2 = r at hid hgrown hregular hvalue ⊢
    obtain ⟨o, u⟩ := r
    cases o with
    | none => cases hid
    | some inner =>
      obtain ⟨definition, last, hlast, hwith⟩ := ih hregular (hvalue inner rfl)
        (fun a ha => (hnext a ha).mono hgrown)
        (fun segment hsegment a ha => (hrest segment hsegment a ha).mono hgrown) hid
      refine ⟨definition, last, ?_, hwith⟩
      rw [List.getLast?_cons, hlast]
      rfl

variable {context : Context} {isGlobal : Bool} {span : Span}

theorem isWith_lookup (segments : List (String × List TypeId)) (h : s.table.Regular)
    (hsegments : ∀ segment ∈ segments, ∀ a ∈ segment.2, s.table.Has a)
    (hid : (lookup aliasTarget context isGlobal segments s).1 = some id) :
    ∃ definition last,
      (parts context isGlobal segments s).1.getLast? = some (.type definition, last) ∧
      (lookup aliasTarget context isGlobal segments s).2.table.IsWith definition last id := by
  cases segments with
  | nil => cases hid
  | cons segment segments =>
    obtain ⟨name, arguments⟩ := segment
    obtain ⟨hfirst, hrest⟩ := List.forall_mem_cons.1 hsegments
    have hinside (r : Option Found × BindState) (hregular : r.2.table.Regular)
        (hgrown : s.table.Extends r.2.table) (hfits : FoundFits arguments.length r.2.table r.1)
        (hid : (lookupFrom arguments segments r.1 r.2).1 = some id) : ∃ definition last,
        (partsAfter r.1 arguments segments r.2).1.getLast? = some (.type definition, last) ∧
        (lookupFrom arguments segments r.1 r.2).2.table.IsWith definition last id := by
      obtain ⟨o, u⟩ := r
      cases o with
      | none => cases hid
      | some found =>
        exact isWith_lookupInside segments hregular (hfits found rfl)
          (fun a ha => (hfirst a ha).mono hgrown)
          (fun segment hsegment a ha => (hrest segment hsegment a ha).mono hgrown) hid
    cases isGlobal with
    | true =>
      exact hinside (s.table.foundIn "" name arguments.length, s) h (.refl _)
        (s.table.fits_foundIn "" name arguments.length) hid
    | false =>
      have hfound := settles_foundFirst admits_regular (settles_aliasTarget admits_regular) context name
        arguments.length h
      exact hinside _ hfound.inv hfound.growth hfound.value hid

theorem kind_error (h : s.table.Sound) (text : String) :
    (onTable (·.error text) s).2.table.kind (onTable (·.error text) s).1 = .error := by
  have hparts : ∀ p ∈ (Shape.error text).parts, s.table.Has p := List.forall_mem_nil _
  have hshape := (h.interned hparts rfl rfl 0).shape_eq
  show (s.table.intern (.error text)).2.kind (s.table.intern (.error text)).1 = .error
  rw [TypeTable.kind, hshape]

theorem namedType_of_arguments {segments : List NameSegment} {arguments : List (List TypeId)}
    (h : ¬arguments.any (·.any (s.table.kind · = .error)) = true) :
    namedType aliasTarget context isGlobal segments span arguments s
      = (match (lookup aliasTarget context isGlobal ((segments.map (·.name.name)).zip arguments) s).1 with
        | some id => pure id
        | none => report Diagnostic.unresolvedTypeId ("the type or namespace name `" ++ dottedText segments
            ++ "` could not be found") span >>= fun _ => onTable (·.error (dottedText segments)) : Bind TypeId)
        (lookup aliasTarget context isGlobal ((segments.map (·.name.name)).zip arguments) s).2 := by
  show (if _ then _ else _ : Bind TypeId) s = _
  rw [if_neg h]
  rfl

/-- A name is an error, or stands for what is looked up. -/
theorem namedType_cases (context : Context) (isGlobal : Bool) (segments : List NameSegment)
    (span : Span) (arguments : List (List TypeId)) (s : BindState) :
    let names := (segments.map (·.name.name)).zip arguments
    let found := lookup aliasTarget context isGlobal names s
    (∃ u : BindState, (u.table = s.table ∨ u.table = found.2.table) ∧
      namedType aliasTarget context isGlobal segments span arguments s
        = onTable (·.error (dottedText segments)) u) ∨
    ∃ id, found.1 = some id ∧
      namedType aliasTarget context isGlobal segments span arguments s = (id, found.2) := by
  intro names found
  by_cases herror : arguments.any (·.any (s.table.kind · = .error)) = true
  · refine .inl ⟨s, .inl rfl, ?_⟩
    show (if _ then _ else _ : Bind TypeId) s = _
    rw [if_pos herror]
  · rw [namedType_of_arguments herror]
    cases found.1 with
    | none => exact .inl ⟨(report _ _ span found.2).2, .inr rfl, rfl⟩
    | some id => exact .inr ⟨id, rfl, rfl⟩

/-- A written name that resolves stands for what its last segment stands for, with the arguments of
    the last segment. -/
theorem isWith_type {segments : List NameSegment} (h : s.table.Regular)
    (hid : (type context (.named isGlobal segments span) s).2.table.kind
      (type context (.named isGlobal segments span) s).1 ≠ .error) :
    ∃ definition last,
      (writtenParts context isGlobal segments s).1.getLast? = some (.type definition, last) ∧
      (type context (.named isGlobal segments span) s).2.table.IsWith definition last
        (type context (.named isGlobal segments span) s).1 := by
  have harguments := settles_argumentsWith admits_regular (settles_aliasTarget admits_regular) context
    segments h
  have hregular := harguments.inv
  have hvalue := harguments.value
  have htype : type context (.named isGlobal segments span) s
      = namedType aliasTarget context isGlobal segments span
        (argumentsWith aliasTarget context segments s).1
        (argumentsWith aliasTarget context segments s).2 := by
    rfl
  have hparts : (writtenParts context isGlobal segments s).1
      = (parts context isGlobal ((segments.map (·.name.name)).zip
        (argumentsWith aliasTarget context segments s).1)
        (argumentsWith aliasTarget context segments s).2).1 := rfl
  rw [htype] at hid ⊢
  rw [hparts]
  generalize argumentsWith aliasTarget context segments s = r at hid hregular hvalue ⊢
  obtain ⟨arguments, u⟩ := r
  have hinside : ∀ segment ∈ (segments.map (·.name.name)).zip arguments, ∀ a ∈ segment.2, u.table.Has a :=
    fun segment hsegment => hvalue _ (List.of_mem_zip hsegment).2
  have hlookup := settles_lookup admits_regular (settles_aliasTarget admits_regular) context isGlobal _
    hregular hinside
  rcases namedType_cases context isGlobal segments span arguments u with
    ⟨v, hv, hnamed⟩ | ⟨id, hfound, hnamed⟩
  · have hsound : v.table.Sound := by
      rcases hv with hv | hv <;> rw [hv]
      · exact hregular.toSound
      · exact hlookup.inv.toSound
    rw [hnamed] at hid
    exact absurd (kind_error hsound _) hid
  · rw [hnamed]
    exact isWith_lookup _ hregular hinside hfound

/-- Of two written names that resolve with the same last definition, the second one later than the
    first, the types are the same if and only if the last arguments are. -/
theorem type_eq_iff {context' : Context} {isGlobal' : Bool} {segments segments' : List NameSegment}
    {span' : Span} {s' : BindState} (h : s.table.Regular) (h' : s'.table.Regular)
    (hlater : (type context (.named isGlobal segments span) s).2.table.Extends s'.table)
    (hid : s'.table.kind (type context (.named isGlobal segments span) s).1 ≠ .error)
    (hid' : (type context' (.named isGlobal' segments' span') s').2.table.kind
      (type context' (.named isGlobal' segments' span') s').1 ≠ .error)
    (hsame : (writtenParts context isGlobal segments s).1.getLast?.map Prod.fst
      = (writtenParts context' isGlobal' segments' s').1.getLast?.map Prod.fst) :
    (type context (.named isGlobal segments span) s).1
        = (type context' (.named isGlobal' segments' span') s').1 ↔
      (writtenParts context isGlobal segments s).1.getLast?.map Prod.snd
        = (writtenParts context' isGlobal' segments' s').1.getLast?.map Prod.snd := by
  have hfirst := settles_type admits_regular context (.named isGlobal segments span) h
  have hsecond := settles_type admits_regular context' (.named isGlobal' segments' span') h'
  rw [TypeTable.Keeps.kind_eq (.of_extends hlater) hfirst.value] at hid
  obtain ⟨definition, last, hlast, hwith⟩ := isWith_type h hid
  obtain ⟨definition', last', hlast', hwith'⟩ := isWith_type h' hid'
  rw [hlast, hlast'] at hsame ⊢
  obtain rfl : definition = definition' := Found.type.inj (Option.some.inj hsame)
  have hgrown := TypeTable.Growth.trans hlater hsecond.growth
  rw [(hwith.mono hgrown).eq_iff hsecond.inv.toSound hwith']
  exact Option.some_inj.symm

end Bind

/-! ## What is reported -/

/-- The attribute names the type, as its last constructor argument or under a name for the type. -/
def AppliedAttribute.NamesType (a : AppliedAttribute) (id : TypeId) : Prop :=
  a.arguments.getLast? = some (.type id) ∨ (a.arguments = [] ∧
    (a.named.filter (typeArgumentNames.contains ·.1)).map (·.2) = [.type id])

instance (a : AppliedAttribute) (id : TypeId) : Decidable (a.NamesType id) :=
  inferInstanceAs (Decidable (_ ∨ _))

theorem attributeProblem?_of_namesType {a : AppliedAttribute} {id : TypeId} (h : a.NamesType id)
    (declared : TypeId) : attributeProblem? declared a = typeProblem? declared (.type id) := by
  rcases h with hlast | ⟨hnone, hnamed⟩
  · have hsome : ¬ a.arguments.isEmpty = true := by
      rw [List.isEmpty_iff]
      intro hnil
      rw [hnil] at hlast
      cases hlast
    rw [attributeProblem?, AppliedAttribute.bindingArguments, if_neg hsome]
    show typeProblem? declared (a.arguments.getLastD .unknown) = _
    rw [List.getLastD_eq_getLast?, hlast]
    rfl
  · obtain ⟨⟨name, value⟩, hvalue, rfl⟩ := List.map_eq_singleton_iff.1 hnamed
    have hbinding : a.bindingArguments = .named [(name, .type id)] := by
      rw [AppliedAttribute.bindingArguments, if_pos (List.isEmpty_iff.2 hnone)]
      exact congrArg BindingArguments.named hvalue
    rw [attributeProblem?, hbinding]
    exact List.findSome?_singleton

theorem findSome?_eq_of_forall {f : α → Option β} {o : Option β} {as : List α} (hne : as ≠ [])
    (h : ∀ a ∈ as, f a = o) : as.findSome? f = o := by
  cases as with
  | nil => exact absurd rfl hne
  | cons a as =>
    rw [List.findSome?_cons, h a List.mem_cons_self]
    cases o with
    | some b => rfl
    | none => exact List.findSome?_eq_none_iff.2 fun b hb => h b (List.mem_cons_of_mem _ hb)

/-- A property whose binding attributes all name the type is reported for it if and only if it is
    another one than the declared type, which cannot be bound without being named, and the program
    is to be published ahead of time. -/
theorem Analyzer.mismatched_mem_findings_iff (analyzer : Analyzer) {model : Model}
    {b : BindingProperty} {id : TypeId} (hattributes : b.attributes ≠ [])
    (hkind : model.table.kind b.property.type ≠ .error)
    (hnames : ∀ a ∈ b.attributes, a.NamesType id) :
    ⟨.mismatchedType id, b.property⟩ ∈ analyzer.findings model b ↔
      analyzer.aot = true ∧ model.table.bindsImplicitly b.property.type = false ∧
        b.property.type ≠ id := by
  have hproblem : b.attributes.findSome? (attributeProblem? b.property.type)
      = typeProblem? b.property.type (.type id) :=
    findSome?_eq_of_forall hattributes fun a ha => attributeProblem?_of_namesType (hnames a ha) _
  have hrule : ⟨.mismatchedType id, b.property⟩ ∈ analyzer.findings model b ↔
      Rule.explicitType.problem? analyzer.aot model b = some (.mismatchedType id) := by
    rw [findings, List.mem_filterMap]
    constructor
    · rintro ⟨rule, hmem, hfound⟩
      obtain ⟨problem, hproblem, hfinding⟩ := Option.map_eq_some_iff.1 hfound
      rw [(Finding.mk.inj hfinding).1] at hproblem
      rcases List.mem_cons.1 hmem with rfl | hmem
      · exact hproblem
      · -- The other rule does not look at attributes.
        rw [List.mem_singleton.1 hmem] at hproblem
        obtain ⟨reason, hreason⟩ := Rule.exists_invalidType hproblem
        cases hreason
    · intro hproblem
      exact ⟨_, List.mem_cons_self, by rw [hproblem]; rfl⟩
  have hmismatch : typeProblem? b.property.type (.type id) = some (.mismatchedType id) ↔
      b.property.type ≠ id := by
    show (if id = b.property.type then none else some (Problem.mismatchedType id)) = _ ↔ _
    by_cases hsame : id = b.property.type
    · simp [hsame]
    · simp [hsame, Ne.symm hsame]
  rw [hrule, Rule.explicitType]
  dsimp only
  rw [hproblem, ← hmismatch]
  cases analyzer.aot <;> cases model.table.bindsImplicitly b.property.type <;> simp [hkind]

/-! ## Names in a model -/

/-- What two written names stand for, the second one bound after the first, and what their segments
    stand for. -/
structure TwoNames where
  first : TypeId × BindState
  second : TypeId × BindState
  parts : List (Found × List TypeId)
  parts' : List (Found × List TypeId)

namespace TwoNames

/-- The names are bound with the types of the table. -/
def bind (table : TypeTable) (context context' : Context) (isGlobal isGlobal' : Bool)
    (segments segments' : List NameSegment) (span span' : Span) : TwoNames :=
  let s : BindState := { table }
  let first := Bind.type context (.named isGlobal segments span) s
  ⟨first, Bind.type context' (.named isGlobal' segments' span') first.2,
    (Bind.writtenParts context isGlobal segments s).1,
    (Bind.writtenParts context' isGlobal' segments' first.2).1⟩

/-- Both names resolve without an error. -/
def Resolve (names : TwoNames) : Prop :=
  names.first.2.table.kind names.first.1 ≠ .error ∧
    names.second.2.table.kind names.second.1 ≠ .error

/-- The last segments stand for the same, before they are given their arguments. -/
def SameLast (names : TwoNames) : Prop :=
  names.parts.getLast?.map Prod.fst = names.parts'.getLast?.map Prod.fst

/-- The last segments have the same arguments. -/
def SameArguments (names : TwoNames) : Prop :=
  names.parts.getLast?.map Prod.snd = names.parts'.getLast?.map Prod.snd

end TwoNames

/-- A source with a class inside a generic one, and a property whose attribute names another type
    than its own. -/
def nestedTypes : String :=
  "class Outer<T> \x7b class Inner \x7b \x7d \x7d\n" ++
  "class S : Spectre.Console.Cli.CommandSettings \x7b\n" ++
  "  [Spectre.Console.Cli.CommandOption(typeof(Outer<string>))] Outer<int> X \x7b get; \x7d\n\x7d\n"

/-- The segments of a name whose first one has a type argument. -/
def qualifiedSegments (outer argument : String) (inner : List String) : List NameSegment :=
  .mk ⟨outer, ⟨0, 0⟩⟩ [.named false [.mk ⟨argument, ⟨0, 0⟩⟩ []] ⟨0, 0⟩]
    :: inner.map (.mk ⟨·, ⟨0, 0⟩⟩ [])

/-- The names `Outer<int>` and `Outer<string>`, both followed by the inner names. -/
def outerNames (inner : List String) : TwoNames :=
  .bind (Model.ofUnit (Source.parse nestedTypes).unit).table {} {} false false
    (qualifiedSegments "Outer" "int" inner) (qualifiedSegments "Outer" "string" inner) ⟨0, 0⟩ ⟨0, 0⟩

deriving instance DecidableEq for Found

set_option maxRecDepth 100000 in
/-- The names resolve, with the same definitions segment by segment and with different arguments. The
    longer ones stand for one type, and the shorter ones for the type of the property and for that
    which its attribute names. -/
theorem resolve_outerNames :
    (∀ inner ∈ [[], ["Inner"]],
      ((outerNames inner).first.2.table.kind (outerNames inner).first.1 ≠ .error ∧
        (outerNames inner).second.2.table.kind (outerNames inner).second.1 ≠ .error) ∧
      (outerNames inner).parts.map Prod.fst = (outerNames inner).parts'.map Prod.fst ∧
      (outerNames inner).parts.map Prod.snd ≠ (outerNames inner).parts'.map Prod.snd) ∧
    (outerNames ["Inner"]).first.1 = (outerNames ["Inner"]).second.1 ∧
    (outerNames []).first.1 ≠ (outerNames []).second.1 ∧
    ∃ b ∈ (Model.ofUnit (Source.parse nestedTypes).unit).bindingProperties,
      b.property.type = (outerNames []).first.1 ∧
      (∀ a ∈ b.attributes, a.NamesType (outerNames []).second.1) ∧
      (Model.ofUnit (Source.parse nestedTypes).unit).table.bindsImplicitly b.property.type
        = false := by
  decide +kernel

end SettingsLint
