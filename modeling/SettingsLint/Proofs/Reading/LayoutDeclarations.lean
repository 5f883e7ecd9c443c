import SettingsLint.Proofs.Reading.Layout

/-! # Reading declarations in a layout

Attributes, members, types and units are read in the same way in every layout. The decisions
about places that are left are whether the value of an argument is missing, and whether a member
has been read at all.
-/

set_option synthInstance.maxSize 4096

namespace SettingsLint

open Placed (relocate places)
open Correspondence (counted_append)
open Layout (Shifts shifts_span)

namespace Read

variable {T : List Token} {m : Layout T} {first first' : Span} [hfirst : m.Shifts first first']

/-! ## Attributes -/

omit hfirst in
theorem literal?_cursor (s : Cursor) : (m.cursor s).literal? = s.literal? := by
  rw [Cursor.literal?, Cursor.literal?, Layout.kind_cursor, Layout.peek_cursor]

instance : Moves m argumentName argumentName := by
  refine .get fun s hs => ?_
  rw [Layout.peek_cursor]
  cases (s.peek 1).argumentMark? with
  | none => exact Moves.reads s hs
  | some mark =>
    refine .ite Iff.rfl (fun _ => ?_) fun _ => Moves.reads s hs
    refine Moves.readsAt (.bind inferInstance fun _ _ h => ?_) hs
    exact h.option inferInstance fun _ _ _ => inferInstance

instance : Moves m (typeOfValue first) (typeOfValue first') := by
  unfold typeOfValue
  infer_instance

omit hfirst in
/-- Here a place decides whether a value is there. -/
theorem moves_otherValue (hfirst : first.OfToken T) :
    Moves m (otherValue first) (otherValue (first.shift m.offset)) := by
  have : m.Shifts first (first.shift m.offset) := shifts_span hfirst.rooted
  refine .get fun s hs => .ite ?_ (fun _ => Moves.reads s hs) fun _ => Moves.reads s hs
  simp only [Layout.atArgumentEnd_cursor, Layout.span_cursor, m.shift_inj hs.span hfirst]

omit hfirst in
theorem moves_literalValue (kind : LiteralKind) (text : String) (hfirst : first.OfToken T) :
    Moves m (literalValue first kind text) (literalValue (first.shift m.offset) kind text) := by
  have : m.Shifts first (first.shift m.offset) := shifts_span hfirst.rooted
  have := moves_otherValue (m := m) hfirst
  unfold literalValue
  infer_instance

instance : Moves m argumentValue argumentValue := by
  refine .get fun s hs => ?_
  have : m.Shifts s.span (s.span.shift m.offset) := shifts_span hs.span.rooted
  rw [Layout.span_cursor, literal?_cursor, Layout.peek_cursor]
  refine .ite Iff.rfl (fun _ => Moves.reads s hs) fun _ => ?_
  cases s.literal? with
  | none => exact (moves_otherValue hs.span).reads s hs
  | some literal => exact (moves_literalValue _ _ hs.span).reads s hs

instance [Placed α] (closing : TokenKind) {item item' : Read (Option α)} [Moves m item item'] :
    Moves m (listItem closing item) (listItem closing item') := by
  refine .get fun s hs => .ite Iff.rfl (fun _ => Moves.reads s hs) fun _ => ?_
  refine Moves.readsAt (.bind inferInstance fun _ _ h => ?_) hs
  exact h.option inferInstance fun _ _ _ => inferInstance

/-- The end of what has been read. -/
theorem within_previousStop {s : Cursor} (hs : s.Within T) :
    (Place.gap (.point s.previousStop)).Within T := by
  rw [Cursor.previousStop]
  cases hstop : s.lastStop with
  | none => exact .gap (.point hs.current_mem)
  | some x =>
    obtain ⟨t, ht, -, rfl⟩ := hs.stop x hstop
    exact .stop ht

instance : Moves m argumentList argumentList := by
  refine .bind inferInstance fun opening opening' hopening => ?_
  refine .bind inferInstance fun arguments arguments' harguments => .bind inferInstance fun _ _ h => ?_
  refine h.option (.get fun s hs => ?_) fun closing closing' hclosing => inferInstance
  rw [Layout.previousStop_cursor]
  exact .pure ⟨(congr (congrArg (ArgumentList.mk · _) hopening.same) harguments.same :), counted_append
    (counted_append harguments.counted hopening.counted)
    (List.forall_mem_singleton.mpr (within_previousStop hs))⟩ hs

instance : Moves m namedAttribute namedAttribute := by
  refine .bind inferInstance fun first first' _ => ⟨fun s hs => ?_⟩
  have hread : MovesAt m (qualifiedName typeExpr) (qualifiedName typeExpr) s := Moves.reads s hs
  have hnode : m.corr.counts (.node (qualifiedName typeExpr s).1.span) := by
    rw [span_qualifiedName]
    exact .node (hread.within.rooted_spanFrom m.ordered hs.span.rooted)
  have := hread.shifts
  refine hread.bind (Moves.readsAt ?_ hread.within)
  have {arguments arguments' : Option ArgumentList} {span span' : Span} [m.Shifts arguments arguments']
      [m.Shifts span span'] : m.Shifts (Attribute.mk (qualifiedName typeExpr s).1 arguments span)
        ⟨(qualifiedName typeExpr (m.cursor s)).1, arguments', span'⟩ := Correspondence.relates_attribute hnode
  infer_instance

instance : Moves m attributeList attributeList := by
  unfold attributeList
  infer_instance

instance : Moves m attributeLists attributeLists := by
  unfold attributeLists
  infer_instance

/-! ## Parts of declarations -/

section

variable {modifiers modifiers' : List Ident} {type type' : TypeExpr} {attributes attributes' : List AttributeList}
  [m.Shifts modifiers modifiers'] [m.Shifts type type'] [m.Shifts attributes attributes']

instance : Moves m (parameterRest first modifiers type) (parameterRest first' modifiers' type') :=
  .bind inferInstance fun _ _ h => h.option inferInstance fun _ _ _ => inferInstance

instance : Moves m parameterList parameterList := by
  unfold parameterList
  infer_instance

instance : Moves m typeParameterName typeParameterName :=
  .bind inferInstance fun _ _ h => h.option inferInstance fun _ _ _ => inferInstance

instance : Moves m typeParameters typeParameters := by
  unfold typeParameters
  infer_instance

instance : Moves m baseTypes baseTypes := by
  unfold baseTypes
  infer_instance

instance : Moves m skipConstraints skipConstraints := by
  unfold skipConstraints
  infer_instance

set_option synthInstance.maxSize 4096 in
instance : Moves m declarationKind declarationKind := by
  unfold declarationKind
  infer_instance

instance : Moves m (typeHeader first attributes modifiers) (typeHeader first' attributes' modifiers') :=
  .bind inferInstance fun _ _ h => h.option inferInstance fun _ _ _ =>
    .bind inferInstance fun _ _ h => h.option inferInstance fun _ _ _ => inferInstance

/-! ## Members -/

instance : Moves m skipQualifierArgument skipQualifierArgument := by
  unfold skipQualifierArgument
  infer_instance

instance : Moves m memberName memberName :=
  .bind inferInstance fun _ _ h => h.option inferInstance fun _ _ _ => inferInstance

instance : Moves m skipMemberRest skipMemberRest := .get fun s hs => by
  rw [Layout.kind_cursor]
  split <;> exact Moves.reads s hs

instance {name name' : Ident} [m.Shifts name name'] : Moves m
    (memberBody first attributes modifiers type name) (memberBody first' attributes' modifiers' type' name') := by
  infer_instance

instance : Moves m (namedMember first attributes modifiers type)
    (namedMember first' attributes' modifiers' type') :=
  .bind inferInstance fun _ _ h => h.option inferInstance fun _ _ _ => inferInstance

instance : Moves m (memberRest first attributes modifiers type)
    (memberRest first' attributes' modifiers' type') := by
  unfold memberRest
  infer_instance

end

omit hfirst in
theorem typeKeywordAt_cursor (s : Cursor) (n : Nat) :
    (m.cursor s).typeKeywordAt n = s.typeKeywordAt n := by
  rw [Cursor.typeKeywordAt, Cursor.typeKeywordAt, Layout.peek_cursor, Layout.peek_cursor]

instance (s : Cursor) (n : Nat) : m.Shifts (s.typeKeywordAt n) ((m.cursor s).typeKeywordAt n) :=
  .plain (typeKeywordAt_cursor s n)

/-- The name of a constructor is a token: it was looked at before. -/
theorem moves_constructor {modifiers modifiers' : List Ident} [m.Shifts modifiers modifiers']
    {typeName : String} {s : Cursor} (hs : s.Within T) (hword : s.atWord typeName = true) :
    MovesAt m (constructor first modifiers typeName) (constructor first' modifiers' typeName) s := by
  have hname : s.kind.name? = some typeName := by simpa [Cursor.atWord, TokenKind.isWord] using hword
  have hident : MovesAt m (ident "a constructor name") (ident "a constructor name") s := Moves.reads s hs
  have : m.Shifts ((ident "a constructor name" s).1.getD ⟨typeName, first⟩)
      ((ident "a constructor name" (m.cursor s)).1.getD ⟨typeName, first'⟩) := by
    have hshifts := hident.shifts
    rw [ident_of_some hname, ident_of_some (s := m.cursor s) hname] at hshifts ⊢
    exact hshifts.of_some
  exact hident.bind (Moves.reads _ hident.within)

/-- The readers of nested types do the same in the layout. -/
class NestedMoves (m : Layout T) (nestedType nestedType' : TypeReader) : Prop where
  moves : ∀ {first first' : Span} {attributes attributes' : List AttributeList}
    {modifiers modifiers' : List Ident} [m.Shifts first first'] [m.Shifts attributes attributes']
    [m.Shifts modifiers modifiers'],
    Moves m (nestedType first attributes modifiers) (nestedType' first' attributes' modifiers')

section

variable {nestedType nestedType' : TypeReader}
  [hnested : NestedMoves m nestedType nestedType'] {typeName : String}

instance : Moves m (member nestedType typeName) (member nestedType' typeName) := by
  have := @hnested.moves
  refine .bind inferInstance fun first first' _ => .bind inferInstance fun attributes attributes' _ =>
    .bind inferInstance fun modifiers modifiers' _ => .get fun s hs => ?_
  rw [typeKeywordAt_cursor, Layout.peek_cursor]
  refine .ite Iff.rfl (fun _ => Moves.reads s hs) fun _ => .ite Iff.rfl (fun _ => Moves.reads s hs)
    fun _ => .ite Iff.rfl (fun hword => ?_) fun _ => Moves.reads s hs
  have hread : MovesAt m (constructor first modifiers typeName) (constructor first' modifiers' typeName) s :=
    moves_constructor hs (Bool.and_eq_true_iff.mp hword).1
  have := hread.shifts
  exact hread.bind (Moves.reads _ hread.within)

/-- Here a place decides whether something was read. -/
instance : Moves m (memberStep nestedType typeName) (memberStep nestedType' typeName) := by
  refine .bind inferInstance fun closed closed' h => ⟨fun s hs => .ite ?_ ?_ ?_⟩
  · obtain rfl := h.eq
    cases closed <;> exact Iff.rfl
  · exact fun _ => Moves.reads s hs
  · intro _
    refine MovesAt.bind (Moves.reads s hs) (Moves.readsAt ?_ hs)
    refine .bind inferInstance fun item item' _ => .get fun t ht => .ite ?_ (fun _ => Moves.reads t ht)
      fun _ => Moves.reads t ht
    show (decide (t.span.shift m.offset = s.span.shift m.offset) && _) = true ↔ _
    simp only [m.shift_inj ht.span hs.span]
    rfl

instance : Moves m (members nestedType typeName) (members nestedType' typeName) :=
  inferInstanceAs (Moves m (gatherWhile _ (memberStep _ _)) (gatherWhile _ (memberStep _ _)))

instance {kind kind' : DeclarationKind} [m.Shifts kind kind'] :
    Moves m (typeBody nestedType kind typeName) (typeBody nestedType' kind' typeName) :=
  .bind inferInstance fun _ _ h => h.option inferInstance fun _ _ _ => inferInstance

instance {header header' : DeclarationHeader} {members members' : List Member} {span span' : Span}
    [hheader : m.Shifts header header'] [hmembers : m.Shifts members members'] [hspan : m.Shifts span span'] :
    m.Shifts (TypeDeclaration.mk { header with span } members) (.mk { header' with span := span' } members') := by
  obtain rfl := hspan.eq
  refine ⟨?_, ?_⟩
  · rw [relocate_declaration, relocate_declaration, hmembers.same]
    exact congrArg (fun header : DeclarationHeader => TypeDeclaration.mk { header with span := _ } _) hheader.same
  · rw [places_declaration]
    exact counted_append (counted_append (List.forall_mem_append.mp hheader.counted).1 hspan.counted)
      hmembers.counted

instance : NestedMoves m (typeRest nestedType) (typeRest nestedType') where
  moves := .bind inferInstance fun header header' h => h.option inferInstance fun header header' h => by
    obtain rfl := Shifts.eq h
    infer_instance

end

instance (levels : Nat) : NestedMoves m (typeRestWithin levels) (typeRestWithin levels) := by
  induction levels with
  | zero => exact ⟨inferInstanceAs (Moves m (refuse _) (refuse _))⟩
  | succ levels ih =>
    have := @NestedMoves.moves _ m (typeRest (typeRestWithin levels)) (typeRest (typeRestWithin levels)) _
    exact ⟨inferInstanceAs (Moves m (nested _ _) (nested _ _))⟩

instance : Moves m typeDeclaration typeDeclaration := by
  have := @NestedMoves.moves _ m (typeRestWithin maxNesting) (typeRestWithin maxNesting) _
  infer_instance

end Read

/-! ## Units -/

def UnitItem.relocate (g : Place → Span) : UnitItem → UnitItem
  | .using directive => .using (Placed.relocate g directive)
  | .member one => .member (Placed.relocate g one)
  | .fileScope name first => .fileScope (Placed.relocate g name) (g (.node first))

instance : Placed UnitItem where
  relocate := UnitItem.relocate
  places
    | .using directive => Placed.places directive
    | .member one => Placed.places one
    | .fileScope name first => Placed.places name ++ [.node first]

section

variable {T : List Token} {m : Layout T} {s : Cursor}

section

variable {span span' : Span} {name name' : List Ident} [hspan : m.Shifts span span'] [hname : m.Shifts name name']

instance : m.Shifts (UnitItem.fileScope name span) (.fileScope name' span') :=
  ⟨(congr (congrArg UnitItem.fileScope hname.same) hspan.same :), counted_append hname.counted hspan.counted⟩

instance {directive directive' : UsingDirective} [h : m.Shifts directive directive'] :
    m.Shifts (UnitItem.using directive) (.using directive') := ⟨congrArg UnitItem.using h.same, h.counted⟩

instance {one one' : UnitMember} [h : m.Shifts one one'] :
    m.Shifts (UnitItem.member one) (.member one') := ⟨congrArg UnitItem.member h.same, h.counted⟩

instance {d d' : TypeDeclaration} [h : m.Shifts d d'] : m.Shifts (UnitMember.type d) (.type d') :=
  ⟨congrArg UnitMember.type h.same, h.counted⟩

instance (fileScoped : Bool) {usings usings' : List UsingDirective} {members members' : List UnitMember}
    [husings : m.Shifts usings usings'] [hmembers : m.Shifts members members'] :
    m.Shifts (UnitMember.scope ⟨name, fileScoped, usings, span⟩ members)
      (.scope ⟨name', fileScoped, usings', span'⟩ members') := by
  refine ⟨?_, ?_⟩
  · rw [relocate_scope, relocate_scope, hmembers.same]
    exact congrArg (UnitMember.scope · _)
      (congr (congr (congrArg (NamespaceHeader.mk · fileScoped) hname.same) husings.same) hspan.same :)
  · rw [places_scope]
    exact counted_append (counted_append (counted_append hname.counted husings.counted) hspan.counted)
      hmembers.counted

theorem UnitItem.shifts_assemble (hs : s.Within T) {items items' : List UnitItem}
    (h : m.Shifts items items') :
    m.Shifts (assemble s.previousStop items) (assemble (m.cursor s).previousStop items') := by
  refine h.list (motive := fun items items' => m.Shifts (assemble s.previousStop items)
    (assemble (m.cursor s).previousStop items')) (inferInstanceAs (m.Shifts ([], []) ([], [])))
    fun item item' items items' hitem _ ih => ?_
  obtain ⟨husings, hmembers⟩ := ih.pair
  cases item <;> cases item' <;> try cases hitem.same
  case using.using directive directive' =>
    have : m.Shifts directive directive' := ⟨UnitItem.using.inj hitem.same, hitem.counted⟩
    exact inferInstanceAs (m.Shifts (directive :: _, _) (directive' :: _, _))
  case member.member one one' =>
    have : m.Shifts one one' := ⟨UnitItem.member.inj hitem.same, hitem.counted⟩
    exact inferInstanceAs (m.Shifts (_, one :: _) (_, one' :: _))
  case fileScope.fileScope name first name' first' =>
    obtain ⟨hname, hfirst⟩ := List.forall_mem_append.mp hitem.counted
    have : m.Shifts name name' := ⟨(UnitItem.fileScope.inj hitem.same).1, hname⟩
    have : m.Shifts first first' := ⟨(UnitItem.fileScope.inj hitem.same).2, hfirst⟩
    have : m.Shifts (s.spanFrom first) ((m.cursor s).spanFrom first') :=
      ((inferInstance : Read.Moves m (Read.spanFrom first) (Read.spanFrom first')).reads s hs).shifts
    exact inferInstanceAs (m.Shifts ([], [UnitMember.scope ⟨name, true, _, s.spanFrom first⟩ _])
      ([], [UnitMember.scope ⟨name', true, _, (m.cursor s).spanFrom first'⟩ _]))

end

namespace Read

instance : Moves m usingAlias usingAlias := by
  refine .get fun s hs => ?_
  rw [Layout.peek_cursor]
  refine .ite Iff.rfl (fun _ => ?_) fun _ => Moves.reads s hs
  refine Moves.readsAt (.bind inferInstance fun _ _ h => ?_) hs
  exact h.option inferInstance fun _ _ _ => inferInstance

instance : Moves m usingDirective usingDirective := by
  unfold usingDirective
  infer_instance

instance : Moves m namespaceName namespaceName :=
  .bind inferInstance fun _ _ h => h.option inferInstance fun _ _ _ => inferInstance

theorem atUsing_cursor (s : Cursor) : (m.cursor s).atUsing = s.atUsing := by
  have hpeek : (m.cursor s).peek = s.peek := funext (m.peek_cursor s)
  unfold Cursor.atUsing
  rw [hpeek]
  rfl

theorem atAssemblyAttribute_cursor (s : Cursor) :
    (m.cursor s).atAssemblyAttribute = s.atAssemblyAttribute := by
  rw [Cursor.atAssemblyAttribute, Cursor.atAssemblyAttribute, Layout.kind_cursor, Layout.peek_cursor,
    Layout.peek_cursor]

theorem groupLength_map (m : Layout T) (depth : Nat) (tokens : List Token) :
    groupLength depth (tokens.map m.token) = groupLength depth tokens := by
  induction tokens generalizing depth with
  | nil => rfl
  | cons t tokens ih =>
    simp only [List.map_cons, groupLength, ih]
    rfl

theorem attributesLength_map (m : Layout T) (tokens : List Token) :
    attributesLength (tokens.map m.token) = attributesLength tokens := by
  induction hn : tokens.length using Nat.strongRecOn generalizing tokens with
  | _ n ih =>
    cases tokens with
    | nil => rfl
    | cons t tokens =>
      rw [List.map_cons, attributesLength, attributesLength, Layout.kind_token, ← List.map_cons,
        groupLength_map]
      dsimp only
      rw [← List.map_drop, ih _ ?_ _ rfl]
      simp only [← hn, List.length_drop, List.length_cons]
      omega

theorem atTypeDeclaration_cursor (s : Cursor) :
    (m.cursor s).atTypeDeclaration = s.atTypeDeclaration := by
  simp only [Cursor.atTypeDeclaration, typeKeywordAt_cursor, Layout.tokens_cursor,
    attributesLength_map, ← List.map_drop, List.takeWhile_map, List.length_map]
  rfl

instance (s : Cursor) : m.Shifts s.atUsing (m.cursor s).atUsing := .plain (atUsing_cursor s)
instance (s : Cursor) : m.Shifts s.atAssemblyAttribute (m.cursor s).atAssemblyAttribute :=
  .plain (atAssemblyAttribute_cursor s)
instance (s : Cursor) : m.Shifts s.atTypeDeclaration (m.cursor s).atTypeDeclaration :=
  .plain (atTypeDeclaration_cursor s)

section

variable {block block' : Read (Option (List UnitItem))} [Moves m block block']

instance : Moves m (namespaceItem block) (namespaceItem block') := by
  refine .bind inferInstance fun first first' _ => .bind inferInstance fun _ _ h =>
    h.option inferInstance fun name name' _ => ?_
  refine .bind inferInstance fun semicolon semicolon' _ => ⟨fun s hs => .ite (Correspondence.Keeps.iff m.corr)
    (fun _ => Moves.reads s hs) fun _ => Moves.readsAt ?_ hs⟩
  refine .bind inferInstance fun opening opening' _ => ⟨fun s hs => .ite (Correspondence.Keeps.iff m.corr)
    (fun _ => Moves.reads s hs) fun _ => Moves.readsAt ?_ hs⟩
  refine .bind inferInstance fun _ _ h => h.option inferInstance fun items items' hitems => .get fun s hs => ?_
  have hbody := UnitItem.shifts_assemble hs hitems
  obtain ⟨husings, hmembers⟩ := hbody.pair
  exact Moves.reads s hs

end

instance (levels : Nat) : Moves m (blockWithin levels) (blockWithin levels) := by
  induction levels with
  | zero =>
    unfold blockWithin
    infer_instance
  | succ levels ih =>
    unfold blockWithin
    infer_instance

instance : Moves m unitBody unitBody :=
  .bind inferInstance fun _ _ h => .get fun _ hs => .pure (UnitItem.shifts_assemble hs h) hs

/-- A whole unit is read from the first token on. -/
theorem moves_sourceUnit (hs : s.Within T) (hT : s.tokens = T) :
    MovesAt m sourceUnit sourceUnit s := by
  have hle (u : Token) (hu : u ∈ T) : s.span.start ≤ u.span.stop := by
    have hvalid := m.valid u hu
    have ho := m.ordered
    rw [← hT] at hu ho
    rcases List.mem_cons.mp hu with rfl | hu
    · exact hvalid
    · have := Ordered.start_lt (u := [s.current]) ho List.mem_cons_self hu
      exact Nat.le_trans (Nat.le_of_lt this) hvalid
  refine MovesAt.bind (Moves.reads s hs) (Moves.readsAt ?_ hs)
  refine .bind inferInstance fun body body' hbody => .bind inferInstance fun more more' hmore => ?_
  have hparts : m.Shifts (body :: more) (body' :: more') := inferInstance
  have husings := hparts.flatMap fun _ _ h => h.pair.1
  have hmembers := hparts.flatMap fun _ _ h => h.pair.2
  refine ⟨fun t ht => MovesAt.bind (Moves.reads t ht) (.pure ⟨?_, ?_⟩ ht)⟩
  · exact (congr (congr (congrArg SourceUnit.mk husings.same) hmembers.same) rfl :)
  · exact counted_append (counted_append husings.counted hmembers.counted)
      (List.forall_mem_singleton.mpr (.whole hs.current_mem ht.current_mem (hle _ ht.current_mem)))

end Read

end

/-! ## Token lists -/

section

variable {T : List Token}

theorem Token.span_of_error? {t : Token} {e : SyntaxError} (h : t.error? = some e) :
    e.span = t.span := by
  cases hk : t.kind <;> simp only [Token.error?, hk, Option.some.injEq, reduceCtorEq] at h
  rw [← h]

theorem Cursor.within_ofTokens (h : EndsInEof T) : (ofTokens T).Within T := by
  obtain ⟨first, rest, rfl⟩ := List.exists_cons_of_ne_nil h.ne_nil
  rw [ofTokens_cons h]
  refine ⟨List.suffix_rfl, fun _ => rfl, by simp, fun e he => ?_⟩
  obtain ⟨t, ht, herror⟩ := List.mem_filterMap.mp he
  exact Token.span_of_error? herror ▸ .token ht

theorem Layout.ofTokens_map (m : Layout T) (h : EndsInEof T) :
    Cursor.ofTokens (T.map m.token) = m.cursor (.ofTokens T) := by
  have herror (t : Token) : (m.token t).error? = t.error?.map m.error := by
    rw [Token.error?, Token.error?, Layout.kind_token]
    split <;> rfl
  have hmap : EndsInEof (T.map m.token) := by
    obtain ⟨last, hlast, heof⟩ := h
    exact ⟨m.token last, by rw [List.getLast?_map, hlast]; rfl, heof⟩
  have herrors : (T.map m.token).filterMap Token.error? = (T.filterMap Token.error?).map m.error := by
    rw [List.filterMap_map, List.map_filterMap]
    exact congrArg (List.filterMap · T) (funext herror)
  obtain ⟨first, rest, rfl⟩ := List.exists_cons_of_ne_nil h.ne_nil
  rw [Cursor.ofTokens_cons h, List.map_cons, Cursor.ofTokens_cons hmap, ← List.map_cons, herrors]
  rfl

/-- Other places for the tokens give the same unit and the same errors at other places. -/
theorem SourceUnit.ofTokens_map (m : Layout T) (h : EndsInEof T) :
    SourceUnit.ofTokens (T.map m.token) =
      (relocate m.place (SourceUnit.ofTokens T).1, (SourceUnit.ofTokens T).2.map m.error) := by
  have hmoves := Read.moves_sourceUnit (m := m) (Cursor.within_ofTokens h) (Cursor.tokens_ofTokens h)
  rw [SourceUnit.ofTokens, SourceUnit.read, m.ofTokens_map h]
  exact Prod.ext hmoves.shifts.eq (congrArg Cursor.errors hmoves.cursor)

/-- Every place of the unit is made from the tokens, and every error is at a token. -/
theorem SourceUnit.within_ofTokens (m : Layout T) (h : EndsInEof T) :
    Placed.Within T (SourceUnit.ofTokens T).1 ∧
      ∀ e ∈ (SourceUnit.ofTokens T).2, e.span.Rooted T := by
  have hmoves := Read.moves_sourceUnit (m := m) (Cursor.within_ofTokens h) (Cursor.tokens_ofTokens h)
  exact ⟨hmoves.shifts.counted, hmoves.within.errors⟩

end

end SettingsLint
