import SettingsLint.Main

/-! # Readers move forward

Whatever it meets, a reader leaves the cursor at a later place of the same token list:
it takes tokens from the front and never puts one back, it remembers where the last of
them ended, it closes every level of nesting that it opened, and it only ever adds to
the errors. `Read.Forward` says this of a reader; the lemmas below say it of all of them.
-/

namespace SettingsLint

/-- The cursor `t` is reached from `s` by reading. -/
structure Cursor.Reaches (s t : Cursor) : Prop where
  /-- Some tokens have been read, and the end of the last one is remembered. -/
  read : ∃ u, s.tokens = u ++ t.tokens ∧
    t.lastStop = (u.getLast?.map (·.span.stop)).or s.lastStop
  depth : t.depth = s.depth
  errors : s.errors <+: t.errors
  /-- No `eof` has been passed. -/
  passed : ∀ u, s.tokens = u ++ t.tokens → ∀ x ∈ u, x.kind ≠ .eof

namespace Cursor.Reaches

variable {s t : Cursor}

theorem refl (s : Cursor) : s.Reaches s :=
  ⟨⟨[], by simp⟩, rfl, List.prefix_rfl, fun u hu => by simp [List.self_eq_append_left.mp hu]⟩

theorem trans {s t r : Cursor} (h : s.Reaches t) (g : t.Reaches r) : s.Reaches r := by
  obtain ⟨u, hu, hstop⟩ := h.read
  obtain ⟨w, hw, gstop⟩ := g.read
  have hall : s.tokens = (u ++ w) ++ r.tokens := by rw [hu, hw, List.append_assoc]
  refine ⟨⟨u ++ w, hall, ?_⟩, g.depth.trans h.depth, h.errors.trans g.errors, fun v hv => ?_⟩
  · rw [gstop, hstop, List.getLast?_append, Option.map_or, Option.or_assoc]
  · obtain rfl : v = u ++ w := List.append_cancel_right (hv.symm.trans hall)
    exact List.forall_mem_append.mpr ⟨h.passed u hu, g.passed w hw⟩

/-- What is left to read later is left to read before. -/
theorem suffix (h : s.Reaches t) : t.tokens <:+ s.tokens := by
  obtain ⟨u, hu, -⟩ := h.read
  exact ⟨u, hu.symm⟩

theorem size_le (h : s.Reaches t) : t.size ≤ s.size := by
  have := h.suffix.length_le
  simpa [Cursor.tokens, Cursor.size] using this

/-- Without errors at the end there were none on the way. -/
theorem clean (h : s.Reaches t) (ht : t.errors = []) : s.errors = [] :=
  List.prefix_nil.mp (ht ▸ h.errors)

theorem advance (s : Cursor) : s.Reaches s.advance := by
  unfold Cursor.advance
  split
  · exact refl s
  · next hend =>
    cases hs : s.ahead with
    | nil => simpa [hs] using refl s
    | cons next rest =>
      refine ⟨⟨[s.current], ?_, ?_⟩, rfl, List.prefix_rfl, fun u hu => ?_⟩
      · simp [Cursor.tokens, hs]
      · simp [Cursor.span]
      · have hone : s.tokens = [s.current] ++ next :: rest := by simp [Cursor.tokens, hs]
        obtain rfl : u = [s.current] := List.append_cancel_right (hu.symm.trans hone)
        refine List.forall_mem_singleton.mpr fun heof => hend ?_
        rw [Cursor.atEnd, Cursor.kind, heof]
        rfl

theorem report (s : Cursor) (fault : SyntaxFault) (span : Span) :
    s.Reaches (s.report fault span) :=
  ⟨⟨[], by simp [Cursor.report, Cursor.tokens]⟩, rfl, List.prefix_append _ _, (refl s).passed⟩

end Cursor.Reaches

/-- The reader leaves every cursor at a later place. -/
class Read.Forward (r : Read α) : Prop where
  reaches : ∀ s : Cursor, s.Reaches (r s).2

namespace Read

variable {s : Cursor}

/-! ## Single steps -/

instance (a : α) : Forward (pure a : Read α) := ⟨Cursor.Reaches.refl⟩
instance : Forward (get : Read Cursor) := ⟨Cursor.Reaches.refl⟩
instance : Forward Read.kind := ⟨Cursor.Reaches.refl⟩
instance : Forward Read.span := ⟨Cursor.Reaches.refl⟩
instance (first : Span) : Forward (spanFrom first) := ⟨Cursor.Reaches.refl⟩
instance : Forward advance := ⟨Cursor.Reaches.advance⟩
instance (fault : SyntaxFault) (span : Span) : Forward (report fault span) :=
  ⟨fun s => .report s fault span⟩
instance (what : String) : Forward (expected what) := ⟨fun s => .report s _ _⟩

instance (r : Read α) (f : α → Read β) [hr : Forward r] [hf : ∀ a, Forward (f a)] :
    Forward (r >>= f) := ⟨fun s => (hr.reaches s).trans ((hf _).reaches _)⟩

theorem bind_apply (r : Read α) (f : α → Read β) (s : Cursor) :
    (r >>= f) s = f (r s).1 (r s).2 := rfl

theorem get_bind (f : Cursor → Read α) (s : Cursor) : (get >>= f) s = f s s := rfl

theorem kind_bind (f : TokenKind → Read α) (s : Cursor) : (kind >>= f) s = f s.kind s := rfl

/-- Without errors at the end of both, the first reader made none. -/
theorem clean_of_bind {r : Read α} {f : α → Read β} [hf : ∀ a, Forward (f a)]
    (h : ((r >>= f) s).2.errors = []) : (r s).2.errors = [] :=
  ((hf _).reaches _).clean h

instance (r : Read α) (f : α → β) [hr : Forward r] : Forward (f <$> r) :=
  ⟨fun s => hr.reaches s⟩

instance (c : Prop) [Decidable c] (r q : Read α) [hr : Forward r] [hq : Forward q] :
    Forward (if c then r else q) := by
  split
  · exact hr
  · exact hq

instance (o : Option α) (r : Read β) (f : α → Read β) [hr : Forward r] [hf : ∀ a, Forward (f a)] :
    Forward (o.elim r f) := by
  cases o with
  | none => exact hr
  | some a => exact hf a

instance (kind : TokenKind) : Forward (eat kind) := by
  unfold eat
  infer_instance

instance (word : String) : Forward (eatWord word) := by
  unfold eatWord
  infer_instance

theorem Forward.bind {r : Read α} {f : α → Read β} (hr : Forward r) (hf : ∀ a, Forward (f a)) :
    Forward (r >>= f) := inferInstance

instance (kind : TokenKind) (what : String) : Forward (expect kind what) :=
  .bind inferInstance fun found => by cases found <;> infer_instance

instance (what : String) : Forward (ident what) :=
  .bind inferInstance fun s => by cases s.kind.name? <;> infer_instance

/-! ## Loops and nesting -/

instance (goOn : Cursor → Bool) (step : Read Unit) [h : Forward step] :
    Forward (whileDo goOn step) := by
  refine ⟨fun s => ?_⟩
  fun_induction Read.whileDo goOn step s with
  | case1 s _ next _ ih => exact (h.reaches s).trans ih
  | case2 s _ next _ => exact h.reaches s
  | case3 s _ => exact .refl s

instance (step : Read (Option α × Bool)) [h : Forward step] : Forward (gather step) := by
  refine ⟨fun s => ?_⟩
  fun_induction Read.gather step s with
  | case1 s item again next hs _ items last hrest ih =>
    have := h.reaches s
    rw [hs] at this
    exact this.trans (by simpa [hrest] using ih)
  | case2 s item again next hs _ =>
    have := h.reaches s
    rwa [hs] at this

theorem Forward.gather {step : Read (Option α × Bool)} (h : Forward step) :
    Forward (Read.gather step) := inferInstance

instance (goOn : Cursor → Bool) (step : Read (Option α)) [Forward step] :
    Forward (gatherWhile goOn step) := by
  unfold gatherWhile
  infer_instance

/-- Within the limit, `nested` runs the body one level deeper. -/
theorem nested_of_lt {body instead : Read α} (h : s.depth < maxNesting) :
    nested body instead s =
      ((body { s with depth := s.depth + 1 }).1,
        { (body { s with depth := s.depth + 1 }).2 with
          depth := (body { s with depth := s.depth + 1 }).2.depth - 1 }) := by
  rw [nested, get_bind, if_neg (Nat.not_le.mpr h)]
  rfl

/-- At the limit, `nested` refuses the body. -/
theorem nested_of_le {body instead : Read α} (h : maxNesting ≤ s.depth) :
    nested body instead s = refuse instead s := by
  rw [nested, get_bind, if_pos h]

instance (instead : Read α) [Forward instead] : Forward (refuse instead) := by
  unfold refuse
  infer_instance

/-- What goes on after a report has errors. -/
theorem errors_ne_nil_of_report {r : Read α} [hr : Forward r] (fault : SyntaxFault)
    (place : Span) : (r (s.report fault place)).2.errors ≠ [] := by
  intro hclean
  have hreport := (hr.reaches _).clean hclean
  simp [Cursor.report] at hreport

/-- What is refused is reported. -/
theorem refuse_ne_clean (instead : Read α) [Forward instead] (s : Cursor) :
    (refuse instead s).2.errors ≠ [] := errors_ne_nil_of_report _ _

instance (body instead : Read α) [h : Forward body] [Forward instead] :
    Forward (nested body instead) := by
  refine ⟨fun s => ?_⟩
  rcases Nat.lt_or_ge s.depth maxNesting with shallow | deep
  · rw [nested_of_lt shallow]
    obtain ⟨read, depth, errors, passed⟩ := h.reaches { s with depth := s.depth + 1 }
    exact ⟨read, by simp [depth], errors, passed⟩
  · rw [nested_of_le deep]
    exact Forward.reaches s

/-! ## Skipping -/

theorem reaches_skipOpened (opened : List (TokenKind × Span)) (s : Cursor) :
    s.Reaches (skipOpened opened s) := by
  fun_induction skipOpened opened s with
  | case1 => exact .report _ _ _
  | case2 => exact .refl _
  | case3 opened s _ _ next _ => exact .advance s
  | case4 opened s _ _ next _ _ ih => exact (Cursor.Reaches.advance s).trans ih
  | case5 opened s _ _ next _ _ => exact .advance s

instance : Forward skipGroup := ⟨reaches_skipOpened []⟩

instance : Forward skipBody :=
  .bind inferInstance fun _ => .bind inferInstance fun s => by cases s.kind <;> infer_instance

set_option synthInstance.maxSize 1024

/-! ## Types -/

instance (item : Span → α) : Forward (commas item) :=
  .gather (.bind inferInstance fun comma => by cases comma <;> infer_instance)

instance (argument : Read TypeExpr) [Forward argument] : Forward (segmentArguments argument) := by
  unfold segmentArguments
  infer_instance

instance : Forward separator := by
  unfold separator
  infer_instance

instance (argument : Read TypeExpr) [Forward argument] : Forward (nameSegment argument) :=
  .bind inferInstance fun name => by cases name <;> infer_instance

instance (argument : Read TypeExpr) [Forward argument] : Forward (qualifiedName argument) := by
  unfold qualifiedName
  infer_instance

instance (first : Span) (type : TypeExpr) : Forward (typeSuffixes.oneSuffix first type) := by
  unfold typeSuffixes.oneSuffix
  infer_instance

/-- The suffixes of a type are the next one and the ones after it. -/
theorem typeSuffixes_eq (first : Span) (type : TypeExpr) (s : Cursor) :
    typeSuffixes first type s =
      let one := typeSuffixes.oneSuffix first type s
      match one.1 with
      | some type =>
        if one.2.size < s.size then typeSuffixes first type one.2 else (type, one.2)
      | none => (type, one.2) := by
  rw [typeSuffixes]
  rfl

instance (first : Span) (type : TypeExpr) : Forward (typeSuffixes first type) := by
  refine ⟨fun s => ?_⟩
  induction h : s.size using Nat.strongRecOn generalizing s type with
  | _ n ih =>
    have one := Forward.reaches (r := typeSuffixes.oneSuffix first type) s
    rw [typeSuffixes_eq]
    dsimp only
    split
    · split
      · exact one.trans (ih _ (h ▸ ‹_›) _ _ rfl)
      · exact one
    · exact one

instance (argument : Read TypeExpr) [Forward argument] (first : Span) :
    Forward (typeExprWith argument first) := by
  unfold typeExprWith
  infer_instance

instance (levels : Nat) : Forward (typeExprWithin levels) := by
  induction levels with
  | zero =>
    unfold typeExprWithin
    infer_instance
  | succ levels ih =>
    unfold typeExprWithin
    infer_instance

instance : Forward typeExpr := by
  unfold typeExpr
  infer_instance

/-! ## Attributes -/

instance : Forward argumentName := by
  refine .bind inferInstance fun s => ?_
  split
  · split
    · exact .bind inferInstance fun name => by cases name <;> infer_instance
    · infer_instance
  · infer_instance

instance (first : Span) : Forward (typeOfValue first) := by
  unfold typeOfValue
  infer_instance

instance (first : Span) (kind : LiteralKind) (text : String) :
    Forward (literalValue first kind text) := by
  unfold literalValue
  infer_instance

instance : Forward argumentValue := by
  refine .bind inferInstance fun s => ?_
  split
  · infer_instance
  · split <;> infer_instance

instance (closing : TokenKind) (item : Read (Option α)) [Forward item] :
    Forward (listItem closing item) := by
  refine .bind inferInstance fun s => ?_
  split
  · infer_instance
  · exact .bind inferInstance fun o => by cases o <;> infer_instance

instance : Forward argumentList :=
  .bind inferInstance fun _ => .bind inferInstance fun _ => .bind inferInstance fun closing => by
    cases closing <;> infer_instance

instance : Forward namedAttribute := by
  unfold namedAttribute
  infer_instance

instance : Forward attributeList := by
  unfold attributeList
  infer_instance

instance : Forward attributeLists := by
  unfold attributeLists
  infer_instance

/-! ## Declarations -/

instance (first : Span) (modifiers : List Ident) (type : TypeExpr) :
    Forward (parameterRest first modifiers type) :=
  .bind inferInstance fun name => by cases name <;> infer_instance

instance : Forward parameterList := by
  unfold parameterList
  infer_instance

instance : Forward typeParameterName :=
  .bind inferInstance fun name => by cases name <;> infer_instance

instance : Forward typeParameters := by
  unfold typeParameters
  infer_instance

instance : Forward baseTypes := by
  unfold baseTypes
  infer_instance

instance : Forward skipConstraints := by
  unfold skipConstraints
  infer_instance

instance : Forward declarationKind := by
  unfold declarationKind
  infer_instance

instance : Forward skipQualifierArgument := by
  unfold skipQualifierArgument
  infer_instance

instance : Forward memberName :=
  .bind inferInstance fun name => by cases name <;> infer_instance

instance (first : Span) (modifiers : List Ident) (typeName : String) :
    Forward (constructor first modifiers typeName) := by
  unfold constructor
  infer_instance

instance : Forward skipMemberRest := by
  refine .bind inferInstance fun s => ?_
  split <;> infer_instance

section

variable (first : Span) (attributes : List AttributeList) (modifiers : List Ident)
  (type : TypeExpr)

instance : Forward (namedMember first attributes modifiers type) :=
  .bind inferInstance fun name => by cases name <;> infer_instance

instance : Forward (memberRest first attributes modifiers type) := by
  unfold memberRest
  infer_instance

end

instance (first : Span) (attributes : List AttributeList) (modifiers : List Ident) :
    Forward (typeHeader first attributes modifiers) := by
  refine .bind inferInstance fun kind => ?_
  cases kind with
  | none => infer_instance
  | some kind => exact .bind inferInstance fun name => by cases name <;> infer_instance

section

variable (nestedType : TypeReader)
  [∀ first attributes modifiers, Forward (nestedType first attributes modifiers)]

instance (typeName : String) : Forward (member nestedType typeName) := by
  unfold member
  infer_instance

/-- One round of reading members. A member that reads nothing is stepped over. -/
def memberStep (nestedType : TypeReader) (typeName : String) : Read (Option Member) := do
  if (← eat .semicolon).isSome then return none
  else
    let start ← span
    let item ← member nestedType typeName
    let s ← get
    if s.span = start && !s.atEnd then
      let _ ← advance
    return item

instance (typeName : String) : Forward (memberStep nestedType typeName) := by
  unfold memberStep
  infer_instance

instance (typeName : String) : Forward (members nestedType typeName) := by
  unfold members
  infer_instance

instance (kind : DeclarationKind) (typeName : String) :
    Forward (typeBody nestedType kind typeName) :=
  .bind inferInstance fun opening => by cases opening <;> infer_instance

instance (first : Span) (attributes : List AttributeList) (modifiers : List Ident) :
    Forward (typeRest nestedType first attributes modifiers) :=
  .bind inferInstance fun header => by cases header <;> infer_instance

end

instance (levels : Nat) (first : Span) (attributes : List AttributeList)
    (modifiers : List Ident) : Forward (typeRestWithin levels first attributes modifiers) := by
  induction levels generalizing first attributes modifiers with
  | zero =>
    unfold typeRestWithin
    infer_instance
  | succ levels ih =>
    unfold typeRestWithin
    infer_instance

/-! ## Units -/

instance : Forward usingAlias := by
  refine .bind inferInstance fun s => ?_
  split
  · exact .bind inferInstance fun name => by cases name <;> infer_instance
  · infer_instance

instance : Forward usingDirective := by
  unfold usingDirective
  infer_instance

instance : Forward namespaceName :=
  .bind inferInstance fun first => by cases first <;> infer_instance

section

variable (block : Read (Option (List UnitItem))) [Forward block]

instance : Forward (namespaceItem block) := by
  refine .bind inferInstance fun first => .bind inferInstance fun name => ?_
  cases name with
  | none => infer_instance
  | some name =>
    refine .bind inferInstance fun _ => ?_
    split
    · infer_instance
    · refine .bind inferInstance fun _ => ?_
      split
      · infer_instance
      · exact .bind inferInstance fun items => by cases items <;> infer_instance

end

instance (levels : Nat) : Forward (blockWithin levels) := by
  induction levels with
  | zero =>
    unfold blockWithin
    infer_instance
  | succ levels ih =>
    unfold blockWithin
    infer_instance

instance : Forward unitBody := by
  unfold unitBody
  infer_instance

/-- A brace that closes nothing, and the part of the unit after it. -/
def strayBody : Read (Option (List UsingDirective × List UnitMember)) := do
  let stray ← advance
  report (.expected "a declaration" "\x7d") stray
  return some (← unitBody)

instance : Forward strayBody := by
  unfold strayBody
  infer_instance

instance : Forward sourceUnit := by
  unfold sourceUnit
  infer_instance

end Read

end SettingsLint
