import SettingsLint.Proofs.Reading.Extent

/-! # Members part by part

A member is read in two parts: its attributes and modifiers, and what follows them. What
follows decides whether it is a type, a property or something else. The members of a type
are read in rounds, and every round takes a token.
-/

set_option synthInstance.maxSize 1024

namespace SettingsLint

theorem TokenKind.eq_identifier {k : TokenKind} {name : String} (h : k.name? = some name) :
    k = .identifier name := by
  cases k <;> cases h
  rfl

/-- The cursor after the target of a list. -/
def Cursor.afterTarget (s : Cursor) : Cursor := (Read.attributeTarget (Read.advance s).2).2

namespace Read

/-! ## Attribute lists -/

section

variable {s : Cursor}

/-- The attributes between the brackets. -/
abbrev attributes : Read (List Attribute) := gather (listItem .rightBracket attributeItem)

/-- A list after its attributes. Without its bracket it is read up to a place to go on from. -/
def closeAttributes (first : Span) (target : Option Ident) (attributes : List Attribute)
    (closing : Option Span) : Read AttributeList := do
  if closing.isNone then
    whileDo
      (fun s => !s.atEnd && s.kind ≠ .rightBracket && s.kind ≠ .leftBrace && s.kind ≠ .semicolon)
      (do if (← kind) = .leftParen then skipGroup else let _ ← advance)
    let _ ← eat .rightBracket
  return ⟨target, attributes, ← spanFrom first⟩

instance (first : Span) (target : Option Ident) (attributes : List Attribute) (closing : Option Span) :
    Forward (closeAttributes first target attributes closing) := by
  unfold closeAttributes
  infer_instance

theorem attributeList_eq (s : Cursor) : attributeList s = (expect .rightBracket "`]`" >>=
    closeAttributes s.span (attributeTarget (advance s).2).1 (attributes s.afterTarget).1)
      (attributes s.afterTarget).2 := rfl

theorem attributeList_of_closed (hk : (attributes s.afterTarget).2.kind = .rightBracket) :
    attributeList s = (⟨(attributeTarget (advance s).2).1, (attributes s.afterTarget).1,
      (advance (attributes s.afterTarget).2).2.spanFrom s.span⟩,
      (advance (attributes s.afterTarget).2).2) := by
  rw [attributeList_eq, bind_apply, expect_of_eq hk]
  rfl

theorem kind_of_attributeList_clean (hclean : (attributeList s).2.errors = []) :
    (attributes s.afterTarget).2.kind = .rightBracket := by
  refine Classical.byContradiction fun hk => ?_
  rw [attributeList_eq, bind_apply, expect_of_ne hk] at hclean
  exact absurd ((Forward.reaches _).clean hclean)
    (List.append_ne_nil_of_right_ne_nil _ (List.cons_ne_nil _ _))

theorem attributeLists_of_stop (hk : s.kind ≠ .leftBracket) : attributeLists s = ([], s) :=
  gatherWhile_of_stop (by simpa using hk)

theorem attributeLists_of_go (hk : s.kind = .leftBracket)
    (hlt : (attributeList s).2.size < s.size) :
    attributeLists s = ((attributeList s).1 :: (attributeLists (attributeList s).2).1,
      (attributeLists (attributeList s).2).2) := by
  rw [attributeLists, gatherWhile_of_go (by simpa using hk)]
  exact if_pos hlt

theorem size_attributeList_lt (hs : EndsInEof s.tokens) (hk : s.kind = .leftBracket) :
    (attributeList s).2.size < s.size := by
  have hreach : (advance s).2.Reaches (attributeList s).2 := Forward.reaches
    (r := attributeTarget >>= fun target => attributes >>= fun attributes =>
      expect .rightBracket "`]`" >>= closeAttributes s.span target attributes) (advance s).2
  exact Nat.lt_of_le_of_lt hreach.size_le (size_advance_lt (hk ▸ by decide) hs)

/-- After the attribute lists no other one starts. -/
theorem kind_attributeLists (hs : EndsInEof s.tokens) :
    (attributeLists s).2.kind ≠ .leftBracket :=
  of_decide_eq_false (goOn_gatherWhile
    (fun _ hs hk => size_attributeList_lt hs (of_decide_eq_true hk)) hs)

end

/-! ## The parts of a member -/

/-- The attributes and modifiers of a member, and the place of its first token. -/
def memberHead : Read (Span × List AttributeList × List Ident) := do
  let first ← span
  let attributes ← attributeLists
  let modifiers ← modifiers
  return (first, attributes, modifiers)

/-- A member that is no type, after its attributes and modifiers. -/
def plainMember (typeName : String) (first : Span) (attributes : List AttributeList)
    (modifiers : List Ident) : Read (Option Member) := do
  let s ← get
  if s.atWord "event" || s.atWord "delegate" || s.kind = .operator '~' then
    skipBody
    return some (← otherMember first)
  else if s.atWord typeName && s.peek 1 = .leftParen then
    return some (.constructor (← constructor first modifiers typeName))
  else return some (← typedMember first attributes modifiers)

variable {nestedType : TypeReader} {typeName : String} {s : Cursor}

instance : Forward memberHead := by
  unfold memberHead
  infer_instance

instance (first : Span) (attributes : List AttributeList) (mods : List Ident) :
    Forward (plainMember typeName first attributes mods) := by
  unfold plainMember
  infer_instance

/-- A member after its attributes and modifiers. -/
def memberAfter (nestedType : TypeReader) (typeName : String)
    (head : Span × List AttributeList × List Ident) : Read (Option Member) := do
  if (← get).typeKeywordAt 0 then Option.map .nested <$> nestedType head.1 head.2.1 head.2.2
  else plainMember typeName head.1 head.2.1 head.2.2

theorem memberAfter_of_type {head : Span × List AttributeList × List Ident}
    (h : s.typeKeywordAt 0 = true) : memberAfter nestedType typeName head s =
      (Option.map .nested <$> nestedType head.1 head.2.1 head.2.2) s := by
  rw [memberAfter, get_bind, if_pos h]

theorem memberAfter_of_plain {head : Span × List AttributeList × List Ident}
    (h : ¬ s.typeKeywordAt 0 = true) : memberAfter nestedType typeName head s =
      plainMember typeName head.1 head.2.1 head.2.2 s := by
  rw [memberAfter, get_bind, if_neg h]

theorem member_eq : member nestedType typeName s = (memberHead >>= memberAfter nestedType typeName) s := by
  show (if (memberHead s).2.typeKeywordAt 0 = true then _ else _ : Read (Option Member))
    (memberHead s).2 = _
  rw [bind_apply, memberAfter, get_bind]
  split <;> rfl

variable (nestedType typeName) in
/-- The member is a type if a keyword for one stands after its modifiers. -/
theorem member_of_type (h : (memberHead s).2.typeKeywordAt 0 = true) :
    member nestedType typeName s =
      (memberHead >>= fun head => Option.map .nested <$> nestedType head.1 head.2.1 head.2.2) s := by
  rw [member_eq, bind_apply, memberAfter_of_type h, bind_apply]

theorem member_of_plain (h : ¬ (memberHead s).2.typeKeywordAt 0 = true) :
    member nestedType typeName s =
      (memberHead >>= fun head => plainMember typeName head.1 head.2.1 head.2.2) s := by
  rw [member_eq, bind_apply, memberAfter_of_plain h, bind_apply]

/-! ## What a property is read from -/

section

variable {first : Span} {attributes : List AttributeList} {mods : List Ident} {type : TypeExpr}
  {name : Ident}

/-- The member is no type; a property has the attributes and the type, and goes from `first` to
    where the cursor `t` stands. -/
def ReadAs (first : Span) (attributes : List AttributeList) (type : TypeExpr) (t : Cursor) : Member → Prop
  | .property p => p.attributes = attributes ∧ p.type = type ∧ p.span = t.spanFrom first
  | .nested _ => False
  | _ => True

theorem memberBody_readAs : ReadAs first attributes type (memberBody first attributes mods type name s).2
    (memberBody first attributes mods type name s).1 := by
  rw [memberBody, bind_apply]
  split
  · exact ⟨rfl, rfl, rfl⟩
  · trivial

theorem namedMember_readAs : ReadAs first attributes type (namedMember first attributes mods type s).2
    (namedMember first attributes mods type s).1 := by
  rw [namedMember, bind_apply]
  cases (memberName s).1 with
  | none => trivial
  | some name => exact memberBody_readAs

theorem memberRest_readAs : ReadAs first attributes type (memberRest first attributes mods type s).2
    (memberRest first attributes mods type s).1 := by
  rw [memberRest, bind_apply]
  split
  · trivial
  · split
    · trivial
    · split
      · trivial
      · exact namedMember_readAs

/-- A property has the attributes before it and the type that is read after its modifiers. -/
theorem plainMember_readAs {m : Member}
    (h : (plainMember typeName first attributes mods s).1 = some m) :
    ReadAs first attributes (typeExpr s).1 (plainMember typeName first attributes mods s).2 m := by
  rw [plainMember, bind_apply] at h ⊢
  split at h
  · cases h
    trivial
  · rw [if_neg ‹_›]
    split at h
    · cases h
      trivial
    · rw [if_neg ‹_›]
      obtain rfl := Option.some.inj h
      exact memberRest_readAs

/-- Before a property is read its type is. -/
theorem typeExpr_reaches {p : Property}
    (h : (plainMember typeName first attributes mods s).1 = some (.property p)) :
    (typeExpr s).2.Reaches (plainMember typeName first attributes mods s).2 := by
  rw [plainMember, bind_apply] at h ⊢
  split at h
  · cases h
  · rw [if_neg ‹_›]
    split at h
    · cases h
    · rw [if_neg ‹_›]
      exact Forward.reaches (r := memberRest first attributes mods (typeExpr s).1) (typeExpr s).2

/-- A member that is no type takes a token. -/
theorem takes_plainMember : Takes (plainMember typeName first attributes mods) := by
  intro s
  unfold TakesAt
  rw [plainMember, bind_apply]
  split
  case isTrue h =>
    change (s.atWord "event" || s.atWord "delegate" || s.kind = .operator '~') = true at h
    refine (takesAt_skipBody ?_ ?_ ?_ ?_ ?_).bind <;> intro hk <;>
      simp [Cursor.atWord, hk, TokenKind.isWord, TokenKind.name?] at h
  case isFalse =>
    split
    case isTrue => exact (takes_ident _ s).bind.bind
    case isFalse => exact (takes_typeExpr s).bind.bind

end

theorem member_readAs (htype : ¬ (memberHead s).2.typeKeywordAt 0 = true) {m : Member}
    (h : (member nestedType typeName s).1 = some m) :
    ReadAs s.span (attributeLists s).1 (typeExpr (memberHead s).2).1
      (member nestedType typeName s).2 m := by
  rw [member_of_plain htype] at h ⊢
  exact plainMember_readAs h

variable (nestedType typeName) in
theorem takesAt_member_of_plain (htype : ¬ (memberHead s).2.typeKeywordAt 0 = true) :
    TakesAt (member nestedType typeName) s := by
  have htakes : Takes (memberHead >>= fun head => plainMember typeName head.1 head.2.1 head.2.2) :=
    .bind_right fun _ => takes_plainMember
  intro hs hclean
  rw [member_of_plain htype] at hclean ⊢
  exact htakes s hs hclean

/-! ## Rounds -/

section

variable [hf : ∀ first attributes mods, Forward (nestedType first attributes mods)]

omit hf in
theorem takes_member (h : ∀ first attributes mods, Takes (nestedType first attributes mods)) :
    Takes (member nestedType typeName) := by
  intro s
  by_cases htype : (memberHead s).2.typeKeywordAt 0 = true
  · have htakes : Takes (memberHead >>= fun head =>
        Option.map Member.nested <$> nestedType head.1 head.2.1 head.2.2) :=
      .bind_right fun head s hs hclean => h _ _ _ s hs hclean
    intro hs hclean
    rw [member_of_type _ _ htype] at hclean ⊢
    exact htakes s hs hclean
  · exact takesAt_member_of_plain _ _ htype

omit hf in
theorem members_eq : members nestedType typeName =
    gatherWhile (fun s => !s.atEnd && s.kind ≠ .rightBrace) (memberStep nestedType typeName) := rfl

variable (nestedType typeName) in
omit hf in
theorem memberStep_of_semicolon (hk : s.kind = .semicolon) :
    memberStep nestedType typeName s = (advance >>= fun _ => pure none : Read (Option Member)) s := by
  rw [memberStep, bind_apply, eat_of_eq hk]
  rfl

omit hf in
theorem memberStep_of_ne (hk : s.kind ≠ .semicolon) :
    memberStep nestedType typeName s =
      if (member nestedType typeName s).2.span = s.span &&
        !(member nestedType typeName s).2.atEnd then
        ((member nestedType typeName s).1, (advance (member nestedType typeName s).2).2)
      else member nestedType typeName s := by
  rw [memberStep, bind_apply, eat_of_ne hk]
  show (if ((member nestedType typeName s).2.span = s.span &&
    !(member nestedType typeName s).2.atEnd) = true then _ else _ : Read (Option Member))
      (member nestedType typeName s).2 = _
  split <;> rfl

/-- A round always takes a token. -/
theorem size_memberStep_lt (hs : EndsInEof s.tokens) (heof : s.kind ≠ .eof) :
    (memberStep nestedType typeName s).2.size < s.size := by
  by_cases hk : s.kind = .semicolon
  · rw [memberStep_of_semicolon _ _ hk]
    exact size_advance_lt heof hs
  · have hreach := Forward.reaches (r := member nestedType typeName) s
    rw [memberStep_of_ne hk]
    split
    case isTrue h =>
      have hend : (member nestedType typeName s).2.kind ≠ .eof := by
        intro h'
        simp [Cursor.atEnd, h', TokenKind.isEof] at h
      exact Nat.lt_of_lt_of_le (size_advance_lt hend (hreach.endsInEof hs)) hreach.size_le
    case isFalse h =>
      refine Nat.lt_of_not_le fun hlt => ?_
      -- If nothing was read the cursor stands where it stood.
      have hsame : (member nestedType typeName s).2.tokens = s.tokens := by
        refine hreach.suffix.eq_of_length_le ?_
        simp only [Cursor.tokens, List.length_cons, Cursor.size] at hlt ⊢
        omega
      have hcurrent := (List.cons.inj hsame).1
      refine h ?_
      have hend : (member nestedType typeName s).2.atEnd = false := by
        rw [Cursor.atEnd, Cursor.kind, hcurrent]
        exact atEnd_eq_false heof
      rw [Cursor.span, Cursor.span, hcurrent, hend]
      simp

variable (typeName) in
/-- A member that is read is not stepped over. -/
theorem memberStep_eq_member (ho : Ordered s.tokens) (hk : s.kind ≠ .semicolon)
    (hlt : (member nestedType typeName s).2.size < s.size) :
    memberStep nestedType typeName s = member nestedType typeName s := by
  have hreach := Forward.reaches (r := member nestedType typeName) s
  rw [memberStep_of_ne hk, if_neg]
  obtain ⟨u, hu, -⟩ := hreach.read
  have hfirst : s.current ∈ u := by
    cases u with
    | nil =>
      have := congrArg List.length hu
      simp only [Cursor.tokens, List.nil_append, List.length_cons, Cursor.size] at this hlt
      omega
    | cons x u => rw [(List.cons.inj hu).1]; exact List.mem_cons_self
  have ho' : Ordered (u ++ (member nestedType typeName s).2.tokens) := hu ▸ ho
  have hlt := ho'.start_lt hfirst (List.mem_cons_self)
  intro hcond
  have hspan : (member nestedType typeName s).2.span = s.span := by simpa using (Bool.and_eq_true_iff.mp hcond).1
  rw [Cursor.span] at hspan
  rw [hspan] at hlt
  exact Nat.lt_irrefl _ hlt

end

end Read

end SettingsLint
