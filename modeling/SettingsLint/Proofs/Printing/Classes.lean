import SettingsLint.Proofs.Analysis.Layout
import SettingsLint.Proofs.Printing.Attributes
import SettingsLint.Proofs.Reading.MemberParts

/-! # Reading printed classes

A printed class is read back from any text with its tokens, as the only declaration of the text
and without an error.
-/

namespace SettingsLint

open Placed (erase)

variable {d levels : Nat} {v : List TokenKind} {k : TokenKind}

/-! ## Blocks -/

theorem TokenKind.isOpener_of_closer? {closer : TokenKind} (h : k.closer? = some closer) :
    k.isOpener = true ∧ k ≠ .eof := by
  cases k with
  | leftParen | leftBracket | leftBrace => exact ⟨rfl, nofun⟩
  | _ => cases h

theorem TokenKind.isOpener_eq_false (h : k.closer? = none) : k.isOpener = false := by
  cases k with
  | leftParen | leftBracket | leftBrace => cases h
  | _ => rfl

theorem TokenKind.ne_eof_of_isCloser (h : k.isCloser = true) : k ≠ .eof := by
  rintro rfl
  cases h

/-- Tokens whose brackets match are skipped up to the brace that closes the block. As many
groups are open as closing brackets are still to come, and the block itself. -/
theorem At.skipOpened {kinds closers : List TokenKind} (hbalanced : balanced closers kinds = true)
    {opened : List (TokenKind × Span)} (hopened : opened.length = closers.length + 1) {s : Cursor}
    (hs : At d (kinds ++ .rightBrace :: v) s) : At d v (Read.skipOpened opened s) := by
  induction kinds generalizing closers opened s with
  | nil =>
    have hkind : s.kind = .rightBrace := hs.kind
    have hclosers : closers = [] := by simpa [balanced] using hbalanced
    subst hclosers
    have hlast : (Read.openedAfter opened s).isEmpty = true := by
      rw [Read.openedAfter, hkind]
      cases opened with
      | nil => rfl
      | cons one rest => simpa [TokenKind.isOpener, TokenKind.isCloser] using hopened
    rw [Read.skipOpened_of_ends (by rw [hkind]; rintro ⟨⟩) hs.endsInEof, if_pos hlast]
    exact hs.advance (by rintro ⟨⟩)
  | cons kind kinds ih =>
    rw [balanced] at hbalanced
    -- In each case some group stays open.
    have hgo {closers' : List TokenKind} (heof : kind ≠ .eof)
        (hrest : balanced closers' kinds = true)
        (hopened' : (Read.openedAfter opened s).length = closers'.length + 1) :
        At d v (Read.skipOpened opened s) := by
      have hne : (Read.openedAfter opened s).isEmpty = false := by
        cases h : Read.openedAfter opened s with
        | nil => rw [h] at hopened'; cases hopened'
        | cons => rfl
      rw [Read.skipOpened_of_ends (by rwa [hs.kind]) hs.endsInEof, if_neg (by simp [hne])]
      exact ih hrest hopened' (hs.advance heof)
    cases hcloser : kind.closer? with
    | some closer =>
      obtain ⟨hopener, heof⟩ := TokenKind.isOpener_of_closer? hcloser
      rw [hcloser] at hbalanced
      refine hgo heof hbalanced ?_
      rw [Read.openedAfter, hs.kind, if_pos hopener, List.length_cons, List.length_cons, hopened]
    | none =>
      have hopener := TokenKind.isOpener_eq_false hcloser
      rw [hcloser] at hbalanced
      by_cases hclose : kind.isCloser = true
      · rw [if_pos hclose, Bool.and_eq_true] at hbalanced
        obtain ⟨hhead, hrest⟩ := hbalanced
        refine hgo (TokenKind.ne_eof_of_isCloser hclose) hrest ?_
        obtain ⟨rest, rfl⟩ := List.head?_eq_some_iff.mp (of_decide_eq_true hhead)
        rw [Read.openedAfter, hs.kind, if_neg (by simp [hopener]), if_pos hclose, List.length_tail,
          hopened]
        rfl
      · rw [if_neg hclose] at hbalanced
        simp only [Bool.and_eq_true] at hbalanced
        obtain ⟨⟨heof, -⟩, hrest⟩ := hbalanced
        refine hgo (by rintro rfl; cases heof) hrest ?_
        rw [Read.openedAfter, hs.kind, if_neg (by simp [hopener]), if_neg hclose, hopened]

namespace Read

/-- A block is skipped. -/
theorem reads_skipGroup {block : List TokenKind} (hblock : balanced [] block = true) :
    Reads skipGroup d (.leftBrace :: (block ++ .rightBrace :: v)) v () := by
  intro s hs
  have hkind : s.kind = .leftBrace := hs.kind
  have hopened : openedAfter [] s = [(.leftBrace, s.span)] := by
    rw [openedAfter, hkind]
    rfl
  have hrun : (skipGroup s).2 = skipOpened [(.leftBrace, s.span)] s.advance := by
    show skipOpened [] s = _
    rw [skipOpened_of_ends (by rw [hkind]; rintro ⟨⟩) hs.endsInEof, hopened]
    rfl
  rw [hrun]
  exact ⟨(hs.advance (by rintro ⟨⟩)).skipOpened hblock rfl, rfl⟩

/-! ## Properties -/

theorem reads_modifiers {modifiers : List Ident}
    (hwords : modifiers.all (modifierWords.contains ·.name) = true)
    (hk : k.isOneOf modifierWords = false) :
    Reads Read.modifiers d (modifiers.map (.identifier ·.name) ++ k :: v) (k :: v) modifiers := by
  induction modifiers with
  | nil => exact .gatherWhile_stop fun s hs => by rw [hs.kind]; exact hk
  | cons one rest ih =>
    obtain ⟨hone, hrest⟩ := Bool.and_eq_true_iff.mp hwords
    refine .gatherWhile_go (fun s hs => ?_) (Reads.ident one) ?_ (ih hrest)
    · have hs : At d (.identifier one.name :: _) s := hs
      rw [hs.kind]
      exact hone
    · simp

theorem reads_memberName (name : Ident) :
    Reads memberName d (.identifier name.name :: .leftBrace :: v) (.leftBrace :: v) (some name) := by
  refine (Reads.ident name).bind_some fun name' hname => ?_
  refine .bind (.get fun s hs => .of_neg (by simp [hs.kind]) (.pure rfl)) fun _ _ => ?_
  refine .bind (.gatherWhile_stop fun s hs => by simp [hs.kind]) fun parts hparts => ?_
  obtain rfl : parts = [] := List.map_eq_nil_iff.mp hparts
  exact .pure (by rw [erase_some]; exact congrArg some hname)

/-- A block after the name makes the member a property. -/
theorem reads_skipMemberRest {block : List TokenKind} (hblock : balanced [] block = true)
    (hk : k ≠ .equals) :
    Reads skipMemberRest d (.leftBrace :: (block ++ .rightBrace :: k :: v)) (k :: v) true := by
  refine .get fun s hs => ?_
  rw [hs.kind]
  refine (reads_skipGroup hblock).bind fun _ _ => ?_
  exact (Reads.eat_none hk).bind_none (.of_neg nofun (.pure rfl))

/-- The types that are read for a printed type are not taken for missing ones. -/
theorem isMissing_eq_false {type type' : TypeExpr} (hwritten : type.isWritten = true)
    (h : erase type' = erase type) : type'.isMissing = false := by
  cases type' with
  | unsupported => cases type <;> cases h; cases hwritten
  | named | array | nullable => rfl

/-- A name and a block after a type make a property. -/
theorem reads_memberRest {attributes : List AttributeList} {modifiers : List Ident}
    {type : TypeExpr} {name : Ident} {block : List TokenKind} (hblock : balanced [] block = true)
    (hk : k ≠ .equals) (htype : type.isMissing = false)
    (himplicit : type.simpleName? ≠ some "implicit")
    (hexplicit : type.simpleName? ≠ some "explicit")
    (hthis : name.name ≠ "this") (hoperator : name.name ≠ "operator") (first place : Span) :
    Reads (memberRest first attributes modifiers type) d
      (.identifier name.name :: .leftBrace :: (block ++ .rightBrace :: k :: v)) (k :: v)
      (.property ⟨attributes, modifiers, type, name, place⟩) := by
  refine .get fun s hs => .of_neg (by simp [htype]) (.of_neg ?_ (.of_neg ?_ ?_))
  · simp [hs.atWord, TokenKind.isWord, TokenKind.name?, hthis, hoperator]
  · simp [himplicit, hexplicit]
  · refine (reads_memberName name).bind_some fun name' hname => ?_
    refine (reads_skipMemberRest hblock hk).bind_bool (.of_pos rfl ?_)
    exact (Reads.spanFrom first default).bind fun _ _ => .pure (by simp [hname])

/-- A type starts with one of the words if its first token is one. -/
theorem startsWithOneOf_eq {type : TypeExpr} (hwritten : type.isWritten = true) {word : String}
    {u w : List TokenKind} (hkinds : type.kinds ++ u = .identifier word :: w)
    (words : List String) : type.startsWithOneOf words = words.contains word := by
  obtain ⟨name, w', hw'⟩ := TypeExpr.exists_kinds_eq hwritten
  rw [hw'] at hkinds
  obtain rfl : name = word := TokenKind.identifier.inj (List.cons.inj hkinds).1
  rw [TypeExpr.startsWithOneOf, hw']
  rfl

section

variable {p : PrintedProperty} {nestedType : TypeReader} {typeName : String}

variable (nestedType typeName) in
/-- A member that starts with none of `memberWords`, and with no parenthesis after its first
word, starts with a type. -/
theorem reads_memberAfter {word : String} {k' : TokenKind} {u w : List TokenKind}
    {head : Span × List AttributeList × List Ident} {m : Member}
    (hword : memberWords.contains word = false) (hk' : k' ≠ .leftParen)
    (h : Reads (typedMember head.1 head.2.1 head.2.2) d (.identifier word :: k' :: w) u m) :
    Reads (memberAfter nestedType typeName head) d (.identifier word :: k' :: w) u (some m) := by
  have hne (other : String) (hother : other ∈ memberWords) : word ≠ other := by
    rintro rfl
    rw [List.contains_iff_mem.mpr hother] at hword
    cases hword
  refine .get fun s hs => .of_neg ?_ (.get fun s' hs' => .of_neg ?_ (.of_neg ?_ ?_))
  · have hrecord := hne "record" (by decide)
    have hpeek : s.peek 0 = .identifier word := hs.peek rfl
    simp [Cursor.typeKeywordAt, hpeek, TokenKind.isOneOf, TokenKind.isWord, TokenKind.name?,
      hne "class" (by decide), hne "struct" (by decide), hne "interface" (by decide),
      hne "enum" (by decide), hrecord]
  · simp [hs'.atWord, hs'.kind, TokenKind.isWord, TokenKind.name?, hne "event" (by decide),
      hne "delegate" (by decide)]
  · simp [hs'.peek_one, hk']
  · exact h.bind fun m' hm => .pure (by rw [erase_some, erase_some, hm])

/-- A printed property is read as a member, up to what is no initializer. -/
theorem reads_member (hwritten : p.isWritten levels = true) (hd : d + levels < maxNesting)
    (hk : k ≠ .equals) :
    Reads (member nestedType typeName) d (p.kinds ++ k :: v) (k :: v)
      (some (.property p.tree)) := by
  obtain ⟨⟨attributes, modifiers, type, name, place⟩, block⟩ := p
  simp only [PrintedProperty.isWritten, Bool.and_eq_true, Bool.not_eq_true',
    decide_eq_true_eq] at hwritten
  obtain ⟨⟨⟨⟨⟨⟨⟨⟨⟨hattributes, hmodifiers⟩, htype⟩, hlevels⟩, hfirst⟩, himplicit⟩, hexplicit⟩, hthis⟩,
    hoperator⟩, hblock⟩ := hwritten
  simp only [PrintedProperty.kinds, List.append_assoc, List.cons_append, List.nil_append]
  -- The type starts with a word of its own, and no parenthesis follows it.
  obtain ⟨word, k', w, hparen, hkinds⟩ := exists_second_kind_of_type htype
    (k := .identifier name.name) nofun
    (.leftBrace :: (block ++ .rightBrace :: k :: v))
  rw [startsWithOneOf_eq htype hkinds, List.contains_append, Bool.or_eq_false_iff] at hfirst
  obtain ⟨hmodifier, hword⟩ := hfirst
  have hhead : Reads memberHead d (attributes.flatMap (·.kinds) ++
      (modifiers.map (.identifier ·.name) ++ .identifier word :: k' :: w))
      (.identifier word :: k' :: w) (default, attributes, modifiers) := by
    have hlists : Reads attributeLists d (attributes.flatMap (·.kinds) ++
        (modifiers.map (.identifier ·.name) ++ .identifier word :: k' :: w))
        (modifiers.map (.identifier ·.name) ++ .identifier word :: k' :: w) attributes := by
      cases modifiers with
      | nil => exact reads_attributeLists hattributes hd nofun
      | cons one rest => exact reads_attributeLists hattributes hd nofun
    refine (Reads.span default).bind fun first _ => hlists.bind fun attributes' hattributes => ?_
    refine (reads_modifiers (k := .identifier word) hmodifiers hmodifier).bind fun modifiers' hmodifiers => .pure ?_
    simp only [erase_pair, erase_span, hattributes, hmodifiers]
  rw [hkinds]
  refine .congr (fun s _ => member_eq) (hhead.bind fun head hhead => ?_)
  refine reads_memberAfter nestedType typeName hword hparen ?_
  rw [← hkinds]
  have htyped := readsTypes_typeExpr hd type (.identifier name.name)
    (.leftBrace :: (block ++ .rightBrace :: k :: v)) htype (Nat.lt_succ_of_le hlevels) rfl
  refine htyped.bind fun type' htype' => ?_
  have hsame : type'.simpleName? = type.simpleName? := by
    rw [← simpleName?_erase, htype', simpleName?_erase]
  refine (reads_memberRest hblock hk (isMissing_eq_false htype htype') (hsame ▸ himplicit)
    (hsame ▸ hexplicit) hthis hoperator head.1 default).of_erase_eq ?_
  have hattributes' : erase head.2.1 = erase attributes := congrArg (·.2.1) hhead
  have hmodifiers' : erase head.2.2 = erase modifiers := congrArg (·.2.2) hhead
  simp [hattributes', hmodifiers', htype']

/-- A printed property starts with an attribute list or a name. -/
theorem exists_property_kinds (hwritten : p.isWritten levels = true) :
    ∃ k w, k ∉ [.semicolon, .rightBrace, .eof, .equals] ∧ p.kinds = k :: w := by
  obtain ⟨⟨attributes, modifiers, type, name, place⟩, block⟩ := p
  cases attributes with
  | cons list lists => exact ⟨.leftBracket, _, by simp, rfl⟩
  | nil =>
    cases modifiers with
    | cons one rest => exact ⟨.identifier one.name, _, by simp, rfl⟩
    | nil =>
      simp only [PrintedProperty.isWritten, Bool.and_eq_true] at hwritten
      obtain ⟨word, w, hw⟩ := TypeExpr.exists_kinds_eq hwritten.1.1.1.1.1.1.1.2
      exact ⟨.identifier word, _, by simp, by simp only [PrintedProperty.kinds, hw]; rfl⟩

variable [∀ first attributes mods, Forward (nestedType first attributes mods)]

theorem reads_memberStep {item : Option Member} {u : List TokenKind}
    (h : Reads (member nestedType typeName) d (k :: u) v item) (hk : k ≠ .semicolon)
    (hlt : v.length < (k :: u).length) :
    Reads (memberStep nestedType typeName) d (k :: u) v item := by
  intro s hs
  have hread := h s hs
  rwa [memberStep_eq_member typeName hs.lexed.ordered (hs.kind ▸ hk) (hread.1.size_lt hs hlt)]

/-- Printed properties are read up to the brace that closes their class. -/
theorem reads_members {properties : List PrintedProperty}
    (hwritten : properties.all (·.isWritten levels) = true) (hd : d + levels < maxNesting) :
    Reads (members nestedType typeName) d (properties.flatMap (·.kinds) ++ .rightBrace :: v)
      (.rightBrace :: v) (properties.map (.property ·.tree)) := by
  induction properties with
  | nil => exact .gatherWhile_stop fun s hs => by simp [hs.kind]
  | cons p rest ih =>
    obtain ⟨hp, hrest⟩ := Bool.and_eq_true_iff.mp hwritten
    -- What follows the property starts the next one, or closes the class.
    obtain ⟨k, w, hk, hw⟩ : ∃ k w, k ≠ .equals ∧
        rest.flatMap (·.kinds) ++ .rightBrace :: v = k :: w := by
      cases rest with
      | nil => exact ⟨.rightBrace, v, nofun, rfl⟩
      | cons next rest =>
        obtain ⟨k, w, hk, hw⟩ := exists_property_kinds (Bool.and_eq_true_iff.mp hrest).1
        rw [List.flatMap_cons, hw]
        exact ⟨k, _, fun h => hk (by simp [h]), rfl⟩
    obtain ⟨k₁, w₁, hk₁, hw₁⟩ := exists_property_kinds hp
    have hmember : Reads (member nestedType typeName) d (p.kinds ++ k :: w) (k :: w)
        (some (.property p.tree)) := reads_member hp hd hk
    have hlt : (k :: w).length < (k₁ :: (w₁ ++ k :: w)).length := by
      simp only [List.length_cons, List.length_append]
      omega
    have hrest := ih hrest
    rw [hw₁] at hmember
    rw [hw] at hrest
    rw [List.flatMap_cons, List.append_assoc, hw, hw₁]
    simp only [List.mem_cons, not_or] at hk₁
    refine .gatherWhile_go (fun s hs => ?_)
      (reads_memberStep hmember hk₁.1 hlt) hlt hrest
    simp [hs.kind, hk₁.2.1, Cursor.atEnd, TokenKind.isEof_eq_false hk₁.2.2.1]

end

/-! ## The class -/

section

variable {c : SettingsClass}

theorem reads_declarationKind :
    Reads declarationKind d (.identifier "class" :: v) v (some .classDecl) := by
  refine .bind_bool (.get fun s hs => .of_pos ?_ ?_) (.of_pos rfl (.pure rfl))
  · rw [hs.atWord]
    rfl
  · exact (Reads.advance TokenKind.noConfusion default).bind fun _ _ => .pure rfl

theorem reads_baseTypes {base : TypeExpr} (hwritten : base.isWritten = true)
    (hlevels : base.levels ≤ levels) (hd : d + levels < maxNesting) :
    Reads baseTypes d (.colon :: (base.kinds ++ .leftBrace :: v)) (.leftBrace :: v) [base] := by
  refine (Reads.eat_some TokenKind.noConfusion default).bind_some fun _ _ => ?_
  refine .of_neg nofun (.gather_end (o := some base) ?_)
  refine (readsTypes_typeExpr hd base .leftBrace v hwritten (Nat.lt_succ_of_le hlevels) rfl).bind
    fun base' hbase => .kind (.of_neg nofun ?_)
  exact (Reads.eat_none TokenKind.noConfusion).bind_none (.pure (by simp [hbase]))

theorem reads_skipConstraints : Reads skipConstraints d (.leftBrace :: v) (.leftBrace :: v) () := by
  intro s hs
  have hwhere : s.atWord "where" = false := by rw [hs.atWord]; rfl
  rw [skipConstraints, whileDo_eq, hwhere]
  exact ⟨hs, rfl⟩

/-- The header of a printed class is read up to its opening brace. -/
theorem reads_typeHeader {name : Ident} {base : TypeExpr} (hwritten : base.isWritten = true)
    (hlevels : base.levels ≤ levels) (hd : d + levels < maxNesting) (first place : Span) :
    Reads (typeHeader first [] []) d
      (.identifier "class" :: .identifier name.name :: .colon :: (base.kinds ++ .leftBrace :: v))
      (.leftBrace :: v)
      (some ⟨[], [], .classDecl, name, [], none, [base], place⟩) := by
  refine reads_declarationKind.bind_some fun kind hkind => ?_
  cases hkind
  refine (Reads.ident name).bind_some fun name' hname => ?_
  refine .bind ((Reads.eat_none TokenKind.noConfusion).bind_none
    (.of_pos rfl (.pure rfl))) fun parameters hparameters => ?_
  obtain rfl : parameters = [] := List.map_eq_nil_iff.mp hparameters
  refine .kind (.of_neg nofun (.pure_bind ?_))
  refine (reads_baseTypes hwritten hlevels hd).bind fun bases hbases => ?_
  exact reads_skipConstraints.bind fun _ _ => .pure (congrArg₂
    (some <| DeclarationHeader.mk [] [] .classDecl · [] none · default) hname hbases)

/-- A printed class is read after its modifiers. -/
theorem reads_typeRest {nestedType : TypeReader}
    [∀ first attributes mods, Forward (nestedType first attributes mods)]
    (hwritten : c.isWritten levels = true) (hd : d + levels < maxNesting) (hk : k ≠ .semicolon)
    (first : Span) :
    Reads (typeRest nestedType first [] []) d (c.kinds ++ k :: v) (k :: v)
      (some c.declaration) := by
  obtain ⟨name, base, properties⟩ := c
  simp only [SettingsClass.isWritten, Bool.and_eq_true, decide_eq_true_eq] at hwritten
  obtain ⟨⟨hbase, hlevels⟩, hproperties⟩ := hwritten
  simp only [SettingsClass.kinds, List.cons_append, List.append_assoc]
  refine (reads_typeHeader hbase hlevels hd first default).bind_some fun header hheader => ?_
  have hkind : header.kind = .classDecl := congrArg (·.kind) hheader
  have hbody : Reads (typeBody nestedType header.kind header.name.name) d
      (.leftBrace :: (properties.flatMap (·.kinds) ++ .rightBrace :: k :: v)) (k :: v)
      (properties.map (.property ·.tree)) := by
    refine (Reads.eat_some TokenKind.noConfusion default).bind_some fun _ _ => ?_
    refine .of_neg (by simp [hkind]) ((reads_members hproperties hd).bind fun items hitems => ?_)
    refine (Reads.eat_some TokenKind.noConfusion default).bind_some fun _ _ => ?_
    exact .of_neg nofun (.pure hitems)
  refine hbody.bind fun items hitems => (Reads.eat_none hk).bind_none ?_
  refine (Reads.spanFrom first default).bind fun whole _ => .pure ?_
  have hsame : erase { header with span := whole } =
      erase (DeclarationHeader.mk [] [] .classDecl name [] none [base] default) := hheader
  rw [erase_some, erase_some, SettingsClass.declaration, erase_declaration, erase_declaration,
    hsame, hitems]

/-- A printed class is read as a declaration. -/
theorem reads_typeDeclaration (hwritten : c.isWritten levels = true)
    (hd : d + 1 + levels < maxNesting) (hk : k ≠ .semicolon) :
    Reads typeDeclaration d (c.kinds ++ k :: v) (k :: v) (some c.declaration) := by
  have hclass : (TokenKind.identifier "class").isOneOf modifierWords = false := by decide
  have hlists : Reads attributeLists d (c.kinds ++ k :: v) (c.kinds ++ k :: v) [] :=
    .gatherWhile_stop fun s hs => by
      simp [hs.kind]
  have hmodifiers : Reads modifiers d (c.kinds ++ k :: v) (c.kinds ++ k :: v) [] :=
    .gatherWhile_stop fun s hs => by
      rw [hs.kind]
      exact hclass
  refine (Reads.span default).bind fun first _ => hlists.bind fun attributes hattributes => ?_
  obtain rfl : attributes = [] := List.map_eq_nil_iff.mp hattributes
  refine hmodifiers.bind fun modifiers hmodifiers => ?_
  obtain rfl : modifiers = [] := List.map_eq_nil_iff.mp hmodifiers
  exact .nested (by omega) (reads_typeRest hwritten hd hk first)

/-- Where a printed class starts, a type declaration is found. -/
theorem atTypeDeclaration_of_class {s : Cursor} (hs : At d (.identifier "class" :: v) s) :
    s.atTypeDeclaration = true := by
  have hkind : s.current.kind = .identifier "class" := hs.kind
  have hattributes : attributesLength s.tokens = 0 := by
    rw [Cursor.tokens, attributesLength, if_neg (by rw [hkind]; rintro ⟨⟩)]
  have hmodifiers : s.tokens.takeWhile (·.kind.isOneOf modifierWords) = [] := by
    rw [Cursor.tokens, List.takeWhile_cons, hkind]
    rfl
  have hkeyword : s.typeKeywordAt 0 = true := by
    have hpeek : s.peek 0 = .identifier "class" := hs.peek rfl
    rw [Cursor.typeKeywordAt, hpeek]
    rfl
  rw [Cursor.atTypeDeclaration, hattributes, List.drop_zero, hmodifiers]
  exact hkeyword

theorem reads_unitItem (block : Read (Option (List UnitItem))) (hwritten : c.isWritten levels = true)
    (hd : d + 1 + levels < maxNesting) (hk : k ≠ .semicolon) :
    Reads (unitItem block) d (c.kinds ++ k :: v) (k :: v)
      (some (.member (.type c.declaration))) := by
  refine .get fun s hs => ?_
  have hpeek : s.peek 0 = .identifier "class" := hs.peek rfl
  have husing : s.atUsing = false := by
    simp [Cursor.atUsing, hs.atWord, hpeek, TokenKind.isWord, TokenKind.name?]
  refine .bind_none (.eat_none (by rintro ⟨⟩)) (.of_neg (by rintro ⟨⟩) ?_)
  refine .of_neg (by simp [husing]) (.of_neg ?_ (.of_neg ?_ (.of_neg ?_ (.of_pos ?_ ?_))))
  · rw [hs.atWord]
    rintro ⟨⟩
  · rw [hs.atWord]
    rintro ⟨⟩
  · simp [Cursor.atAssemblyAttribute, hs.kind]
  · exact atTypeDeclaration_of_class hs
  · exact (reads_typeDeclaration hwritten hd hk).bind_some fun declaration h => .pure (by
      exact congrArg (fun d => some (UnitItem.member (.type d))) h)

/-- A unit with a printed class alone is read to the end. -/
theorem reads_sourceUnit (hwritten : c.isWritten levels = true) (hd : 1 + levels < maxNesting) :
    Reads sourceUnit 0 (c.kinds ++ [.eof]) [.eof] c.unit := by
  have hitems : Reads (unitItems (blockWithin maxNesting)) 0 (c.kinds ++ [.eof]) [.eof]
      [.member (.type c.declaration)] := by
    have hitem : Reads (unitItem (blockWithin maxNesting)) 0 (c.kinds ++ [.eof]) [.eof]
        (some (.member (.type c.declaration))) :=
      reads_unitItem _ hwritten (by omega) nofun
    have hlt : [TokenKind.eof].length < (c.kinds ++ [TokenKind.eof]).length := by
      simp [SettingsClass.kinds]
    refine .gatherWhile_go (fun s hs => ?_) hitem hlt (.gatherWhile_stop fun s hs => ?_)
    · have hs : At 0 (.identifier "class" :: _) s := hs
      simp [hs.kind, Cursor.atEnd, TokenKind.isEof]
    · simp [hs.kind, Cursor.atEnd, TokenKind.isEof]
  have hbody : Reads unitBody 0 (c.kinds ++ [.eof]) [.eof] ([], [.type c.declaration]) := by
    refine hitems.bind fun items hitems => .get fun s _ => .pure ?_
    exact UnitItem.erase_assemble hitems s.previousStop 0
  refine (Reads.span default).bind fun first _ => hbody.bind fun body hbody => ?_
  refine .bind (.gatherWhile_stop fun s hs => ?_) fun more hmore => ?_
  · simp [hs.kind, Cursor.atEnd, TokenKind.isEof]
  · obtain rfl : more = [] := List.map_eq_nil_iff.mp hmore
    refine (Reads.span default).bind fun last _ => .pure ?_
    have husings : erase body.1 = erase ([] : List UsingDirective) := congrArg Prod.fst hbody
    have hmembers : erase body.2 = erase [UnitMember.type c.declaration] := congrArg Prod.snd hbody
    simp only [List.flatMap_cons, List.flatMap_nil, List.append_nil]
    show SourceUnit.mk (erase body.1) (erase body.2) default = _
    rw [husings, hmembers]
    rfl

end

end Read

/-! ## Printed tokens are well-formed -/

/-- None of the tokens is malformed. -/
def Sound (kinds : List TokenKind) : Prop := ∀ k ∈ kinds, k.isError = false

namespace Sound

variable {u w : List TokenKind}

theorem nil : Sound [] := fun _ h => nomatch h

theorem cons (hk : k.isError = false) (h : Sound u) : Sound (k :: u) :=
  List.forall_mem_cons.mpr ⟨hk, h⟩

theorem append (hu : Sound u) (hw : Sound w) : Sound (u ++ w) :=
  List.forall_mem_append.mpr ⟨hu, hw⟩

theorem flatMap {as : List α} {print : α → List TokenKind} (h : ∀ a ∈ as, Sound (print a)) :
    Sound (as.flatMap print) := by
  intro k hk
  obtain ⟨a, ha, hk⟩ := List.mem_flatMap.mp hk
  exact h a ha k hk

theorem intercalate {sep : TokenKind} (hsep : sep.isError = false) {parts : List (List TokenKind)}
    (h : ∀ part ∈ parts, Sound part) : Sound ([sep].intercalate parts) := by
  induction parts with
  | nil => exact nil
  | cons part parts ih =>
    obtain ⟨hpart, hparts⟩ := List.forall_mem_cons.mp h
    cases parts with
    | nil => rwa [List.intercalate_singleton]
    | cons next parts =>
      exact append hpart (cons hsep (ih hparts))

end Sound

mutual

theorem TypeExpr.sound_kinds : (type : TypeExpr) → Sound type.kinds
  | .named isGlobal segments _ => by
    refine .append ?_ (.intercalate rfl (NameSegment.sound_kindsOfAll segments))
    cases isGlobal with
    | true => exact .cons rfl (.cons rfl .nil)
    | false => exact .nil
  | .array element rank _ => by
    refine .append element.sound_kinds (.cons rfl (.append (fun k hk => ?_) (.cons rfl .nil)))
    rw [List.eq_of_mem_replicate hk]
    rfl
  | .nullable inner _ => .append inner.sound_kinds (.cons rfl .nil)
  | .unsupported _ => .nil

theorem NameSegment.sound_kinds : (segment : NameSegment) → Sound segment.kinds
  | .mk name types => by
    refine .cons rfl ?_
    split
    · exact .nil
    · exact .cons rfl (.append (.intercalate rfl (TypeExpr.sound_kindsOfAll types)) (.cons rfl .nil))

theorem TypeExpr.sound_kindsOfAll : (types : List TypeExpr) →
    ∀ part ∈ TypeExpr.kindsOfAll types, Sound part
  | [] => fun _ h => nomatch h
  | type :: types =>
    List.forall_mem_cons.mpr ⟨type.sound_kinds, TypeExpr.sound_kindsOfAll types⟩

theorem NameSegment.sound_kindsOfAll : (segments : List NameSegment) →
    ∀ part ∈ NameSegment.kindsOfAll segments, Sound part
  | [] => fun _ h => nomatch h
  | segment :: segments =>
    List.forall_mem_cons.mpr ⟨segment.sound_kinds, NameSegment.sound_kindsOfAll segments⟩

end

theorem Sound.number {number : String → TokenKind} (h : ∀ text, (number text).isError = false)
    (text : String) : Sound (signedKinds number text) := by
  rcases signedKinds_cases number text with ⟨digits, -, hkinds⟩ | ⟨-, hkinds⟩
  · rw [hkinds]
    exact .cons rfl (.cons (h digits) .nil)
  · rw [hkinds]
    exact .cons (h text) .nil

theorem Expr.sound_kinds (value : Expr) : Sound value.kinds := by
  obtain ⟨type, place⟩ | ⟨kind, text, place⟩ | place := value
  case typeOf => exact .cons rfl (.cons rfl (.append type.sound_kinds (.cons rfl .nil)))
  case other => exact .nil
  case literal =>
    cases kind with
    | integer | real => exact .number (fun _ => rfl) text
    | string | char | boolean | null => exact .cons rfl .nil

theorem Argument.sound_kinds (a : Argument) : Sound a.kinds := by
  obtain ⟨name, value, place⟩ := a
  refine .append ?_ value.sound_kinds
  cases name with
  | none => exact .nil
  | some name => exact .cons rfl (.cons (by cases name.mark <;> rfl) .nil)

theorem Attribute.sound_kinds (a : Attribute) : Sound a.kinds := by
  obtain ⟨name, arguments, place⟩ := a
  refine .append name.sound_kinds ?_
  cases arguments with
  | none => exact .nil
  | some list =>
    refine .cons rfl (.append (.intercalate rfl ?_) (.cons rfl .nil))
    exact List.forall_mem_map.mpr fun a _ => a.sound_kinds

theorem AttributeList.sound_kinds (list : AttributeList) : Sound list.kinds := by
  obtain ⟨target, attributes, place⟩ := list
  refine .cons rfl (.append (.append ?_ (.intercalate rfl ?_)) (.cons rfl .nil))
  · cases target with
    | none => exact .nil
    | some target => exact .cons rfl (.cons rfl .nil)
  · exact List.forall_mem_map.mpr fun a _ => a.sound_kinds

theorem Sound.of_balanced {closers kinds : List TokenKind} (h : balanced closers kinds = true) :
    Sound kinds := by
  induction kinds generalizing closers with
  | nil => exact nil
  | cons kind kinds ih =>
    rw [balanced] at h
    split at h
    next hcloser =>
      refine cons ?_ (ih h)
      cases kind <;> first | rfl | cases hcloser
    next =>
      split at h
      next hclose =>
        simp only [Bool.and_eq_true] at h
        refine cons ?_ (ih h.2)
        cases kind <;> first | rfl | cases hclose
      next =>
        simp only [Bool.and_eq_true, Bool.not_eq_true'] at h
        exact cons h.1.2 (ih h.2)

theorem SettingsClass.sound_kinds {c : SettingsClass} (hwritten : c.isWritten levels = true) :
    Sound c.kinds := by
  simp only [SettingsClass.isWritten, Bool.and_eq_true] at hwritten
  refine .cons rfl (.cons rfl (.cons rfl (.append c.base.sound_kinds (.cons rfl (.append
    (.flatMap fun p hp => ?_) (.cons rfl .nil))))))
  have hp := List.all_eq_true.mp hwritten.2 p hp
  simp only [PrintedProperty.isWritten, Bool.and_eq_true] at hp
  refine .append (.append (.append (.flatMap fun list _ => list.sound_kinds) ?_)
    p.tree.type.sound_kinds) (.cons rfl (.cons rfl (.append (.of_balanced hp.2) (.cons rfl .nil))))
  exact List.forall_mem_map.mpr fun _ _ => rfl

/-- A text with the tokens of a printed class is read without an error, as this class alone. Its
properties are the members of the class, in their order, with all their attributes. -/
theorem Source.parse_settingsClass {c : SettingsClass} (hwritten : c.isWritten 62 = true)
    {text : String} (htext : Token.kindsOf text = c.kinds ++ [.eof]) :
    (Source.parse text).errors = [] ∧ erase (Source.parse text).unit = erase c.unit := by
  have hsound : Sound (Token.kindsOf text) := by
    rw [htext]
    exact (c.sound_kinds hwritten).append (.cons rfl .nil)
  have hstart := At.ofTokens fun k hk malformed hmalformed => by
    rw [hmalformed] at hk
    cases hsound _ hk
  rw [htext] at hstart
  obtain ⟨hend, hunit⟩ := Read.reads_sourceUnit hwritten (by decide) _ hstart
  exact ⟨hend.clean, hunit⟩

namespace SettingsClass

def typeNamed (name : String) (arguments : List TypeExpr) : TypeExpr :=
  .named false [.mk ⟨name, default⟩ arguments] default

/-- A class with all that can be printed in one. -/
def sample : SettingsClass where
  name := ⟨"S", default⟩
  base := .named true [.mk ⟨"B", default⟩ [], .mk ⟨"C", default⟩ []] default
  properties :=
    [⟨{ attributes :=
          [⟨some ⟨"property", default⟩,
            [⟨typeNamed "O" [], some ⟨default, default,
                [⟨none, .literal .string "\"-n\"" default, default⟩,
                  ⟨some ⟨⟨"type", default⟩, .colon⟩,
                    .typeOf (typeNamed "L" [.nullable (typeNamed "int" []) default]) default,
                    default⟩]⟩, default⟩,
              ⟨typeNamed "R" [], some ⟨default, default,
                [⟨none, .literal .integer "-1" default, default⟩,
                  ⟨some ⟨⟨"M", default⟩, .equals⟩, .literal .boolean "true" default, default⟩]⟩,
                default⟩], default⟩]
        modifiers := [⟨"public", default⟩]
        type := .nullable (typeNamed "D"
          [typeNamed "string" [], .array (typeNamed "int" []) 2 default]) default
        name := ⟨"P", default⟩
        span := default },
      [.identifier "get", .semicolon, .identifier "set", .leftBrace, .rightBrace]⟩]

def sampleText : String :=
  "class S : global::B.C \x7b\n[property: O(\"-n\", type: typeof(L<int?>)), R(-1, M = true)]\n" ++
  "public D<string, int[,]>? P \x7b get; set \x7b\x7d \x7d // end\n\x7d"

end SettingsClass

theorem Source.parse_settingsClass_sample : SettingsClass.sample.isWritten 62 = true ∧
    Token.kindsOf SettingsClass.sampleText = SettingsClass.sample.kinds ++ [.eof] ∧
    (Source.parse SettingsClass.sampleText).errors = [] ∧
    erase (Source.parse SettingsClass.sampleText).unit = erase SettingsClass.sample.unit := by
  have hwritten : SettingsClass.sample.isWritten 62 = true := by decide +kernel
  have htext : Token.kindsOf SettingsClass.sampleText = SettingsClass.sample.kinds ++ [.eof] := by
    decide +kernel
  exact ⟨hwritten, htext, Source.parse_settingsClass hwritten htext⟩

/-! ## One level too many -/

namespace SettingsClass

/-- A generic type that is nested in itself. -/
def nestedType : Nat → TypeExpr
  | 0 => typeNamed "A" []
  | levels + 1 => typeNamed "A" [nestedType levels]

/-- A class with one property, whose type has the levels of type arguments. -/
def nested (levels : Nat) : SettingsClass :=
  ⟨⟨"C", default⟩, typeNamed "B" [],
    [⟨⟨[], [], nestedType levels, ⟨"P", default⟩, default⟩, []⟩]⟩

def nestedText (levels : Nat) : String :=
  "class C : B \x7b " ++ String.ofList (List.replicate levels ['A', '<']).flatten ++ "A" ++
    String.ofList (List.replicate levels '>') ++ " P \x7b \x7d \x7d"

end SettingsClass

/-- With 63 levels of type arguments a class is not read without an error: the class and the type
itself are levels, too. -/
theorem Source.parse_nested_63 : (SettingsClass.nested 63).isWritten 63 = true ∧
    Token.kindsOf (SettingsClass.nestedText 63) = (SettingsClass.nested 63).kinds ++ [.eof] ∧
    (Source.parse (SettingsClass.nestedText 63)).errors ≠ [] := by
  have htext : Token.kindsOf (SettingsClass.nestedText 63) =
      (SettingsClass.nested 63).kinds ++ [.eof] := by decide +kernel
  refine ⟨by decide +kernel, htext, fun herrors => ?_⟩
  rw [Source.errors_parse_eq_nil_iff, htext] at herrors
  revert herrors
  decide +kernel

end SettingsLint
