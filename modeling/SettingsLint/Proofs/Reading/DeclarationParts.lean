import Mathlib.Tactic.Set
import SettingsLint.Proofs.Reading.MemberParts

/-! # Declarations and units part by part

A type declaration has a header, and a body in braces or a semicolon. A header takes a keyword and a
name at least, so a declaration that is read without an error takes a token. The items of a unit are
told apart by at most three tokens, apart from type declarations and statements, and take a token,
too.
-/

set_option synthInstance.maxSize 1024

namespace SettingsLint

/-- What an item of a unit is by its first three tokens. -/
inductive UnitForm where
  | empty
  | directive
  | foreign
  | scope
  | assembly
  /-- A type declaration or a statement. -/
  | code

/-- What the item at the cursor is. -/
def Cursor.unitForm (s : Cursor) : UnitForm :=
  if s.kind = .semicolon then .empty
  else if s.atUsing then .directive
  else if s.atWord "extern" && (s.peek 1).isWord "alias" then .foreign
  else if s.atWord "namespace" then .scope
  else if s.atAssemblyAttribute then .assembly
  else .code

namespace Read

/-! ## Headers -/

variable {s : Cursor}

/-- If the reader finds something at the cursor it takes a token. -/
def FindsAt (r : Read (Option α)) (s : Cursor) : Prop :=
  EndsInEof s.tokens → (r s).1 ≠ none → (r s).2.size < s.size

theorem FindsAt.of_word {word : String} {r q : Read (Option α)} [hr : Forward r]
    (hq : FindsAt q s) : FindsAt (do if ← eatWord word then r else q) s := by
  intro hs hfound
  by_cases hword : s.atWord word = true
  · have heof : s.kind ≠ .eof := by
      intro heof
      simp [Cursor.atWord, heof, TokenKind.isWord, TokenKind.name?] at hword
    rw [bind_apply, eatWord_of hword]
    exact Nat.lt_of_le_of_lt (hr.reaches _).size_le (size_advance_lt heof hs)
  · rw [bind_apply, eatWord_of_not hword] at hfound ⊢
    exact hq hs hfound

/-- The keyword of a type declaration takes a token. -/
theorem findsAt_declarationKind (s : Cursor) : FindsAt declarationKind s := by
  refine .of_word (.of_word (.of_word (.of_word (.of_word fun _ h => ?_))))
  exact absurd rfl h

theorem errors_advance (s : Cursor) : s.advance.errors = s.errors := by
  unfold Cursor.advance
  split
  · rfl
  · split <;> rfl

theorem errors_eat (kind : TokenKind) (s : Cursor) : (eat kind s).2.errors = s.errors := by
  by_cases hk : s.kind = kind
  · rw [eat_of_eq hk]
    exact errors_advance s
  · rw [eat_of_ne hk]

variable {first : Span} {attributes : List AttributeList} {mods : List Ident}

/-- The header of a type declaration after its keyword and name. -/
def headerAfter (first : Span) (attributes : List AttributeList) (modifiers : List Ident)
    (kind : DeclarationKind) (name : Ident) : Read (Option DeclarationHeader) := do
  let typeParameters ← typeParameters
  let primaryParameters ←
    if (← Read.kind) = .leftParen then some <$> parameterList else pure none
  let bases ← baseTypes
  skipConstraints
  return some
    ⟨attributes, modifiers, kind, name, typeParameters, primaryParameters, bases, first⟩

instance (kind : DeclarationKind) (name : Ident) :
    Forward (headerAfter first attributes mods kind name) := by
  unfold headerAfter
  infer_instance

variable (first attributes mods) in
theorem exists_headerAfter (kind : DeclarationKind) (name : Ident) (s : Cursor) :
    ∃ header, (headerAfter first attributes mods kind name s).1 = some header := by
  rw [headerAfter, bind_apply, bind_apply]
  split <;> exact ⟨_, rfl⟩

theorem typeHeader_of_some {kind : DeclarationKind} {name : String}
    (hkind : (declarationKind s).1 = some kind)
    (hname : (declarationKind s).2.kind.name? = some name) :
    typeHeader first attributes mods s =
      headerAfter first attributes mods kind ⟨name, (declarationKind s).2.span⟩
        (advance (declarationKind s).2).2 := by
  rw [typeHeader, bind_apply, hkind]
  show (ident "a type name" >>= _ : Read (Option DeclarationHeader)) _ = _
  rw [bind_apply, ident_of_some hname]
  rfl

/-- Without a keyword and a name there is an error. -/
theorem errors_typeHeader
    (h : (declarationKind s).1 = none ∨ (declarationKind s).2.kind.name? = none) :
    (typeHeader first attributes mods s).2.errors ≠ [] := by
  have hfault (t : Cursor) (fault : SyntaxFault) (place : Span) :=
    errors_ne_nil_of_report (s := t) (r := do recoverMember; return (none : Option DeclarationHeader))
      fault place
  rw [typeHeader, bind_apply]
  cases hkind : (declarationKind s).1 with
  | none => exact hfault _ _ _
  | some kind =>
    have hname := h.resolve_left (by simp [hkind])
    show ((ident "a type name" >>= _ : Read (Option DeclarationHeader)) _).2.errors ≠ []
    rw [bind_apply, ident_of_none hname]
    exact hfault _ _ _

/-- A header that is read without an error takes at least a keyword and a name. -/
theorem exists_typeHeader (hs : EndsInEof s.tokens)
    (hclean : (typeHeader first attributes mods s).2.errors = []) :
    ∃ header, (typeHeader first attributes mods s).1 = some header ∧
      (typeHeader first attributes mods s).2.size + 2 ≤ s.size := by
  obtain ⟨kind, hkind⟩ : ∃ kind, (declarationKind s).1 = some kind :=
    Option.ne_none_iff_exists'.mp fun h => errors_typeHeader (.inl h) hclean
  obtain ⟨name, hname⟩ : ∃ name, (declarationKind s).2.kind.name? = some name :=
    Option.ne_none_iff_exists'.mp fun h => errors_typeHeader (.inr h) hclean
  have heof : (declarationKind s).2.kind ≠ .eof := by
    intro heof
    simp [heof, TokenKind.name?] at hname
  have hkeyword := findsAt_declarationKind s hs (by simp [hkind])
  have hword : (advance (declarationKind s).2).2.size < (declarationKind s).2.size :=
    size_advance_lt heof ((Forward.reaches s).endsInEof hs)
  rw [typeHeader_of_some hkind hname]
  set name : Ident := ⟨name, (declarationKind s).2.span⟩
  have hrest := (Forward.reaches (r := headerAfter first attributes mods kind name)
    (advance (declarationKind s).2).2).size_le
  obtain ⟨header, hheader⟩ := exists_headerAfter first attributes mods kind name
    (advance (declarationKind s).2).2
  exact ⟨header, hheader, by omega⟩

/-! ## Bodies -/

section

variable {nestedType : TypeReader}

/-- The members between the braces of a type. -/
def typeItems (nestedType : TypeReader) (kind : DeclarationKind) (typeName : String) :
    Read (List Member) := do
  if kind = .enumDecl then
    skipEnumMembers
    return []
  else members nestedType typeName

/-- The brace that closes a body. -/
def closeBody (opening : Span) (items : List Member) : Read (List Member) := do
  if (← eat .rightBrace).isNone then report (.unclosed '\x7b') opening
  return items

instance (opening : Span) (items : List Member) : Forward (closeBody opening items) := by
  unfold closeBody
  infer_instance

variable {kind : DeclarationKind} {typeName : String}

variable (nestedType kind typeName) in
theorem typeBody_of_brace (hk : s.kind = .leftBrace) :
    typeBody nestedType kind typeName s =
      (advance >>= fun opening => typeItems nestedType kind typeName >>= closeBody opening) s := by
  rw [typeBody, bind_apply, eat_of_eq hk, typeItems]
  by_cases henum : kind = .enumDecl
  · simp only [if_pos henum]
    rfl
  · simp only [if_neg henum]
    rfl

variable (nestedType kind typeName) in
theorem typeBody_of_semicolon (hk : s.kind = .semicolon) :
    typeBody nestedType kind typeName s = ([], s) := by
  rw [typeBody, bind_apply, eat_of_ne (by simp [hk])]
  show (if s.kind ≠ .semicolon then _ else _ : Read (List Member)) s = _
  rw [if_neg (by simp [hk])]
  rfl

/-- A body starts with a brace, or a semicolon stands for it. -/
theorem kind_of_typeBody_clean (hclean : (typeBody nestedType kind typeName s).2.errors = []) :
    s.kind = .leftBrace ∨ s.kind = .semicolon := by
  refine Classical.byContradiction fun hk => ?_
  obtain ⟨hbrace, hsemicolon⟩ := not_or.mp hk
  rw [typeBody, bind_apply, eat_of_ne hbrace] at hclean
  change ((if s.kind ≠ .semicolon then _ else _ : Read (List Member)) s).2.errors = [] at hclean
  rw [if_pos hsemicolon] at hclean
  exact errors_ne_nil_of_report (r := do recoverMember; return ([] : List Member)) _ _ hclean

theorem closeBody_of_brace {opening : Span} {items : List Member} (hk : s.kind = .rightBrace) :
    closeBody opening items s = ((fun _ => items) <$> advance) s := by
  rw [closeBody, bind_apply, eat_of_eq hk]
  rfl

theorem kind_of_closeBody_clean {opening : Span} {items : List Member}
    (hclean : (closeBody opening items s).2.errors = []) : s.kind = .rightBrace := by
  refine Classical.byContradiction fun hk => ?_
  rw [closeBody, bind_apply, eat_of_ne hk] at hclean
  exact errors_ne_nil_of_report (r := (pure items : Read (List Member))) _ _ hclean

instance [∀ first attributes mods, Forward (nestedType first attributes mods)] :
    Forward (typeItems nestedType kind typeName) := by
  unfold typeItems
  infer_instance

end

theorem takes_typeRestWithin (levels : Nat) (first : Span) (attributes : List AttributeList)
    (mods : List Ident) : Takes (typeRestWithin levels first attributes mods) := by
  induction levels generalizing first attributes mods with
  | zero => exact fun s => takesAt_of_fault (refuse_ne_clean skippedDeclaration s)
  | succ levels ih =>
    refine Takes.nested fun s => TakesAt.bind_of (fun hs hclean => ?_) fun header => ?_
    · obtain ⟨-, -, hsize⟩ := exists_typeHeader hs hclean
      omega
    · cases header <;> infer_instance

/-! ## Items of a unit -/

section

variable (block : Read (Option (List UnitItem)))

/-- A type declaration or a statement. -/
def codeItem : Read (Option UnitItem) := do
  if (← get).atTypeDeclaration then
    return (← typeDeclaration).map (fun declaration => .member (.type declaration))
  else
    skipStatement
    return none

/-- The next item of a block, which is of the form. -/
def itemOf : UnitForm → Read (Option UnitItem)
  | .empty => do
    let _ ← advance
    return none
  | .directive => do return some (.using (← usingDirective))
  | .foreign => do
    skipThroughSemicolon
    return none
  | .scope => namespaceItem block
  | .assembly => do
    skipGroup
    return none
  | .code => codeItem

theorem unitItem_eq (s : Cursor) : unitItem block s = itemOf block s.unitForm s := by
  unfold Cursor.unitForm
  rw [unitItem, get_bind, bind_apply]
  by_cases hk : s.kind = .semicolon
  · rw [if_pos hk, eat_of_eq hk]
    rfl
  rw [if_neg hk, eat_of_ne hk]
  by_cases h1 : s.atUsing = true
  · rw [if_pos h1, if_pos h1]
    rfl
  rw [if_neg h1, if_neg h1]
  by_cases h2 : (s.atWord "extern" && (s.peek 1).isWord "alias") = true
  · rw [if_pos h2, if_pos h2]
    rfl
  rw [if_neg h2, if_neg h2]
  by_cases h3 : s.atWord "namespace" = true
  · rw [if_pos h3, if_pos h3]
    rfl
  rw [if_neg h3, if_neg h3]
  by_cases h4 : s.atAssemblyAttribute = true
  · rw [if_pos h4, if_pos h4]
    rfl
  rw [if_neg h4, if_neg h4]
  rfl

instance : Forward codeItem := by
  unfold codeItem
  infer_instance

instance [Forward block] (form : UnitForm) : Forward (itemOf block form) := by
  cases form <;> (unfold itemOf; infer_instance)

/-- What is skipped of a statement, before a token is stepped over. -/
def statementPart (s : Cursor) : Read Unit :=
  if s.kind = .leftBrace then skipGroup else skipThroughSemicolon

instance : Forward (statementPart s) := by
  unfold statementPart
  infer_instance

theorem skipStatement_eq (s : Cursor) : skipStatement s =
    if (statementPart s s).2.size = s.size then ((), (statementPart s s).2.advance)
    else statementPart s s := by
  have hrun : skipStatement s = (do
      statementPart s
      if (← get).size = s.size then let _ ← advance) s := by
    rw [skipStatement, get_bind, statementPart]
    split <;> rfl
  rw [hrun]
  show (if (statementPart s s).2.size = s.size then _ else _ : Read Unit) (statementPart s s).2 = _
  split <;> rfl

/-- A statement takes a token, even if nothing of it can be skipped. -/
theorem size_skipStatement_lt (hk : s.kind ≠ .eof) (hs : EndsInEof s.tokens) :
    (skipStatement s).2.size < s.size := by
  have hreach := Forward.reaches (r := statementPart s) s
  have hle := hreach.size_le
  rw [skipStatement_eq]
  split
  case isTrue hsize =>
    -- Nothing was skipped, so the token stepped over is the first one.
    have hsame : (statementPart s s).2.tokens = s.tokens :=
      hreach.suffix.eq_of_length (congrArg (· + 1) hsize)
    have hkind : (statementPart s s).2.kind = s.kind :=
      congrArg Token.kind (List.cons.inj hsame).1
    have hlt := size_advance_lt (hkind ▸ hk) (hsame ▸ hs)
    exact hsize ▸ hlt
  case isFalse hsize => omega

/-- The end of a namespace with the items. -/
def scopeEnd (name : List Ident) (first : Span) (items : List UnitItem) : Read (Option UnitItem) := do
  let (usings, members) := UnitItem.assemble (← get).previousStop items
  if (← expect .rightBrace "`\x7d`").isNone then report (.unclosed '\x7b') first
  let _ ← eat .semicolon
  let whole ← spanFrom first
  return some (.member (.scope ⟨name, false, usings, whole⟩ members))

/-- A namespace block after its opening brace. -/
def scopeBlock (name : List Ident) (first : Span) : Read (Option UnitItem) := do
  match ← block with
  | none => return none
  | some items => scopeEnd name first items

theorem scopeBlock_eq (name : List Ident) (first : Span) (s : Cursor) : scopeBlock block name first s
    = (match (block s).1 with
      | none => pure none
      | some items => scopeEnd name first items : Read (Option UnitItem)) (block s).2 := rfl

/-- A namespace after its name. -/
def scopeRest (name : List Ident) (first : Span) : Read (Option UnitItem) := do
  if (← eat .semicolon).isSome then return some (.fileScope name first)
  else if (← expect .leftBrace "`\x7b` or `;`").isNone then
    recoverMember
    return none
  else scopeBlock block name first

/-- A namespace after its keyword. -/
def scopeAfter (first : Span) : Read (Option UnitItem) := do
  match ← namespaceName with
  | none => return none
  | some name => scopeRest block name first

theorem namespaceItem_eq : namespaceItem block = advance >>= scopeAfter block := rfl

section

variable [Forward block]

instance (name : List Ident) (first : Span) (items : List UnitItem) : Forward (scopeEnd name first items) := by
  unfold scopeEnd
  infer_instance

instance (name : List Ident) (first : Span) : Forward (scopeBlock block name first) :=
  .bind inferInstance fun items => by cases items <;> infer_instance

instance (name : List Ident) (first : Span) : Forward (scopeRest block name first) := by
  unfold scopeRest
  infer_instance

instance (first : Span) : Forward (scopeAfter block first) :=
  .bind inferInstance fun name => by cases name <;> infer_instance

end

end

end Read

end SettingsLint
