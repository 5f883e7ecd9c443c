import SettingsLint.Proofs.Printing.Types

/-! # Reading printed attributes

Printed arguments, attributes and attribute lists are read back. What a reader looks ahead for
is never there by accident: a value is not taken for a name, and an attribute is not taken for a
target, since neither is followed by a colon.
-/

namespace SettingsLint

open Placed (erase)

variable {d levels : Nat} {v : List TokenKind} {k : TokenKind}

namespace At

variable {s : Cursor}

/-- A literal at the cursor has no sign of its own. -/
theorem head?_ne_minus (h : At d (k :: v) s) (hk : k.isLiteral = true) :
    k.text.toList.head? ≠ some '-' := by
  obtain ⟨text, hsuffix⟩ := h.lexed
  have hmem : s.current ∈ Token.lexToEnd text := hsuffix.subset List.mem_cons_self
  have hkind : s.current.kind = k := h.kind
  rw [← hkind] at hk ⊢
  exact Token.head?_ne_minus_of_mem_lexToEnd hmem hk

theorem atArgumentEnd (h : At d (k :: v) s) (hk : k = .comma ∨ k = .rightParen) :
    s.atArgumentEnd = true := by
  rcases hk with rfl | rfl <;> simp [Cursor.atArgumentEnd, h.kind]

end At

/-! ## Literals -/

/-- A number has a sign, printed as a token of its own, or it has none. -/
theorem signedKinds_cases (number : String → TokenKind) (text : String) :
    (∃ digits, text = "-" ++ digits ∧ signedKinds number text = [.operator '-', number digits]) ∨
      (text.toList.head? ≠ some '-' ∧ signedKinds number text = [number text]) := by
  unfold signedKinds
  split
  next digits heq =>
    refine .inl ⟨String.ofList digits, ?_, rfl⟩
    rw [← String.toList_inj, heq]
    simp
  next hne =>
    refine .inr ⟨fun hhead => ?_, rfl⟩
    obtain ⟨digits, heq⟩ := List.head?_eq_some_iff.mp hhead
    exact hne digits heq

namespace Read

/-- A literal of one token. -/
theorem reads_literal {k' : TokenKind} {kind : LiteralKind} {text : String}
    (hliteral : k'.literal? = some (kind, text)) (hsign : text.toList.head? ≠ some '-')
    (hk : k = .comma ∨ k = .rightParen) (place : Span) :
    Reads argumentValue d (k' :: k :: v) (k :: v) (.literal kind text place) := by
  have htypeof : k'.isWord "typeof" = false := by
    refine Bool.eq_false_iff.mpr fun hword => ?_
    cases k' with
    | identifier name =>
      obtain rfl : name = "typeof" := by simpa [TokenKind.isWord, TokenKind.name?] using hword
      cases hliteral
    | _ => cases hword
  have hminus : k' ≠ .operator '-' := by rintro rfl; cases hliteral
  have heof : k' ≠ .eof := by rintro rfl; cases hliteral
  refine .get fun s hs => .of_neg (by simp [hs.atWord, htypeof]) ?_
  rw [Cursor.literal?, hs.kind, if_neg hminus, hliteral]
  refine (Reads.advance heof default).bind fun _ _ => .of_neg hsign (.get fun s' hs' => ?_)
  refine .of_pos (hs'.atArgumentEnd hk) ?_
  exact (Reads.spanFrom _ default).bind fun _ _ => .pure rfl

/-- A number after a minus sign. -/
theorem reads_signed {k' : TokenKind} {kind : LiteralKind} {digits : String}
    (hliteral : k'.literal? = some (kind, digits)) (hkind : kind = .integer ∨ kind = .real)
    (hk : k = .comma ∨ k = .rightParen) (place : Span) :
    Reads argumentValue d (.operator '-' :: k' :: k :: v) (k :: v)
      (.literal kind ("-" ++ digits) place) := by
  have heof : k' ≠ .eof := by rintro rfl; cases hliteral
  refine .get fun s hs => .of_neg (by simp [hs.atWord, TokenKind.isWord, TokenKind.name?]) ?_
  have hnumber : s.literal? = some (kind, "-" ++ digits) := by
    rw [Cursor.literal?, hs.kind, hs.peek_one, hliteral]
    rcases hkind with rfl | rfl <;> rfl
  rw [hnumber]
  refine (Reads.advance TokenKind.noConfusion default).bind fun _ _ => .of_pos (by simp) ?_
  refine (Reads.advance heof default).bind fun _ _ => .get fun s' hs' => ?_
  refine .of_pos (hs'.atArgumentEnd hk) ?_
  exact (Reads.spanFrom _ default).bind fun _ _ => .pure rfl

/-- A number, with or without a sign. -/
theorem reads_number {number : String → TokenKind} {kind : LiteralKind}
    (hliteral : ∀ text, (number text).literal? = some (kind, text))
    (hkind : kind = .integer ∨ kind = .real) (text : String)
    (hk : k = .comma ∨ k = .rightParen) (place : Span) :
    Reads argumentValue d (signedKinds number text ++ k :: v) (k :: v)
      (.literal kind text place) := by
  rcases signedKinds_cases number text with ⟨digits, rfl, hkinds⟩ | ⟨hsign, hkinds⟩
  · rw [hkinds]
    exact reads_signed (hliteral digits) hkind hk place
  · rw [hkinds]
    exact reads_literal (hliteral text) hsign hk place

/-! ## Arguments -/

theorem reads_typeOf {type : TypeExpr} (hwritten : type.isWritten = true)
    (hlevels : type.levels ≤ levels) (hd : d + levels < maxNesting)
    (hk : k = .comma ∨ k = .rightParen) (place : Span) :
    Reads argumentValue d ((Expr.typeOf type place).kinds ++ k :: v) (k :: v)
      (.typeOf type place) := by
  simp only [Expr.kinds, List.cons_append, List.append_assoc]
  refine .get fun s hs => .of_pos ?_ ?_
  · simp [hs.atWord, hs.peek_one, TokenKind.isWord, TokenKind.name?]
  · refine (Reads.advance TokenKind.noConfusion default).bind fun _ _ => ?_
    refine (Reads.advance TokenKind.noConfusion default).bind fun _ _ => ?_
    refine (readsTypes_typeExpr hd _ _ _ hwritten (Nat.lt_succ_of_le hlevels) rfl).bind
      fun type' htype => ?_
    refine (Reads.expect TokenKind.noConfusion default).bind_some fun _ _ => .get fun s' hs' => ?_
    refine .of_pos (by simp [hs'.atArgumentEnd hk]) ?_
    exact (Reads.spanFrom _ default).bind fun _ _ => .pure (congrArg (Expr.typeOf · default) htype)

/-- A printed value is read before a comma or a closing parenthesis. -/
theorem reads_argumentValue {value : Expr} (hwritten : value.isWritten levels = true)
    (hd : d + levels < maxNesting) (hk : k = .comma ∨ k = .rightParen) :
    Reads argumentValue d (value.kinds ++ k :: v) (k :: v) value := by
  obtain ⟨type, place⟩ | ⟨kind, text, place⟩ | place := value
  case typeOf =>
    simp only [Expr.isWritten, Bool.and_eq_true, decide_eq_true_eq] at hwritten
    exact reads_typeOf hwritten.1 hwritten.2 hd hk place
  case other => cases hwritten
  case literal =>
    cases kind with
    | integer => exact reads_number (fun _ => rfl) (.inl rfl) text hk place
    | real => exact reads_number (fun _ => rfl) (.inr rfl) text hk place
    | string => exact fun s hs => reads_literal rfl (hs.head?_ne_minus rfl) hk place s hs
    | char => exact fun s hs => reads_literal rfl (hs.head?_ne_minus rfl) hk place s hs
    | boolean =>
      have htext : text = "true" ∨ text = "false" := by simpa [Expr.isWritten] using hwritten
      rcases htext with rfl | rfl <;> exact reads_literal rfl (by decide) hk place
    | null =>
      obtain rfl : text = "null" := by simpa [Expr.isWritten] using hwritten
      exact reads_literal rfl (by decide) hk place

/-- The tokens start a value: they do not end a list, and no mark stands after the first one. -/
def StartsValue : List TokenKind → Prop
  | [] => False
  | k :: w => k ≠ .rightParen ∧ k ≠ .eof ∧ ∀ k' ∈ w.head?, k'.argumentMark? = none

theorem startsValue_number {number : String → TokenKind}
    (hnumber : ∀ text, (number text).isLiteral = true) (text : String) :
    StartsValue (signedKinds number text) := by
  have hliteral (kind : TokenKind) (h : kind.isLiteral = true) :
      kind.argumentMark? = none ∧ kind ≠ .rightParen ∧ kind ≠ .eof := by
    cases kind with
    | integer | real | string | char => exact ⟨rfl, nofun, nofun⟩
    | _ => cases h
  rcases signedKinds_cases number text with ⟨digits, rfl, hkinds⟩ | ⟨-, hkinds⟩
  · rw [hkinds]
    refine ⟨nofun, nofun, fun k' hk' => ?_⟩
    obtain rfl : number digits = k' := by simpa using hk'
    exact (hliteral _ (hnumber digits)).1
  · rw [hkinds]
    exact ⟨(hliteral _ (hnumber text)).2.1, (hliteral _ (hnumber text)).2.2, by simp⟩

theorem startsValue_kinds {value : Expr} (hwritten : value.isWritten levels = true) :
    StartsValue value.kinds := by
  obtain ⟨type, place⟩ | ⟨kind, text, place⟩ | place := value
  case typeOf =>
    refine ⟨nofun, nofun, fun k' hk' => ?_⟩
    obtain rfl : TokenKind.leftParen = k' := by simpa using hk'
    rfl
  case other => cases hwritten
  case literal =>
    cases kind with
    | integer | real => exact startsValue_number (fun _ => rfl) text
    | string | char | boolean | null =>
      exact ⟨nofun, nofun, by simp⟩

theorem argumentMark?_tokenKind (mark : ArgumentMark) :
    mark.tokenKind.argumentMark? = some mark := by cases mark <;> rfl

theorem reads_argumentName_some (name : ArgumentName) :
    Reads argumentName d (name.kinds ++ v) v (some name) := by
  have hmark : name.mark.tokenKind ≠ .eof := by cases name.mark <;> exact nofun
  refine .get fun s hs => ?_
  rw [hs.peek_one, argumentMark?_tokenKind]
  refine .of_pos (by rw [hs.atName]; rfl) ?_
  refine (Reads.ident name.name).bind_some fun name' hname => ?_
  refine (Reads.advance hmark default).bind fun _ _ => .pure ?_
  exact congrArg (fun n => some (ArgumentName.mk n name.mark)) hname

theorem reads_argumentName_none {u : List TokenKind} (hu : StartsValue u)
    (hk : k.argumentMark? = none) : Reads argumentName d (u ++ k :: v) (u ++ k :: v) none := by
  refine .get fun s hs => ?_
  have hmark : (s.peek 1).argumentMark? = none := by
    match u, hu with
    | [_], _ => rwa [hs.peek_one]
    | _ :: k' :: _, hu =>
      rw [hs.peek_one]
      exact hu.2.2 k' rfl
  rw [hmark]
  exact .pure rfl

/-- A printed argument is read before a comma or a closing parenthesis. -/
theorem reads_argument {a : Argument} (hwritten : a.value.isWritten levels = true)
    (hd : d + levels < maxNesting) (hk : k = .comma ∨ k = .rightParen) :
    Reads argument d (a.kinds ++ k :: v) (k :: v) a := by
  obtain ⟨name, value, place⟩ := a
  have hvalue := reads_argumentValue (v := v) hwritten hd hk
  have hname : Reads argumentName d ((Argument.mk name value place).kinds ++ k :: v)
      (value.kinds ++ k :: v) name := by
    cases name with
    | some name =>
      exact reads_argumentName_some name
    | none =>
      have hmark : k.argumentMark? = none := by rcases hk with rfl | rfl <;> rfl
      exact reads_argumentName_none (startsValue_kinds hwritten) hmark
  refine (Reads.span default).bind fun first _ => hname.bind fun name' hname => ?_
  refine hvalue.bind fun value' hvalue => ?_
  exact (Reads.spanFrom first default).bind fun _ _ => .pure (by simp [hname, hvalue])

/-! ## Lists with commas -/

section

variable [Placed α] {item : Read (Option α)} {closing : TokenKind} {print : α → List TokenKind}

/-- Printed items are read up to the token that closes their list, if each one is read before a
comma and before that token. -/
theorem reads_list {as : List α} (hcomma : closing ≠ .comma)
    (hfirst : ∀ a ∈ as, ∃ k w, print a = k :: w ∧ k ≠ closing ∧ k ≠ .eof)
    (hitem : ∀ a ∈ as, ∀ k v, k = .comma ∨ k = closing →
      Reads item d (print a ++ k :: v) (k :: v) (some a)) :
    Reads (gather (listItem closing item)) d ([.comma].intercalate (as.map print) ++ closing :: v)
      (closing :: v) as := by
  by_cases hne : as = []
  · subst hne
    refine .gather_end (.get fun s hs => .of_pos ?_ (.pure rfl))
    simp [hs.kind]
  · -- No item starts like the end of the list.
    have hstart (a : α) (ha : a ∈ as) (u : List TokenKind) (s : Cursor)
        (hs : At d (print a ++ u) s) : ¬(s.kind = closing || s.atEnd) = true := by
      obtain ⟨k, w, hprint, hclosing, heof⟩ := hfirst a ha
      rw [hprint] at hs
      simp [hs.kind, hclosing, Cursor.atEnd, TokenKind.isEof_eq_false heof]
    refine .gather_intercalate hne (fun a ha => ?_) fun a ha b _ w => ?_
    · refine .get fun s hs => .of_neg (hstart a ha _ s hs) ?_
      refine (hitem a ha closing v (.inr rfl)).bind_some fun a' ha' => ?_
      exact (Reads.eat_none hcomma).bind_none (.pure (by simp [ha']))
    · refine .get fun s hs => .of_neg (hstart a ha _ s hs) ?_
      refine (hitem a ha .comma _ (.inl rfl)).bind_some fun a' ha' => ?_
      refine (Reads.eat_some TokenKind.noConfusion default).bind_some fun _ _ => ?_
      exact .pure (by simp [ha'])

end

theorem exists_argument_kinds {a : Argument} (hwritten : a.value.isWritten levels = true) :
    ∃ k w, a.kinds = k :: w ∧ k ≠ .rightParen ∧ k ≠ .eof := by
  obtain ⟨name, value, place⟩ := a
  cases name with
  | some name => exact ⟨_, _, rfl, nofun, nofun⟩
  | none =>
    have hvalue := startsValue_kinds hwritten
    cases hkinds : value.kinds with
    | nil =>
      rw [hkinds] at hvalue
      exact hvalue.elim
    | cons k w =>
      rw [hkinds] at hvalue
      exact ⟨k, w, hkinds, hvalue.1, hvalue.2.1⟩

/-- Printed arguments are read with their parentheses. -/
theorem reads_argumentList {list : ArgumentList}
    (hwritten : list.arguments.all (·.value.isWritten levels) = true)
    (hd : d + levels < maxNesting) : Reads argumentList d (list.kinds ++ v) v list := by
  obtain ⟨opening, closing, arguments⟩ := list
  have hmem (a : Argument) (ha : a ∈ arguments) : a.value.isWritten levels = true :=
    List.all_eq_true.mp hwritten a ha
  simp only [ArgumentList.kinds, List.cons_append, List.append_assoc]
  refine (Reads.advance TokenKind.noConfusion default).bind fun _ _ => ?_
  refine (reads_list TokenKind.noConfusion (fun a ha => exists_argument_kinds (hmem a ha))
    fun a ha k v hk => ?_).bind fun arguments' harguments => ?_
  · exact (reads_argument (hmem a ha) hd hk).map fun a' ha' => by rw [erase_some, erase_some, ha']
  · refine (Reads.expect TokenKind.noConfusion default).bind_some fun _ _ => .pure ?_
    simp [harguments]

/-! ## Attributes -/

/-- A printed attribute is read before a comma or the bracket that closes its list. -/
theorem reads_namedAttribute {a : Attribute} (hwritten : a.isWritten levels = true)
    (hd : d + levels < maxNesting) (hk : k = .comma ∨ k = .rightBracket) :
    Reads namedAttribute d (a.kinds ++ k :: v) (k :: v) a := by
  obtain ⟨name, arguments, place⟩ := a
  simp only [Attribute.isWritten, Bool.and_eq_true, decide_eq_true_eq] at hwritten
  obtain ⟨⟨⟨hnamed, hname⟩, hlevels⟩, harguments⟩ := hwritten
  rw [Attribute.kinds, List.append_assoc]
  refine (Reads.span default).bind fun first _ => ?_
  cases arguments with
  | none =>
    have hends : k.endsName = true := by rcases hk with rfl | rfl <;> rfl
    have hparen : k ≠ .leftParen := by rcases hk with rfl | rfl <;> exact nofun
    refine (reads_qualifiedName (readsTypes_typeExpr hd) hends hnamed hname hlevels).bind
      fun name' hname => .kind (.of_neg hparen ?_)
    exact (Reads.spanFrom first default).bind fun _ _ => .pure (by simp [hname])
  | some list =>
    have hlist : Reads (some <$> argumentList) d (list.kinds ++ k :: v) (k :: v) (some list) :=
      (reads_argumentList harguments hd).map fun list' h => by rw [erase_some, erase_some, h]
    refine (reads_qualifiedName (readsTypes_typeExpr hd) rfl hnamed hname hlevels).bind
      fun name' hname => .kind (.of_pos rfl ?_)
    refine hlist.bind_some fun list' hlist => ?_
    exact (Reads.spanFrom first default).bind fun _ _ => .pure (by simp [hname, hlist])

/-- A printed attribute starts with a name, and no colon stands after it. -/
theorem exists_attribute_kinds {a : Attribute} (hwritten : a.isWritten levels = true)
    (hk : k ≠ .colon) (v : List TokenKind) :
    ∃ name k' w, k' ≠ .colon ∧ a.kinds ++ k :: v = .identifier name :: k' :: w := by
  obtain ⟨name, arguments, place⟩ := a
  simp only [Attribute.isWritten, Bool.and_eq_true] at hwritten
  obtain ⟨⟨⟨hnamed, hname⟩, -⟩, -⟩ := hwritten
  obtain ⟨isGlobal, segments, place⟩ | _ := name
  case array | nullable | unsupported => cases hnamed
  cases isGlobal with
  | true => exact ⟨_, _, _, TokenKind.noConfusion, rfl⟩
  | false =>
    have hne : segments ≠ [] := by
      rintro rfl
      cases hname
    -- After the name of the attribute come its arguments or what comes after it.
    obtain ⟨k₀, w₀, hk₀, hrest⟩ : ∃ k₀ w₀, k₀ ≠ .colon ∧
        arguments.elim [] ArgumentList.kinds ++ k :: v = k₀ :: w₀ := by
      cases arguments with
      | none => exact ⟨k, v, hk, rfl⟩
      | some list => exact ⟨_, _, TokenKind.noConfusion, rfl⟩
    obtain ⟨word, k', w, hk', hw⟩ := exists_second_kind hne k₀ w₀
    refine ⟨word, k', w, ?_, ?_⟩
    · rintro rfl
      simp only [List.mem_cons, List.not_mem_nil, reduceCtorEq, false_or, or_false] at hk'
      exact hk₀ hk'.symm
    · rw [Attribute.kinds, List.append_assoc, hrest, TypeExpr.kinds, NameSegment.kindsOfAll_eq_map]
      exact hw

theorem reads_attributeItem {a : Attribute} (hwritten : a.isWritten levels = true)
    (hd : d + levels < maxNesting) (hk : k = .comma ∨ k = .rightBracket) :
    Reads attributeItem d (a.kinds ++ k :: v) (k :: v) (some a) := by
  have hcolon : k ≠ .colon := by rcases hk with rfl | rfl <;> exact nofun
  obtain ⟨name, k', w, -, hkinds⟩ := exists_attribute_kinds hwritten hcolon v
  refine .get fun s hs => .of_pos ?_ ?_
  · rw [hkinds] at hs
    rw [hs.atName]
    rfl
  · exact (reads_namedAttribute hwritten hd hk).map fun a' h => by rw [erase_some, erase_some, h]

theorem reads_attributeTarget_some (target : Ident) :
    Reads attributeTarget d (.identifier target.name :: .colon :: v) v (some target) := by
  refine .get fun s hs => .of_pos ?_ ?_
  · simp [hs.atName, hs.peek_one, TokenKind.name?]
  · refine (Reads.ident target).bind fun target' htarget => ?_
    exact (Reads.advance TokenKind.noConfusion default).bind fun _ _ => .pure htarget

/-- Where attributes come at once there is no target. -/
theorem reads_attributeTarget_none {attributes : List Attribute}
    (hwritten : attributes.all (·.isWritten levels) = true) :
    Reads attributeTarget d
      ([.comma].intercalate (attributes.map (·.kinds)) ++ .rightBracket :: v)
      ([.comma].intercalate (attributes.map (·.kinds)) ++ .rightBracket :: v) none := by
  refine .get fun s hs => .of_neg ?_ (.pure rfl)
  cases attributes with
  | nil =>
    simp [hs.atName, TokenKind.name?]
  | cons a rest =>
    have ha := (Bool.and_eq_true_iff.mp hwritten).1
    -- What follows the first attribute starts with a comma or the closing bracket.
    obtain ⟨k, w, hk, hw⟩ : ∃ k w, k ≠ .colon ∧
        [.comma].intercalate ((a :: rest).map (·.kinds)) ++ .rightBracket :: v =
          a.kinds ++ k :: w := by
      cases rest with
      | nil => exact ⟨.rightBracket, v, nofun, by simp⟩
      | cons b rest => exact ⟨.comma, _, nofun, by simp; rfl⟩
    obtain ⟨name, k', w', hk', hkinds⟩ := exists_attribute_kinds ha hk w
    rw [hw, hkinds] at hs
    simp [hs.peek_one, hk']

/-- A printed attribute list is read with its brackets. -/
theorem reads_attributeList {list : AttributeList} (hwritten : list.isWritten levels = true)
    (hd : d + levels < maxNesting) : Reads attributeList d (list.kinds ++ v) v list := by
  obtain ⟨target, attributes, place⟩ := list
  have hmem (a : Attribute) (ha : a ∈ attributes) : a.isWritten levels = true :=
    List.all_eq_true.mp hwritten a ha
  have htarget : Reads attributeTarget d
      (target.elim [] (fun target => [.identifier target.name, .colon]) ++
        ([.comma].intercalate (attributes.map (·.kinds)) ++ .rightBracket :: v))
      ([.comma].intercalate (attributes.map (·.kinds)) ++ .rightBracket :: v) target := by
    cases target with
    | none => exact reads_attributeTarget_none hwritten
    | some target => exact reads_attributeTarget_some target
  have hattributes : Reads (gather (listItem .rightBracket attributeItem)) d
      ([.comma].intercalate (attributes.map (·.kinds)) ++ .rightBracket :: v)
      (.rightBracket :: v) attributes := by
    refine reads_list nofun (fun a ha => ?_) fun a ha k v hk =>
      reads_attributeItem (hmem a ha) hd hk
    have hname : a.name.isWritten = true := by
      have := hmem a ha
      simp only [Attribute.isWritten, Bool.and_eq_true] at this
      exact this.1.1.2
    obtain ⟨name, w, hw⟩ := TypeExpr.exists_kinds_eq hname
    exact ⟨.identifier name, _, by rw [Attribute.kinds, hw]; rfl, nofun,
      nofun⟩
  simp only [AttributeList.kinds, List.cons_append, List.append_assoc]
  refine (Reads.advance TokenKind.noConfusion default).bind fun first _ => ?_
  refine htarget.bind fun target' htarget => hattributes.bind fun attributes' hattributes => ?_
  refine (Reads.expect TokenKind.noConfusion default).bind_some fun _ _ => .of_neg nofun ?_
  exact (Reads.spanFrom first default).bind fun _ _ => .pure (by simp [htarget, hattributes])

/-- Printed attribute lists are read up to what is no attribute list. -/
theorem reads_attributeLists {lists : List AttributeList}
    (hwritten : lists.all (·.isWritten levels) = true) (hd : d + levels < maxNesting)
    (hk : k ≠ .leftBracket) :
    Reads attributeLists d (lists.flatMap (·.kinds) ++ k :: v) (k :: v) lists := by
  induction lists with
  | nil => exact .gatherWhile_stop fun s hs => by simpa [hs.kind] using hk
  | cons list lists ih =>
    obtain ⟨hlist, hlists⟩ := Bool.and_eq_true_iff.mp hwritten
    rw [List.flatMap_cons, List.append_assoc]
    refine .gatherWhile_go (o := some list) (fun s hs => ?_) ?_ ?_ (ih hlists)
    · have hs : At d (.leftBracket :: _) s := hs
      simp [hs.kind]
    · exact (reads_attributeList hlist hd).map fun list' h => by rw [erase_some, erase_some, h]
    · simp [AttributeList.kinds]
      omega

end Read

end SettingsLint
