import SettingsLint.Proofs.Reading.Progress

/-! # What a type covers

Tokens stand one after the other. So a type that is read without an error covers the
tokens read for it, from the start of the first to the end of the last one, and it is
never mistaken for a missing one.
-/

set_option synthInstance.maxSize 1024

namespace SettingsLint

/-- The tokens stand one after the other, and none but the last one is empty or an `eof`. -/
structure Ordered (tokens : List Token) : Prop where
  apart : tokens.Pairwise fun t u => t.span.stop ≤ u.span.start
  filled : ∀ t ∈ tokens.dropLast, t.kind ≠ .eof ∧ t.span.start < t.span.stop

namespace Ordered

variable {u v : List Token} {t : Token}

theorem of_suffix {ts us : List Token} (h : Ordered ts) (hs : us <:+ ts) : Ordered us := by
  refine ⟨h.apart.sublist hs.sublist, fun t ht => h.filled t ?_⟩
  obtain ⟨w, rfl⟩ := hs
  rw [List.dropLast_append_of_ne_nil (by rintro rfl; simp at ht)]
  exact List.mem_append_right w ht

theorem filled_left (h : Ordered (u ++ v)) (hv : v ≠ [])
    (ht : t ∈ u) : t.kind ≠ .eof ∧ t.span.start < t.span.stop := by
  refine h.filled t ?_
  rw [List.dropLast_append_of_ne_nil hv]
  exact List.mem_append_left _ ht

/-- What stands before another token ends before it. -/
theorem stop_le (h : Ordered (u ++ v)) {t' : Token} (ht : t ∈ u)
    (ht' : t' ∈ v) : t.span.stop ≤ t'.span.start :=
  (List.pairwise_append.mp h.apart).2.2 t ht t' ht'

theorem start_lt (h : Ordered (u ++ v)) {t' : Token} (ht : t ∈ u)
    (ht' : t' ∈ v) : t.span.start < t'.span.start :=
  Nat.lt_of_lt_of_le (h.filled_left (List.ne_nil_of_mem ht') ht).2 (h.stop_le ht ht')

end Ordered

variable {s t : Cursor}

/-- The end of what has been read is the end of the last token of it. -/
theorem Cursor.Reaches.previousStop (h : s.Reaches t) {u : List Token} {last : Token}
    (hu : s.tokens = u ++ [last] ++ t.tokens) : t.previousStop = last.span.stop := by
  obtain ⟨w, hw, hstop⟩ := h.read
  have hsame : w = u ++ [last] := List.append_cancel_right (hw.symm.trans hu)
  subst hsame
  simp [Cursor.previousStop, hstop]

/-- The tokens that have been read, if there are some, with the first and the last one. -/
theorem Cursor.Reaches.exists_last (h : s.Reaches t) (hlt : t.size < s.size) :
    ∃ u last, s.tokens = u ++ [last] ++ t.tokens := by
  obtain ⟨u, hu, -⟩ := h.read
  have hne : u ≠ [] := by
    rintro rfl
    have := congrArg List.length hu
    simp only [Cursor.tokens, List.nil_append, List.length_cons, Cursor.size] at this hlt
    omega
  exact ⟨u.dropLast, u.getLast hne, by rw [List.dropLast_concat_getLast, hu]⟩

/-- Reading a token goes past the place where reading started. -/
theorem Cursor.Reaches.start_lt_previousStop (h : s.Reaches t) (hlt : t.size < s.size)
    (ho : Ordered s.tokens) : s.span.start < t.previousStop := by
  obtain ⟨u, last, hu⟩ := h.exists_last hlt
  rw [h.previousStop hu]
  rw [hu] at ho
  obtain ⟨-, hlast⟩ := ho.filled_left t.tokens_ne_nil (List.mem_append_right u (.head _))
  cases u with
  | nil =>
    rwa [Cursor.span, (List.cons.inj hu).1]
  | cons first w =>
    rw [Cursor.span, (List.cons.inj hu).1]
    rw [List.append_assoc] at ho
    exact Nat.lt_trans (ho.start_lt (.head _) (.head _)) hlast

/-! ## Suffixes of types -/

/-- Does the suffix of an array start here? -/
def Cursor.atArraySuffix (s : Cursor) : Bool :=
  s.kind = .leftBracket && (s.peek 1 = .rightBracket || s.peek 1 = .comma)

namespace Read

/-- The suffix of a nullable type, whose mark is at the cursor. -/
def nullableSuffix (first : Span) (type : TypeExpr) : Read (Option TypeExpr) := do
  let _ ← advance
  return some (.nullable type (← spanFrom first))

/-- The suffix of an array, whose opening bracket is at the cursor. -/
def arraySuffix (first : Span) (type : TypeExpr) : Read (Option TypeExpr) := do
  let _ ← advance
  let commas ← commas id
  let _ ← expect .rightBracket "`]`"
  return some (.array type (min 255 (1 + commas.length)) (← spanFrom first))

/-- The suffix of a pointer, whose mark is at the cursor. -/
def pointerSuffix (first : Span) : Read (Option TypeExpr) := do
  let _ ← advance
  return some (.unsupported (← spanFrom first))

theorem oneSuffix_eq (first : Span) (type : TypeExpr) (s : Cursor) :
    typeSuffixes.oneSuffix first type s =
      (if s.kind = .question then nullableSuffix first type
      else if s.atArraySuffix then arraySuffix first type
      else if s.kind = .operator '*' then pointerSuffix first
      else pure none : Read (Option TypeExpr)) s := by
  rw [typeSuffixes.oneSuffix, bind_apply]
  show ((eat .question >>= _ : Read (Option TypeExpr)) s) = _
  rw [bind_apply]
  by_cases hk : s.kind = .question
  · rw [eat_of_eq hk, if_pos hk]
    rfl
  · rw [eat_of_ne hk, if_neg hk]
    rfl

end Read

/-! ## Types -/

namespace Read

theorem span_qualifiedName (argument : Read TypeExpr) (s : Cursor) :
    (qualifiedName argument s).1.span = (qualifiedName argument s).2.spanFrom s.span := by
  show ((if (s.atWord "global" && s.peek 1 = .colonColon) = true then _ else _ : Read TypeExpr)
    s).1.span = ((if _ then _ else _ : Read TypeExpr) s).2.spanFrom _
  split <;> rfl

theorem span_oneSuffix {first : Span} {type longer : TypeExpr}
    (h : (typeSuffixes.oneSuffix first type s).1 = some longer) :
    longer.span = (typeSuffixes.oneSuffix first type s).2.spanFrom first := by
  rw [oneSuffix_eq] at h ⊢
  split at h
  · rw [if_pos ‹_›]
    cases h
    rfl
  · rw [if_neg ‹_›]
    split at h
    · rw [if_pos ‹_›]
      cases h
      rfl
    · rw [if_neg ‹_›]
      split at h
      · rw [if_pos ‹_›]
        cases h
        rfl
      · cases h

/-- A suffix that is not there leaves the cursor where it is. -/
theorem oneSuffix_none {first : Span} {type : TypeExpr}
    (h : (typeSuffixes.oneSuffix first type s).1 = none) :
    (typeSuffixes.oneSuffix first type s).2 = s := by
  rw [oneSuffix_eq] at h ⊢
  split at h
  · cases h
  · rw [if_neg ‹_›]
    split at h
    · cases h
    · rw [if_neg ‹_›]
      split at h
      · cases h
      · rw [if_neg ‹_›]
        rfl

theorem span_typeSuffixes {first : Span} {type : TypeExpr} (h : type.span = s.spanFrom first) :
    (typeSuffixes first type s).1.span = (typeSuffixes first type s).2.spanFrom first := by
  induction hn : s.size using Nat.strongRecOn generalizing s type with
  | _ n ih =>
    rw [typeSuffixes_eq]
    dsimp only
    cases hone : (typeSuffixes.oneSuffix first type s).1 with
    | none => rw [oneSuffix_none hone, h]
    | some longer =>
      dsimp only
      split
      · exact ih _ (hn ▸ ‹_›) (span_oneSuffix hone) rfl
      · exact span_oneSuffix hone

theorem span_typeExprWith {argument : Read TypeExpr}
    (hclean : (typeExprWith argument s.span s).2.errors = []) :
    (typeExprWith argument s.span s).1.span
      = (typeExprWith argument s.span s).2.spanFrom s.span := by
  rw [typeExprWith, get_bind] at hclean ⊢
  split at hclean
  · rw [if_pos ‹_›]
    exact span_typeSuffixes rfl
  · rw [if_neg ‹_›]
    split at hclean
    · rw [if_pos ‹_›]
      exact span_typeSuffixes (span_qualifiedName argument s)
    · exact absurd hclean (List.append_ne_nil_of_right_ne_nil _ (List.cons_ne_nil _ _))

theorem typeExpr_eq (s : Cursor) : typeExpr s =
    nested (typeExprWith (typeExprWithin 63) s.span) (skippedType s.span) s := rfl

/-- A type covers what is read for it. -/
theorem span_typeExpr (hclean : (typeExpr s).2.errors = []) :
    (typeExpr s).1.span = (typeExpr s).2.spanFrom s.span := by
  rw [typeExpr_eq] at hclean ⊢
  rcases Nat.lt_or_ge s.depth maxNesting with shallow | deep
  · rw [nested_of_lt shallow] at hclean ⊢
    exact span_typeExprWith hclean
  · rw [nested_of_le deep] at hclean
    exact absurd hclean (refuse_ne_clean _ s)

/-- A type that is read without an error is not missing. -/
theorem typeExpr_not_isMissing (hclean : (typeExpr s).2.errors = []) (hs : EndsInEof s.tokens)
    (ho : Ordered s.tokens) : (typeExpr s).1.isMissing = false := by
  have hspan := span_typeExpr hclean
  have hlt := (Forward.reaches s).start_lt_previousStop
    (takes_typeExpr s hs hclean) ho
  cases htype : (typeExpr s).1 with
  | unsupported span =>
    rw [htype] at hspan
    have hspan : span = (typeExpr s).2.spanFrom s.span := hspan
    simp only [TypeExpr.isMissing, Span.isEmpty, hspan, Cursor.spanFrom, decide_eq_false_iff_not]
    omega
  | _ => rfl

end Read

/-! ## Arguments -/

namespace Read

theorem argumentName_of_none (h : s.kind.name? = none ∨ (s.peek 1).argumentMark? = none) :
    argumentName s = (pure none : Read (Option ArgumentName)) s := by
  rw [argumentName, get_bind]
  rcases h with h | h
  · rw [Cursor.atName, h]
    cases (s.peek 1).argumentMark? <;> rfl
  · rw [h]

theorem argumentName_of_some {name : String} {mark : ArgumentMark} (hk : s.kind.name? = some name)
    (hm : (s.peek 1).argumentMark? = some mark) : argumentName s = (do
      let place ← advance
      let _ ← advance
      return some ⟨⟨name, place⟩, mark⟩ : Read (Option ArgumentName)) s := by
  rw [argumentName, get_bind, hm, Cursor.atName, hk]
  show ((ident _ >>= _ : Read (Option ArgumentName)) s) = _
  rw [bind_apply, ident_of_some hk]
  rfl

/-- The value covers what has been read for it, or it is missing and this has been reported. -/
def Spans (first : Span) (read : Expr × Cursor) : Prop :=
  read.1.span = read.2.spanFrom first ∨ read.1.span = .point first.start ∧ read.2.errors ≠ []

theorem spans_otherValue (first : Span) (s : Cursor) : Spans first (otherValue first s) := by
  rw [otherValue, get_bind]
  split
  · exact .inr ⟨rfl, List.append_ne_nil_of_right_ne_nil _ (List.cons_ne_nil _ _)⟩
  · exact .inl rfl

theorem span_typeOfValue (first : Span) (s : Cursor) :
    (typeOfValue first s).1.span = (typeOfValue first s).2.spanFrom first := by
  simp only [typeOfValue, bind_apply]
  split <;> rfl

theorem spans_literalValue (first : Span) (kind : LiteralKind) (text : String) (s : Cursor) :
    Spans first (literalValue first kind text s) := by
  simp only [literalValue]
  split <;> simp only [bind_apply] <;> split
  case isTrue.isTrue | isFalse.isTrue => exact .inl rfl
  case isTrue.isFalse | isFalse.isFalse => exact spans_otherValue first _

/-- There are three ways to go on, told apart by the first tokens. -/
theorem argumentValue_cases (s : Cursor) :
    (s.atWord "typeof" = true ∧ argumentValue s = typeOfValue s.span s) ∨
      (∃ kind text, s.literal? = some (kind, text) ∧
        argumentValue s = literalValue s.span kind text s) ∨
      argumentValue s = otherValue s.span s := by
  rw [argumentValue, get_bind]
  split
  · next hword => exact .inl ⟨(Bool.and_eq_true_iff.mp hword).1, rfl⟩
  · cases s.literal? with
    | some literal => exact .inr (.inl ⟨literal.1, literal.2, rfl, rfl⟩)
    | none => exact .inr (.inr rfl)

theorem spans_argumentValue (s : Cursor) : Spans s.span (argumentValue s) := by
  rcases argumentValue_cases s with ⟨-, h⟩ | ⟨kind, text, -, h⟩ | h <;> rw [h]
  · exact .inl (span_typeOfValue _ s)
  · exact spans_literalValue _ kind text s
  · exact spans_otherValue _ s

/-- The value of an argument covers what is read for it. -/
theorem span_argumentValue (hclean : (argumentValue s).2.errors = []) :
    (argumentValue s).1.span = (argumentValue s).2.spanFrom s.span :=
  (spans_argumentValue s).resolve_right fun h => h.2 hclean

theorem takesAt_otherValue {first : Span} (hfirst : s.span = first)
    (hend : (otherValue first s).2.atArgumentEnd = true) : TakesAt (otherValue first) s := by
  intro hs hclean
  rw [otherValue, get_bind] at hend hclean ⊢
  by_cases h : (s.atArgumentEnd && s.span = first) = true
  · rw [if_pos h] at hclean ⊢
    exact (takes_expected _ s).bind hs hclean
  · rw [if_neg h] at hend hclean ⊢
    have hnot : s.atArgumentEnd = false := by simpa [hfirst] using h
    have heof : s.kind ≠ .eof := by
      intro heof
      simp [Cursor.atArgumentEnd, Cursor.atEnd, heof, TokenKind.isEof] at hnot
    by_cases hgo : (!s.atArgumentEnd && s.kind ≠ .semicolon && s.kind ≠ .leftBrace
        && s.kind ≠ .rightBrace) = true
    · exact (takesAt_whileDo hgo (takesAt_skipGroupOrToken heof)).bind hs hclean
    · -- Nothing is skipped, so the cursor is still not where an argument can end.
      have hstay : skipArgument s = ((), s) := by rw [skipArgument, whileDo_eq, if_neg hgo]
      rw [bind_apply, hstay] at hend
      exact absurd hend (hnot ▸ Bool.false_ne_true)

/-- The value of an argument that ends where an argument can end is not empty. -/
theorem takesAt_argumentValue (hend : (argumentValue s).2.atArgumentEnd = true) :
    TakesAt argumentValue s := by
  intro hs hclean
  rcases argumentValue_cases s with ⟨hword, h⟩ | ⟨kind, text, hliteral, h⟩ | h
  · rw [h] at hclean ⊢
    refine (takesAt_advance ?_).bind hs hclean
    intro heof
    simp [Cursor.atWord, heof, TokenKind.isWord, TokenKind.name?] at hword
  · rw [h] at hclean ⊢
    refine (takesAt_advance ?_).bind hs hclean
    intro heof
    simp [Cursor.literal?, heof, TokenKind.literal?] at hliteral
  · rw [h] at hend hclean ⊢
    exact takesAt_otherValue rfl hend hs hclean

theorem namedAttribute_eq (s : Cursor) : namedAttribute s = (do
    let arguments ← if (qualifiedName typeExpr s).2.kind = .leftParen then some <$> argumentList
      else pure none
    return ⟨(qualifiedName typeExpr s).1, arguments, ← spanFrom s.span⟩ : Read Attribute)
      (qualifiedName typeExpr s).2 := rfl

theorem namedAttribute_of_arguments (hk : (qualifiedName typeExpr s).2.kind = .leftParen) :
    namedAttribute s =
      (⟨(qualifiedName typeExpr s).1, some (argumentList (qualifiedName typeExpr s).2).1,
        (argumentList (qualifiedName typeExpr s).2).2.spanFrom s.span⟩,
        (argumentList (qualifiedName typeExpr s).2).2) := by
  rw [namedAttribute_eq, if_pos hk]
  rfl

theorem namedAttribute_of_none (hk : (qualifiedName typeExpr s).2.kind ≠ .leftParen) :
    namedAttribute s =
      (⟨(qualifiedName typeExpr s).1, none, (qualifiedName typeExpr s).2.spanFrom s.span⟩,
        (qualifiedName typeExpr s).2) := by
  rw [namedAttribute_eq, if_neg hk]
  rfl

end Read

/-- The span from the first to the last of the tokens. -/
def Span.over (first : Token) (rest : List Token) : Span :=
  ⟨first.span.start, (rest.getLastD first).span.stop⟩

/-- What is read from the cursor covers the tokens read. -/
theorem Cursor.Reaches.spanFrom_eq (h : s.Reaches t) (ho : Ordered s.tokens) {first : Token}
    {rest : List Token} (hs : s.tokens = first :: rest ++ t.tokens) :
    t.spanFrom s.span = .over first rest := by
  have hfirst : s.span = first.span := congrArg Token.span (List.cons.inj hs).1
  have hlast : ∃ w, first :: rest = w ++ [rest.getLastD first] := by
    rcases List.eq_nil_or_concat rest with rfl | ⟨w, last, rfl⟩
    · exact ⟨[], rfl⟩
    · exact ⟨first :: w, by simp⟩
  obtain ⟨w, hw⟩ := hlast
  have hlt := h.start_lt_previousStop ?_ ho
  · rw [Cursor.spanFrom, h.previousStop (hs.trans (congrArg (· ++ t.tokens) hw)), hfirst, Span.over]
    rw [h.previousStop (hs.trans (congrArg (· ++ t.tokens) hw)), hfirst] at hlt
    rw [Nat.max_eq_left (Nat.le_of_lt hlt)]
  · have := congrArg List.length hs
    simp only [Cursor.tokens, List.length_cons, List.length_append, Cursor.size] at this ⊢
    omega

theorem Cursor.Reaches.spanFrom_stop (h : s.Reaches t) (ho : Ordered s.tokens) {w : List Token}
    {x : Token} (hs : s.tokens = w ++ [x] ++ t.tokens) : (t.spanFrom s.span).stop = x.span.stop := by
  cases w with
  | nil => rw [h.spanFrom_eq ho (show _ = x :: [] ++ _ from hs), Span.over, List.getLastD_nil]
  | cons y w => rw [h.spanFrom_eq ho (show _ = y :: (w ++ [x]) ++ _ from hs), Span.over, List.getLastD_concat]

/-! ## The tokens of an argument -/

/-- The tokens of an argument are those of its name, if it has one, and those of its
    value. The tokens of the value are what its span covers. -/
inductive ArgumentTokens (a : Argument) : List Token → Prop where
  | positional {first : Token} {rest : List Token} (hname : a.name = none)
    (hspan : a.value.span = .over first rest) : ArgumentTokens a (first :: rest)
  | named {t m first : Token} {rest : List Token} {name : String} {mark : ArgumentMark}
    (ht : t.kind = .identifier name) (hm : m.kind.argumentMark? = some mark)
    (hname : a.name = some ⟨⟨name, t.span⟩, mark⟩) (hspan : a.value.span = .over first rest) :
    ArgumentTokens a (t :: m :: first :: rest)

theorem ArgumentTokens.ne_nil {a : Argument} {u : List Token} (h : ArgumentTokens a u) : u ≠ [] := by
  cases h <;> simp

theorem Read.span_argument (s : Cursor) :
    (argument s).1.span = (argument s).2.spanFrom s.span := rfl

/-- The tokens of an argument that is read up to where an argument can end. -/
theorem Read.exists_argumentTokens (hs : EndsInEof s.tokens) (ho : Ordered s.tokens)
    (hclean : (argument s).2.errors = []) (hend : (argument s).2.atArgumentEnd = true) :
    ∃ u, s.tokens = u ++ (argument s).2.tokens ∧ ArgumentTokens (argument s).1 u := by
  -- The value after the name, whatever that is.
  have hvalue (t : Cursor) (ht : EndsInEof t.tokens) (hot : Ordered t.tokens)
      (hclean : (argumentValue t).2.errors = []) (hend : (argumentValue t).2.atArgumentEnd = true) :
      ∃ first rest, t.tokens = first :: rest ++ (argumentValue t).2.tokens ∧
        (argumentValue t).1.span = .over first rest := by
    have hreach := Forward.reaches (r := argumentValue) t
    have hlt := takesAt_argumentValue hend ht hclean
    obtain ⟨u, hu, -⟩ := hreach.read
    cases u with
    | nil =>
      have := congrArg List.length hu
      simp only [Cursor.tokens, List.nil_append, List.length_cons, Cursor.size] at this hlt
      omega
    | cons first rest =>
      exact ⟨first, rest, hu, (span_argumentValue hclean).trans (hreach.spanFrom_eq hot hu)⟩
  by_cases hnamed : s.kind.name? = none ∨ (s.peek 1).argumentMark? = none
  · have hrun := argumentName_of_none hnamed
    have hstate : (argumentName s).2 = s := by rw [hrun]; rfl
    have hnext : (argument s).2 = (argumentValue s).2 := by
      show (argumentValue (argumentName s).2).2 = _
      rw [hstate]
    rw [hnext] at hclean hend ⊢
    obtain ⟨first, rest, htokens, hspan⟩ := hvalue s hs ho hclean hend
    refine ⟨first :: rest, htokens, .positional ?_ ?_⟩
    · show (argumentName s).1 = none
      rw [hrun]
      rfl
    · show (argumentValue (argumentName s).2).1.span = _
      rw [hstate, hspan]
  · obtain ⟨hk, hm⟩ := not_or.mp hnamed
    obtain ⟨name, hk⟩ := Option.ne_none_iff_exists'.mp hk
    obtain ⟨mark, hm⟩ := Option.ne_none_iff_exists'.mp hm
    have hkind : s.kind = .identifier name := by
      cases hs : s.kind <;> simp_all [TokenKind.name?]
    have heof : s.kind ≠ .eof := by rw [hkind]; simp
    have heof' : (advance s).2.kind ≠ .eof := by
      rw [kind_advance heof hs]
      intro heof'
      simp [heof', TokenKind.argumentMark?] at hm
    have hs' := (Cursor.Reaches.advance s).endsInEof hs
    have hstate : (argumentName s).2 = (advance (advance s).2).2 := by
      rw [argumentName_of_some hk hm]
      rfl
    obtain ⟨m, after, hahead⟩ := List.exists_cons_of_ne_nil (hs.ahead_ne_nil heof)
    have htokens : s.tokens = s.current :: m :: (argumentName s).2.tokens := by
      have hfirst : (advance s).2.tokens = m :: after := (tokens_advance heof hs).trans hahead
      rw [hstate, tokens_advance heof' hs', Cursor.tokens, hahead]
      exact congrArg (s.current :: m :: ·) (List.cons.inj hfirst).2.symm
    have hsuffix : (argumentName s).2.tokens <:+ s.tokens := ⟨[s.current, m], htokens.symm⟩
    obtain ⟨first, rest, hrest, hspan⟩ := hvalue (argumentName s).2
      (hs.of_suffix hsuffix (Cursor.tokens_ne_nil _)) (ho.of_suffix hsuffix) hclean hend
    have hmark : m.kind.argumentMark? = some mark := by
      have : s.peek 1 = m.kind := by simp [Cursor.peek, Cursor.tokens, hahead]
      rw [← this, hm]
    refine ⟨s.current :: m :: first :: rest, ?_, .named hkind hmark ?_ hspan⟩
    · rw [htokens, hrest]
      rfl
    · show (argumentName s).1 = _
      rw [argumentName_of_some hk hm]
      rfl

end SettingsLint
