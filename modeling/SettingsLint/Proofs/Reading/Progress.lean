import SettingsLint.Proofs.Reading.Forward

/-! # Readers that take a token

Some readers cannot succeed on nothing: they either take at least one token or report an
error. `Read.Takes` says this of a reader. It is what a loop needs to go on, and what
tells a written type from a missing one.
-/

namespace SettingsLint

/-- The list ends with the end of the source. -/
def EndsInEof (tokens : List Token) : Prop := ∃ t, tokens.getLast? = some t ∧ t.kind = .eof

theorem EndsInEof.ne_nil {tokens : List Token} (h : EndsInEof tokens) : tokens ≠ [] := by
  rintro rfl
  obtain ⟨t, ht, -⟩ := h
  simp at ht

theorem EndsInEof.of_suffix {ts us : List Token} (h : EndsInEof ts) (hs : us <:+ ts)
    (hne : us ≠ []) : EndsInEof us := by
  obtain ⟨t, ht, heof⟩ := h
  obtain ⟨w, rfl⟩ := hs
  refine ⟨t, ?_, heof⟩
  cases hu : us.getLast? with
  | none => exact absurd (List.getLast?_eq_none_iff.mp hu) hne
  | some x => simpa [hu] using ht

theorem EndsInEof.append {us : List Token} (h : EndsInEof us) (w : List Token) :
    EndsInEof (w ++ us) := by
  obtain ⟨t, ht, heof⟩ := h
  exact ⟨t, by rw [List.getLast?_append, ht]; rfl, heof⟩

theorem Cursor.tokens_ne_nil (s : Cursor) : s.tokens ≠ [] := List.cons_ne_nil _ _

theorem Cursor.Reaches.endsInEof {s t : Cursor} (h : s.Reaches t) (hs : EndsInEof s.tokens) :
    EndsInEof t.tokens := hs.of_suffix h.suffix t.tokens_ne_nil

/-- Only the end of the source is the last token. -/
theorem EndsInEof.ahead_ne_nil {s : Cursor} (h : EndsInEof s.tokens) (hk : s.kind ≠ .eof) :
    s.ahead ≠ [] := by
  intro hs
  obtain ⟨t, ht, heof⟩ := h
  rw [Cursor.tokens, hs] at ht
  simp only [List.getLast?_singleton, Option.some.injEq] at ht
  exact hk (by rw [Cursor.kind, ht, heof])

namespace Read

variable {s : Cursor} {what : String} {goOn : Cursor → Bool} {opened : List (TokenKind × Span)}

/-! ## What single readers do -/

theorem atEnd_eq_false (h : s.kind ≠ .eof) : s.atEnd = false := by
  unfold Cursor.atEnd TokenKind.isEof
  split
  · exact absurd ‹_› h
  · rfl

theorem advance_eq (h : s.kind ≠ .eof) {t : Token} {rest : List Token} (hs : s.ahead = t :: rest) :
    advance s = (s.span, { s with current := t, ahead := rest, lastStop := some s.span.stop }) := by
  show (s.span, s.advance) = _
  simp [Cursor.advance, atEnd_eq_false h, hs]

theorem advance_eof (h : s.kind = .eof) : advance s = (s.span, s) := by
  show (s.span, s.advance) = _
  simp [Cursor.advance, Cursor.atEnd, h, TokenKind.isEof]

theorem map_apply (f : α → β) (r : Read α) (s : Cursor) : (f <$> r) s = (f (r s).1, (r s).2) := rfl

theorem eat_of_eq {kind : TokenKind} (h : s.kind = kind) :
    eat kind s = (some s.span, s.advance) := by
  rw [eat, get_bind, if_pos h]
  rfl

theorem eat_of_ne {kind : TokenKind} (h : s.kind ≠ kind) : eat kind s = (none, s) := by
  rw [eat, get_bind, if_neg h]
  rfl

theorem eatWord_of {word : String} (h : s.atWord word = true) : eatWord word s = (true, s.advance) := by
  rw [eatWord, get_bind, if_pos h]
  rfl

theorem eatWord_of_not {word : String} (h : ¬ s.atWord word = true) : eatWord word s = (false, s) := by
  rw [eatWord, get_bind, if_neg h]
  rfl

theorem skipGroupOrToken_eq (s : Cursor) :
    skipGroupOrToken s = if s.kind.isOpener then skipGroup s else ((), s.advance) := by
  rw [skipGroupOrToken, get_bind]
  split <;> rfl

section

variable {closing : TokenKind} {item : Read (Option α)}

theorem listItem_of_end (h : (s.kind = closing || s.atEnd) = true) :
    listItem closing item s = ((none, false), s) := by
  rw [listItem, get_bind, if_pos h]
  rfl

/-- An item of a list is read with the comma after it. -/
theorem listItem_of_go (h : ¬ (s.kind = closing || s.atEnd) = true) :
    listItem closing item s = (item >>= fun o => o.elim (pure (none, false)) fun a => do
      return (some a, (← eat .comma).isSome)) s := by
  rw [listItem, get_bind, if_neg h, bind_apply, bind_apply]
  cases (item s).1 <;> rfl

end

theorem expect_of_eq {kind : TokenKind} (h : s.kind = kind) :
    expect kind what s = (some s.span, s.advance) := by
  rw [expect, bind_apply, eat_of_eq h]
  rfl

theorem expect_of_ne {kind : TokenKind} (h : s.kind ≠ kind) :
    expect kind what s = (none, s.report (.expected what s.kind.text) s.span) := by
  rw [expect, bind_apply, eat_of_ne h]
  rfl

theorem ident_of_some {name : String} (h : s.kind.name? = some name) :
    ident what s = (some ⟨name, s.span⟩, s.advance) := by
  rw [ident, get_bind, h]
  rfl

theorem ident_of_none (h : s.kind.name? = none) :
    ident what s = (none, s.report (.expected what s.kind.text) s.span) := by
  rw [ident, get_bind, h]
  rfl

/-- A loop does one round, and then the rest if it is asked to go on. -/
theorem gather_eq (step : Read (Option α × Bool)) (s : Cursor) :
    gather step s =
      if (step s).1.2 && (step s).2.size < s.size then
        ((step s).1.1.toList ++ (gather step (step s).2).1, (gather step (step s).2).2)
      else ((step s).1.1.toList, (step s).2) := by
  rw [gather]
  rfl

/-- One round of a loop, and the rounds after it. -/
theorem gather_eq_bind (step : Read (Option α × Bool)) (s : Cursor) : gather step s =
    (step >>= fun x => get >>= fun t => if x.2 && t.size < s.size
      then gather step >>= fun items => pure (x.1.toList ++ items) else pure x.1.toList : Read (List α)) s := by
  rw [gather_eq]
  show _ = (if _ then _ else _ : Read (List α)) _
  split <;> rfl

/-- A loop that does not start leaves the cursor where it is. -/
theorem gatherWhile_of_stop {step : Read (Option α)} (h : goOn s = false) :
    gatherWhile goOn step s = ([], s) := by
  have hstep : (do if goOn (← get) then return (← step, true) else return (none, false) :
      Read (Option α × Bool)) s = ((none, false), s) := by
    rw [get_bind, if_neg (by simp [h])]
    rfl
  rw [gatherWhile, gather_eq, hstep]
  rfl

/-- A loop that starts does one round, and then the rest if something was read. -/
theorem gatherWhile_of_go {step : Read (Option α)} (h : goOn s = true) :
    gatherWhile goOn step s =
      if (step s).2.size < s.size then
        ((step s).1.toList ++ (gatherWhile goOn step (step s).2).1,
          (gatherWhile goOn step (step s).2).2)
      else ((step s).1.toList, (step s).2) := by
  have hstep : (do if goOn (← get) then return (← step, true) else return (none, false) :
      Read (Option α × Bool)) s = (((step s).1, true), (step s).2) := by
    rw [get_bind, if_pos h]
    rfl
  rw [gatherWhile, gather_eq, hstep]
  simp

/-- A loop whose rounds take a token ends where its condition fails. -/
theorem goOn_gatherWhile {step : Read (Option α)} [hf : Forward step]
    (h : ∀ s : Cursor, EndsInEof s.tokens → goOn s = true → (step s).2.size < s.size)
    (hs : EndsInEof s.tokens) : goOn (gatherWhile goOn step s).2 = false := by
  induction hsize : s.size using Nat.strongRecOn generalizing s with
  | _ size ih =>
    cases hgo : goOn s with
    | true =>
      have hlt := h s hs hgo
      rw [gatherWhile_of_go hgo, if_pos hlt]
      exact ih _ (hsize ▸ hlt) ((hf.reaches s).endsInEof hs) rfl
    | false => rwa [gatherWhile_of_stop hgo]

theorem whileDo_eq (goOn : Cursor → Bool) (step : Read Unit) (s : Cursor) :
    whileDo goOn step s =
      if goOn s then
        if (step s).2.size < s.size then whileDo goOn step (step s).2 else ((), (step s).2)
      else ((), s) := by
  rw [whileDo]

theorem whileDo_eq_bind (goOn : Cursor → Bool) (step : Read Unit) (s : Cursor) : whileDo goOn step s =
    (if goOn s then step >>= fun _ => get >>= fun t => if t.size < s.size then whileDo goOn step else pure ()
    else pure () : Read Unit) s := by
  rw [whileDo_eq]
  split
  · show _ = (if _ then _ else _ : Read Unit) _
    split <;> rfl
  · rfl

theorem typeSuffixes_eq_bind (first : Span) (type : TypeExpr) (s : Cursor) : typeSuffixes first type s =
    (typeSuffixes.oneSuffix first type >>= fun found => get >>= fun t => match found with
      | some longer => if t.size < s.size then typeSuffixes first longer else pure longer
      | none => pure type : Read TypeExpr) s := by
  rw [typeSuffixes_eq, bind_apply]
  dsimp only
  cases (typeSuffixes.oneSuffix first type s).1 with
  | none => rfl
  | some longer =>
    show (if _ < s.size then _ else _) = (if _ < s.size then _ else _ : Read TypeExpr) _
    split <;> rfl

theorem tokens_advance (h : s.kind ≠ .eof) (hs : EndsInEof s.tokens) :
    (advance s).2.tokens = s.ahead := by
  obtain ⟨t, rest, hx⟩ := List.exists_cons_of_ne_nil (hs.ahead_ne_nil h)
  rw [advance_eq h hx, hx]
  rfl

theorem kind_advance (h : s.kind ≠ .eof) (hs : EndsInEof s.tokens) :
    (advance s).2.kind = s.peek 1 := by
  obtain ⟨t, rest, hx⟩ := List.exists_cons_of_ne_nil (hs.ahead_ne_nil h)
  rw [advance_eq h hx]
  simp [Cursor.kind, Cursor.peek, Cursor.tokens, hx]

theorem size_advance_lt (h : s.kind ≠ .eof) (hs : EndsInEof s.tokens) :
    s.advance.size < s.size := by
  obtain ⟨t, rest, hx⟩ := List.exists_cons_of_ne_nil (hs.ahead_ne_nil h)
  have hstep : s.advance = (advance s).2 := rfl
  rw [hstep, advance_eq h hx]
  simp [Cursor.size, hx]

/-! ## Taking a token -/

/-- From this cursor the reader takes a token or reports an error. -/
def TakesAt (r : Read α) (s : Cursor) : Prop :=
  EndsInEof s.tokens → (r s).2.errors = [] → (r s).2.size < s.size

/-- From every cursor the reader takes a token or reports an error. -/
def Takes (r : Read α) : Prop := ∀ s, TakesAt r s

theorem takesAt_advance (h : s.kind ≠ .eof) : TakesAt advance s :=
  fun hs _ => size_advance_lt h hs

/-- A reader that takes a token does not stop where it starts. -/
theorem TakesAt.tokens_ne {r : Read α} (h : TakesAt r s) (hs : EndsInEof s.tokens)
    (hclean : (r s).2.errors = []) {v : List Token} (hend : v <:+ (r s).2.tokens) :
    s.tokens ≠ v := by
  rintro rfl
  have hlt := h hs hclean
  have hle := hend.length_le
  simp only [Cursor.tokens, List.length_cons, Cursor.size] at hle hlt
  omega

theorem TakesAt.bind {r : Read α} {f : α → Read β} (h : TakesAt r s)
    [hf : ∀ a, Forward (f a)] : TakesAt (r >>= f) s := by
  intro hs hclean
  have hrest := (hf (r s).1).reaches (r s).2
  exact Nat.lt_of_le_of_lt hrest.size_le (h hs (hrest.clean hclean))

theorem TakesAt.get_bind {f : Cursor → Read α} (h : TakesAt (f s) s) : TakesAt (get >>= f) s := h

/-- The second part may need an argument to go forward. -/
theorem TakesAt.bind_of {r : Read α} {f : α → Read β} (h : TakesAt r s)
    (hf : ∀ a, Forward (f a)) : TakesAt (r >>= f) s := h.bind

theorem Takes.bind_right {r : Read α} {f : α → Read β} [hr : Forward r]
    (hf : ∀ a, Takes (f a)) : Takes (r >>= f) := by
  intro s hs hclean
  have hfirst := hr.reaches s
  exact Nat.lt_of_lt_of_le (hf _ _ (hfirst.endsInEof hs) hclean) hfirst.size_le

theorem takesAt_of_fault {r : Read α} (h : (r s).2.errors ≠ []) : TakesAt r s :=
  fun _ hclean => absurd hclean h

theorem takes_expected (what : String) : Takes (expected what) := by
  intro s
  exact takesAt_of_fault (List.append_ne_nil_of_right_ne_nil _ (List.cons_ne_nil _ _))

theorem takes_expect {kind : TokenKind} (what : String) (h : kind ≠ .eof) :
    Takes (expect kind what) := by
  intro s
  by_cases hk : s.kind = kind
  · unfold TakesAt
    rw [expect_of_eq hk]
    exact takesAt_advance (hk ▸ h)
  · refine takesAt_of_fault ?_
    rw [expect_of_ne hk]
    simp [Cursor.report]

theorem takes_ident (what : String) : Takes (ident what) := by
  intro s
  cases hk : s.kind.name? with
  | some name =>
    unfold TakesAt
    rw [ident_of_some hk]
    refine takesAt_advance fun heof => ?_
    simp [heof, TokenKind.name?] at hk
  | none =>
    refine takesAt_of_fault ?_
    rw [ident_of_none hk]
    simp [Cursor.report]

theorem Takes.gather {step : Read (Option α × Bool)} [hf : Forward step] (h : Takes step) :
    Takes (Read.gather step) := by
  intro s hs hclean
  rw [gather_eq] at hclean ⊢
  split at hclean
  case isTrue hgo =>
    rw [if_pos hgo]
    have hrest := hf.gather.reaches (step s).2
    exact Nat.lt_of_le_of_lt hrest.size_le (h s hs (hrest.clean hclean))
  case isFalse hgo =>
    rw [if_neg hgo]
    exact h s hs hclean

theorem Takes.nested {body instead : Read α} [Forward instead] (h : Takes body) :
    Takes (Read.nested body instead) := by
  intro s hs hclean
  rcases Nat.lt_or_ge s.depth maxNesting with shallow | deep
  · rw [nested_of_lt shallow] at hclean ⊢
    exact h { s with depth := s.depth + 1 } hs hclean
  · rw [nested_of_le deep] at hclean
    exact absurd hclean (refuse_ne_clean instead s)

/-! ## Groups -/

/-- The groups that are open after the current token. -/
def openedAfter (opened : List (TokenKind × Span)) (s : Cursor) : List (TokenKind × Span) :=
  if s.kind.isOpener then (s.kind, s.span) :: opened
  else if s.kind.isCloser then opened.tail
  else opened

/-- A group is read token by token until no group is open. -/
theorem skipOpened_eq (h : s.kind ≠ .eof) :
    skipOpened opened s =
      if (openedAfter opened s).isEmpty then s.advance
      else if s.advance.size < s.size then skipOpened (openedAfter opened s) s.advance
      else s.advance := by
  rw [skipOpened, atEnd_eq_false h]
  rfl

theorem skipOpened_of_ends (h : s.kind ≠ .eof)
    (hs : EndsInEof s.tokens) :
    skipOpened opened s =
      if (openedAfter opened s).isEmpty then s.advance
      else skipOpened (openedAfter opened s) s.advance := by
  rw [skipOpened_eq h, if_pos (size_advance_lt h hs)]

/-- A reader of a group starts with a step. -/
theorem skipOpened_reaches (h : s.kind ≠ .eof) :
    s.advance.Reaches (skipOpened opened s) := by
  rw [skipOpened_eq h]
  split
  · exact .refl _
  · split
    · exact reaches_skipOpened _ _
    · exact .refl _

theorem takesAt_skipGroup (h : s.kind ≠ .eof) : TakesAt skipGroup s := by
  intro hs hclean
  have hrest : s.advance.Reaches (skipGroup s).2 := skipOpened_reaches h
  exact Nat.lt_of_le_of_lt hrest.size_le (takesAt_advance h hs (hrest.clean hclean))

theorem takesAt_skipGroupOrToken (h : s.kind ≠ .eof) : TakesAt skipGroupOrToken s := by
  unfold TakesAt
  rw [skipGroupOrToken_eq]
  split
  · exact takesAt_skipGroup h
  · exact takesAt_advance h

/-! ## Names and types -/

/-- A loop whose first round takes a token takes one. -/
theorem takesAt_whileDo {step : Read Unit} [hf : Forward step]
    (hgo : goOn s = true) (h : TakesAt step s) : TakesAt (whileDo goOn step) s := by
  intro hs hclean
  rw [whileDo_eq, if_pos hgo] at hclean ⊢
  split at hclean
  case isTrue hlt =>
    rw [if_pos hlt]
    have hrest := Forward.reaches (r := whileDo goOn step) (step s).2
    exact Nat.lt_of_le_of_lt hrest.size_le hlt
  case isFalse hlt => exact absurd (h hs hclean) hlt

theorem takesAt_skipThroughSemicolon (h : s.kind ≠ .eof) (h' : s.kind ≠ .rightBrace) :
    TakesAt skipThroughSemicolon s := by
  by_cases hk : s.kind = .semicolon
  · have hrun : skipThroughSemicolon s = (advance >>= fun _ => pure ()) s := by
      rw [skipThroughSemicolon, bind_apply, whileDo_eq, if_neg (by simp [hk]), bind_apply,
        eat_of_eq hk]
      rfl
    unfold TakesAt
    rw [hrun]
    exact (takesAt_advance h).bind
  · refine (takesAt_whileDo ?_ (takesAt_skipGroupOrToken h)).bind
    simp [atEnd_eq_false h, hk, h']

theorem takesAt_skipBody (h : s.kind ≠ .eof) (h1 : s.kind ≠ .leftBrace) (h2 : s.kind ≠ .fatArrow)
    (h3 : s.kind ≠ .semicolon) (h4 : s.kind ≠ .rightBrace) : TakesAt skipBody s := by
  refine (takesAt_whileDo ?_ (takesAt_skipGroupOrToken h)).bind_of fun _ =>
    .bind inferInstance fun s => by cases s.kind <;> infer_instance
  simp [atEnd_eq_false h, h1, h2, h3, h4]

/-- The rest of a member is never empty. -/
theorem takes_skipMemberRest : Takes skipMemberRest := by
  intro s
  refine .get_bind ?_
  split
  case h_1 hk => exact (takesAt_skipGroup (by rw [hk]; decide)).bind
  case h_2 hk => exact (takesAt_skipThroughSemicolon (by rw [hk]; decide) (by rw [hk]; decide)).bind
  case h_3 hk | h_4 hk => refine (takesAt_skipBody ?_ ?_ ?_ ?_ ?_).bind <;> rw [hk] <;> decide
  case h_5 hk | h_6 hk | h_7 hk =>
    exact (takesAt_skipThroughSemicolon (by rw [hk]; decide) (by rw [hk]; decide)).bind
  case h_8 => exact (takes_expected _ s).bind

theorem takes_nameSegment (argument : Read TypeExpr) [Forward argument] :
    Takes (nameSegment argument) := fun s =>
  (takes_ident _ s).bind_of fun name => by cases name <;> infer_instance

theorem takes_qualifiedName (argument : Read TypeExpr) [Forward argument] :
    Takes (qualifiedName argument) := by
  have rest (isGlobal : Bool) (first : Span) : Takes (do
      let segments ← Read.gather (nameSegment argument)
      return TypeExpr.named isGlobal segments (← spanFrom first)) :=
    fun s => ((takes_nameSegment argument).gather s).bind
  refine .bind_right fun first => .bind_right fun s => ?_
  dsimp only
  split
  · exact .bind_right fun _ => .bind_right fun _ => rest _ first
  · exact rest _ first

theorem takes_typeExprWith (argument : Read TypeExpr) [Forward argument] (first : Span) :
    Takes (typeExprWith argument first) := by
  intro s
  show TakesAt (if s.kind = .leftParen then _ else _ : Read TypeExpr) s
  split
  case isTrue hk => exact (takesAt_skipGroup (by rw [hk]; decide)).bind
  case isFalse =>
    split
    · exact (takes_qualifiedName argument s).bind
    · exact (takes_expected _ s).bind

theorem takes_typeExpr : Takes typeExpr :=
  .bind_right fun first => .nested (takes_typeExprWith (typeExprWithin 63) first)

end Read

/-! ## The start of a token list -/

section

variable {T : List Token}

theorem terminated_of_ends (h : EndsInEof T) : terminated T = T := by
  obtain ⟨last, hlast, heof⟩ := h
  rw [terminated, hlast]
  exact if_pos (by rw [heof]; rfl)

theorem Cursor.ofTokens_cons {first : Token} {rest : List Token} (h : EndsInEof (first :: rest)) :
    ofTokens (first :: rest)
      = ⟨first, rest, none, 0, (first :: rest).filterMap Token.error?⟩ := by
  rw [ofTokens, terminated_of_ends h]

theorem Cursor.tokens_ofTokens (h : EndsInEof T) : (ofTokens T).tokens = T := by
  obtain ⟨first, rest, rfl⟩ := List.exists_cons_of_ne_nil h.ne_nil
  rw [ofTokens_cons h]
  rfl

theorem Cursor.errors_ofTokens (h : EndsInEof T) :
    (ofTokens T).errors = T.filterMap Token.error? := by
  obtain ⟨first, rest, rfl⟩ := List.exists_cons_of_ne_nil h.ne_nil
  rw [ofTokens_cons h]

theorem Cursor.depth_ofTokens (T : List Token) : (ofTokens T).depth = 0 := by
  rw [ofTokens]
  split <;> rfl

end

end SettingsLint
