import SettingsLint.Proofs.Reading.DeclarationParts

/-! # Reading comes to an end

The loops of the readers go on only after a round that has taken a token. That bound is never what
ends one of them: on a list that ends with an `eof`, a round that asks for another one has always
taken a token, whatever it met and whatever it reported. So a loop does what it would do without the
bound, and a whole list is read up to its first `eof`.

`Loop.Occurs` lists the loops as they stand in the readers, and `Loop.round` is one round of a loop.
-/

set_option synthInstance.maxSize 1024

namespace SettingsLint

/-! ## Loops -/

/-- A loop, with what it carries from one round to the next. -/
inductive Loop where
  /-- A step that is repeated while the cursor satisfies a condition. -/
  | repeated (goOn : Cursor → Bool) (step : Read Unit)
  /-- Items that are listed while the cursor satisfies a condition. -/
  | listedWhile {α : Type} (goOn : Cursor → Bool) (step : Read (Option α))
  /-- Items that are listed as long as the step asks to go on. -/
  | listed {α : Type} (step : Read (Option α × Bool))
  /-- The inside of groups, of which the open ones are carried on. -/
  | group (opened : List (TokenKind × Span))
  /-- The suffixes of a type, of which the part before the cursor is carried on. -/
  | suffixes (first : Span) (type : TypeExpr)

namespace Loop

/-- The cursor where the loop ends. -/
def run : Loop → Cursor → Cursor
  | repeated goOn step, s => (Read.whileDo goOn step s).2
  | listedWhile goOn step, s => (Read.gatherWhile goOn step s).2
  | listed step, s => (Read.gather step s).2
  | group opened, s => Read.skipOpened opened s
  | suffixes first type, s => (Read.typeSuffixes first type s).2

/-- One round of the loop: what is left to do, if anything is, and the cursor after the round. -/
def round : Loop → Cursor → Option Loop × Cursor
  | repeated goOn step, s => if goOn s then (some (repeated goOn step), (step s).2) else (none, s)
  | listedWhile goOn step, s =>
    if goOn s then (some (listedWhile goOn step), (step s).2) else (none, s)
  | listed step, s => (if (step s).1.2 then some (listed step) else none, (step s).2)
  | group opened, s =>
    if s.atEnd then (none, Read.skipOpened opened s)
    else
      let opened := Read.openedAfter opened s
      (if opened.isEmpty then none else some (group opened), s.advance)
  | suffixes first type, s =>
    let (suffixed, next) := Read.typeSuffixes.oneSuffix first type s
    (suffixed.map (suffixes first), next)

open Read in
/-- The loops of the readers. -/
inductive Occurs : Loop → Prop
  | group (opened : List (TokenKind × Span)) : Occurs (.group opened)
  | statement : Occurs (.repeated
      (fun s => !s.atEnd && s.kind ≠ .semicolon && s.kind ≠ .rightBrace) skipGroupOrToken)
  | recovery : Occurs (.repeated
      (fun s => !s.atEnd && s.kind ≠ .semicolon && s.kind ≠ .rightBrace && s.kind ≠ .leftBrace)
      skipGroupOrToken)
  | memberBody : Occurs (.repeated
      (fun s => !s.atEnd && s.kind ≠ .leftBrace && s.kind ≠ .fatArrow && s.kind ≠ .semicolon
        && s.kind ≠ .rightBrace) skipGroupOrToken)
  /-- The rest of a block, and the members of an enumeration. -/
  | block : Occurs (.repeated (fun s => !s.atEnd && s.kind ≠ .rightBrace) skipGroupOrToken)
  | argumentRest : Occurs (.repeated
      (fun s => !s.atArgumentEnd && s.kind ≠ .semicolon && s.kind ≠ .leftBrace
        && s.kind ≠ .rightBrace) skipGroupOrToken)
  | commas {α : Type} (item : Span → α) : Occurs (.listed do
      match ← eat .comma with
      | some comma => return (some (item comma), true)
      | none => return (none, false))
  | typeArguments (levels : Nat) : Occurs (.listed do
      let type ← typeExprWithin levels
      return (some type, (← eat .comma).isSome))
  | nameSegments (levels : Nat) : Occurs (.listed (nameSegment (typeExprWithin levels)))
  | suffixes (first : Span) (type : TypeExpr) : Occurs (.suffixes first type)
  | arguments : Occurs (.listed (listItem .rightParen (some <$> argument)))
  | attributes : Occurs (.listed (listItem .rightBracket attributeItem))
  | attributeRecovery : Occurs (.repeated
      (fun s => !s.atEnd && s.kind ≠ .rightBracket && s.kind ≠ .leftBrace && s.kind ≠ .semicolon)
      (do if (← kind) = .leftParen then skipGroup else let _ ← advance))
  | attributeLists : Occurs (.listedWhile (fun s => s.kind = .leftBracket) (some <$> attributeList))
  | words (list : List String) (what : String) :
      Occurs (.listedWhile (·.kind.isOneOf list) (ident what))
  | parameters : Occurs (.listed do
      let item ← parameter
      return (item, (← eat .comma).isSome))
  | typeParameters : Occurs (.listed typeParameter)
  | typeParameterRecovery : Occurs (.repeated
      (fun s => !s.atEnd && s.kind ≠ .greater && s.kind ≠ .leftBrace && s.kind ≠ .semicolon)
      (do let _ ← advance))
  | bases : Occurs (.listed do
      let type ← typeExpr
      if (← kind) = .leftParen then skipGroup
      return (some type, (← eat .comma).isSome))
  | constraints : Occurs (.repeated (·.atWord "where") do
      let _ ← advance
      whileDo
        (fun s => !s.atEnd && !s.atWord "where" && s.kind ≠ .leftBrace && s.kind ≠ .semicolon
          && s.kind ≠ .fatArrow)
        (do if (← kind) = .leftParen then skipGroup else let _ ← advance))
  | oneConstraint : Occurs (.repeated
      (fun s => !s.atEnd && !s.atWord "where" && s.kind ≠ .leftBrace && s.kind ≠ .semicolon
        && s.kind ≠ .fatArrow)
      (do if (← kind) = .leftParen then skipGroup else let _ ← advance))
  | memberNameParts : Occurs (.listedWhile (fun s => s.kind = .dot && (s.peek 1).name?.isSome) do
      let _ ← advance
      ident "a member name")
  | members (levels : Nat) (typeName : String) : Occurs (.listedWhile
      (fun s => !s.atEnd && s.kind ≠ .rightBrace) (memberStep (typeRestWithin levels) typeName))
  | namespaceNameParts : Occurs (.listed do
      if (← eat .dot).isSome then
        let part ← ident "a namespace name"
        return (some part, part.isSome)
      else return (none, false))
  | unitItems (levels : Nat) : Occurs (.listedWhile
      (fun s => !s.atEnd && s.kind ≠ .rightBrace) (unitItem (blockWithin levels)))
  | strayBraces : Occurs (.listedWhile (!·.atEnd) do
      let stray ← advance
      report (.expected "a declaration" "\x7d") stray
      return some (← unitBody))

/-- What is left of a loop of the readers is one, too. -/
theorem Occurs.round {l rest : Loop} {s : Cursor} (h : l.Occurs) (hrest : (l.round s).1 = some rest) :
    rest.Occurs := by
  cases l with
  | repeated goOn step | listedWhile goOn step =>
    rw [Loop.round] at hrest
    split at hrest
    · exact Option.some.inj hrest ▸ h
    · exact absurd hrest nofun
  | listed step =>
    rw [Loop.round] at hrest
    split at hrest
    · exact Option.some.inj hrest ▸ h
    · exact absurd hrest nofun
  | group opened =>
    rw [Loop.round] at hrest
    dsimp only at hrest
    repeat' split at hrest
    · exact absurd hrest nofun
    · exact absurd hrest nofun
    · exact Option.some.inj hrest ▸ .group _
  | suffixes first type =>
    obtain ⟨longer, -, rfl⟩ := Option.map_eq_some_iff.mp hrest
    exact .suffixes first longer

/-- From the cursor the loop does what its round says, and goes on from there. A round after which
it goes on has taken a token. -/
structure AdvancesAt (l : Loop) (s : Cursor) : Prop where
  run_eq : l.run s = (l.round s).1.elim (l.round s).2 (·.run (l.round s).2)
  suffix : (l.round s).2.tokens <:+ s.tokens
  size_lt : (l.round s).1.isSome → (l.round s).2.size < s.size

end Loop

namespace Read

variable {s : Cursor}

theorem kind_eq_of_atEnd (h : s.atEnd = true) : s.kind = .eof :=
  Decidable.byContradiction fun hk => by simp [atEnd_eq_false hk] at h

theorem ne_eof_of_not_atEnd (h : s.atEnd = false) : s.kind ≠ .eof := by
  intro heof
  simp [Cursor.atEnd, heof, TokenKind.isEof] at h

theorem ne_eof_of_name {name : String} (h : s.kind.name? = some name) : s.kind ≠ .eof := by
  intro heof
  simp [heof, TokenKind.name?] at h

/-! ## Loops whose rounds take a token -/

section

variable {goOn : Cursor → Bool}

theorem advancesAt_repeated {step : Read Unit} [hf : Forward step]
    (h : goOn s = true → (step s).2.size < s.size) : (Loop.repeated goOn step).AdvancesAt s := by
  by_cases hgo : goOn s = true
  · have hround : (Loop.repeated goOn step).round s = (some (.repeated goOn step), (step s).2) :=
      if_pos hgo
    refine ⟨?_, hround ▸ (hf.reaches s).suffix, fun _ => hround ▸ h hgo⟩
    rw [hround, Loop.run, whileDo_eq, if_pos hgo, if_pos (h hgo)]
    rfl
  · have hround : (Loop.repeated goOn step).round s = (none, s) := if_neg hgo
    refine ⟨?_, hround ▸ List.suffix_rfl, fun hsome => ?_⟩
    · rw [hround, Loop.run, whileDo_eq, if_neg hgo]
      rfl
    · rw [hround] at hsome
      exact absurd hsome Bool.false_ne_true

theorem advancesAt_listedWhile {step : Read (Option α)} [hf : Forward step]
    (h : goOn s = true → (step s).2.size < s.size) : (Loop.listedWhile goOn step).AdvancesAt s := by
  by_cases hgo : goOn s = true
  · have hround : (Loop.listedWhile goOn step).round s =
        (some (.listedWhile goOn step), (step s).2) := if_pos hgo
    refine ⟨?_, hround ▸ (hf.reaches s).suffix, fun _ => hround ▸ h hgo⟩
    rw [hround, Loop.run, gatherWhile_of_go hgo, if_pos (h hgo)]
    rfl
  · have hround : (Loop.listedWhile goOn step).round s = (none, s) := if_neg hgo
    refine ⟨?_, hround ▸ List.suffix_rfl, fun hsome => ?_⟩
    · rw [hround, Loop.run, gatherWhile_of_stop (Bool.eq_false_iff.mpr hgo)]
      rfl
    · rw [hround] at hsome
      exact absurd hsome Bool.false_ne_true

theorem advancesAt_listed {step : Read (Option α × Bool)} [hf : Forward step]
    (h : (step s).1.2 = true → (step s).2.size < s.size) : (Loop.listed step).AdvancesAt s := by
  refine ⟨?_, (hf.reaches s).suffix, fun hsome => ?_⟩
  · rw [Loop.run, Loop.round, gather_eq]
    by_cases hgo : (step s).1.2 = true
    · rw [if_pos (by simpa [hgo] using h hgo), if_pos hgo]
      rfl
    · rw [if_neg (by simp [hgo]), if_neg hgo]
      rfl
  · refine h (Decidable.byContradiction fun hgo => ?_)
    rw [Loop.round, if_neg hgo] at hsome
    exact Bool.false_ne_true hsome

theorem advancesAt_group (hs : EndsInEof s.tokens) (opened : List (TokenKind × Span)) :
    (Loop.group opened).AdvancesAt s := by
  cases hend : s.atEnd with
  | true =>
    have hround : (Loop.group opened).round s = (none, skipOpened opened s) := if_pos hend
    refine ⟨by rw [hround]; rfl, hround ▸ (reaches_skipOpened opened s).suffix, fun hsome => ?_⟩
    rw [hround] at hsome
    exact absurd hsome Bool.false_ne_true
  | false =>
    have heof := ne_eof_of_not_atEnd hend
    have hround : (Loop.group opened).round s =
        (if (openedAfter opened s).isEmpty then none else some (.group (openedAfter opened s)),
          s.advance) := if_neg (by simp [hend])
    refine ⟨?_, hround ▸ (Cursor.Reaches.advance s).suffix,
      fun _ => hround ▸ size_advance_lt heof hs⟩
    rw [hround, Loop.run, skipOpened_of_ends heof hs]
    split <;> rfl

end

/-! ## Steps that take a token -/

theorem size_skipGroup_lt (hs : EndsInEof s.tokens) (hk : s.kind ≠ .eof) :
    (skipGroup s).2.size < s.size := by
  have hreach : s.advance.Reaches (skipGroup s).2 := skipOpened_reaches hk
  exact Nat.lt_of_le_of_lt hreach.size_le (size_advance_lt hk hs)

/-- A group or a token is taken, whichever of the tokens start a group. -/
theorem size_groupOrAdvance_lt (p : Prop) [Decidable p] (hs : EndsInEof s.tokens)
    (hk : s.kind ≠ .eof) :
    ((if p then skipGroup else do let _ ← advance : Read Unit) s).2.size < s.size := by
  split
  · exact size_skipGroup_lt hs hk
  · exact size_advance_lt hk hs

theorem size_skipGroupOrToken_lt (hs : EndsInEof s.tokens) (hk : s.kind ≠ .eof) :
    (skipGroupOrToken s).2.size < s.size :=
  size_groupOrAdvance_lt (s.kind.isOpener = true) hs hk

theorem size_ident_lt {what name : String} (hs : EndsInEof s.tokens) (hk : s.kind.name? = some name) :
    (ident what s).2.size < s.size := by
  rw [ident_of_some hk]
  exact size_advance_lt (ne_eof_of_name hk) hs

theorem size_bind_lt {r : Read α} {f : α → Read β} [hf : ∀ a, Forward (f a)]
    (h : (r s).2.size < s.size) : ((r >>= f) s).2.size < s.size :=
  Nat.lt_of_le_of_lt ((hf (r s).1).reaches (r s).2).size_le h

theorem size_bind_right_lt {r : Read α} {f : α → Read β} [hr : Forward r]
    (h : (f (r s).1 (r s).2).2.size < (r s).2.size) : ((r >>= f) s).2.size < s.size :=
  Nat.lt_of_lt_of_le h (hr.reaches s).size_le

/-- A loop that starts with a token takes one. -/
theorem size_whileDo_lt {goOn : Cursor → Bool} {step : Read Unit} [hf : Forward step]
    (hgo : goOn s = true) (h : (step s).2.size < s.size) :
    (whileDo goOn step s).2.size < s.size := by
  rw [whileDo_eq, if_pos hgo, if_pos h]
  exact Nat.lt_of_le_of_lt (Forward.reaches _).size_le h

theorem size_gatherWhile_lt {goOn : Cursor → Bool} {step : Read (Option α)} [hf : Forward step]
    (hgo : goOn s = true) (h : (step s).2.size < s.size) :
    (gatherWhile goOn step s).2.size < s.size := by
  rw [gatherWhile_of_go hgo, if_pos h]
  exact Nat.lt_of_le_of_lt (Forward.reaches (r := gatherWhile goOn step) _).size_le h

/-! ## Steps that ask to go on -/

/-- If the step asks for another round it has taken a token. -/
def Productive (step : Read (α × Bool)) : Prop :=
  ∀ s : Cursor, EndsInEof s.tokens → (step s).1.2 = true → (step s).2.size < s.size

namespace Productive

theorem stop (a : α) : Productive (pure (a, false)) :=
  fun _ _ hagain => absurd hagain Bool.false_ne_true

theorem eat {kind : TokenKind} (hk : kind ≠ .eof) (a : α) :
    Productive (do return (a, (← eat kind).isSome)) := by
  intro s hs hagain
  by_cases hkind : s.kind = kind
  · rw [bind_apply, eat_of_eq hkind]
    exact size_advance_lt (hkind ▸ hk) hs
  · rw [bind_apply, eat_of_ne hkind] at hagain
    exact absurd hagain Bool.false_ne_true

theorem separator (a : α) : Productive (do return (a, ← separator)) := by
  intro s hs hagain
  by_cases hk : ((s.kind = .dot || s.kind = .colonColon) && (s.peek 1).name?.isSome) = true
  · have hrun : Read.separator s = (true, s.advance) := by
      rw [Read.separator, get_bind, if_pos hk]
      rfl
    rw [bind_apply, hrun]
    refine size_advance_lt (fun heof => ?_) hs
    simp [heof] at hk
  · have hrun : Read.separator s = (false, s) := by
      rw [Read.separator, get_bind, if_neg hk]
      rfl
    rw [bind_apply, hrun] at hagain
    exact absurd hagain Bool.false_ne_true

theorem bind_right {r : Read α} {f : α → Read (β × Bool)} [hr : Forward r]
    (h : ∀ a, Productive (f a)) : Productive (r >>= f) := fun s hs hagain =>
  size_bind_right_lt (h _ _ ((hr.reaches s).endsInEof hs) hagain)

theorem ite {c : Prop} [Decidable c] {r q : Read (α × Bool)} (hr : Productive r)
    (hq : Productive q) : Productive (if c then r else q) := by
  split
  · exact hr
  · exact hq

end Productive

theorem productive_commas (item : Span → α) : Productive (do
    match ← eat .comma with
    | some comma => return (some (item comma), true)
    | none => return (none, false)) := by
  intro s hs hagain
  by_cases hk : s.kind = .comma
  · rw [bind_apply, eat_of_eq hk]
    exact size_advance_lt (by rw [hk]; decide) hs
  · rw [bind_apply, eat_of_ne hk] at hagain
    exact absurd hagain Bool.false_ne_true

theorem productive_nameSegment (argument : Read TypeExpr) [Forward argument] :
    Productive (nameSegment argument) :=
  .bind_right fun name => by
    cases name with
    | none => exact .stop none
    | some name => exact .bind_right fun arguments => .separator _

theorem productive_listItem (closing : TokenKind) (item : Read (Option α)) [Forward item] :
    Productive (listItem closing item) :=
  .bind_right fun _ => .ite (.stop none) (.bind_right fun found => by
    cases found with
    | none => exact .stop none
    | some a => exact .eat (by decide) _)

theorem productive_typeParameter : Productive typeParameter := by
  have hname : Productive typeParameterName := .bind_right fun name => by
    cases name with
    | none => exact .stop none
    | some name => exact .eat (by decide) _
  exact .bind_right fun _ => .bind_right fun _ => .ite (.bind_right fun _ => hname) hname

theorem productive_namespaceNamePart : Productive (do
    if (← eat .dot).isSome then
      let part ← ident "a namespace name"
      return (some part, part.isSome)
    else return (none, false)) := by
  intro s hs hagain
  by_cases hk : s.kind = .dot
  · have hlt : (eat .dot s).2.size < s.size := by
      rw [eat_of_eq hk]
      exact size_advance_lt (by rw [hk]; decide) hs
    exact size_bind_lt hlt
  · rw [bind_apply, eat_of_ne hk] at hagain
    exact absurd hagain Bool.false_ne_true

theorem advancesAt_of_productive {step : Read (Option α × Bool)} [Forward step]
    (h : Productive step) (hs : EndsInEof s.tokens) : (Loop.listed step).AdvancesAt s :=
  advancesAt_listed (h s hs)

/-! ## Suffixes of types -/

theorem FindsAt.of_eat {kind : TokenKind} (hkind : kind ≠ .eof) {r q : Read (Option α)}
    [Forward r] (hq : FindsAt q s) : FindsAt (do if (← eat kind).isSome then r else q) s := by
  intro hs hfound
  by_cases hk : s.kind = kind
  · rw [bind_apply, eat_of_eq hk]
    exact Nat.lt_of_le_of_lt (Forward.reaches (r := r) _).size_le (size_advance_lt (hk ▸ hkind) hs)
  · rw [bind_apply, eat_of_ne hk] at hfound ⊢
    exact hq hs hfound

theorem FindsAt.get {f : Cursor → Read (Option α)} (h : FindsAt (f s) s) :
    FindsAt (MonadState.get >>= f) s := h

theorem FindsAt.ite {c : Prop} [Decidable c] {r q : Read (Option α)} (hr : c → FindsAt r s)
    (hq : ¬c → FindsAt q s) : FindsAt (if c then r else q) s := by
  split
  case isTrue h => exact hr h
  case isFalse h => exact hq h

theorem findsAt_oneSuffix (first : Span) (type : TypeExpr) :
    FindsAt (typeSuffixes.oneSuffix first type) s := by
  refine .get (.of_eat (by decide)
    (.ite (fun h hs _ => ?_) fun _ => .ite (fun h hs _ => ?_) fun _ => ?_))
  · have hk : s.kind = .leftBracket := by simp_all
    exact size_bind_lt (size_advance_lt (by rw [hk]; decide) hs)
  · exact size_bind_lt (size_advance_lt (by rw [h]; decide) hs)
  · exact fun _ hfound => absurd rfl hfound

theorem advancesAt_suffixes (hs : EndsInEof s.tokens) (first : Span) (type : TypeExpr) :
    (Loop.suffixes first type).AdvancesAt s := by
  have hreach := Forward.reaches (r := typeSuffixes.oneSuffix first type) s
  have hround : (Loop.suffixes first type).round s =
      ((typeSuffixes.oneSuffix first type s).1.map (Loop.suffixes first),
        (typeSuffixes.oneSuffix first type s).2) := rfl
  refine ⟨?_, hround ▸ hreach.suffix, fun hsome => ?_⟩
  · rw [hround, Loop.run, typeSuffixes_eq]
    dsimp only
    cases hone : (typeSuffixes.oneSuffix first type s).1 with
    | none => rfl
    | some longer =>
      dsimp only
      rw [if_pos (findsAt_oneSuffix first type hs (by simp [hone]))]
      rfl
  · rw [hround, Option.isSome_map] at hsome
    exact findsAt_oneSuffix first type hs (Option.isSome_iff_ne_none.mp hsome)

/-! ## Items of a unit -/

theorem size_eatWord_lt (hs : EndsInEof s.tokens) {word : String} (h : s.atWord word = true) :
    (eatWord word s).2.size < s.size := by
  rw [eatWord_of h]
  refine size_advance_lt (fun heof => ?_) hs
  simp [Cursor.atWord, heof, TokenKind.isWord, TokenKind.name?] at h

theorem atUsing_of_unitForm (h : s.unitForm = .directive) : s.atUsing = true := by
  cases husing : s.atUsing with
  | true => rfl
  | false =>
    rw [Cursor.unitForm, husing, if_neg Bool.false_ne_true] at h
    repeat' split at h
    all_goals exact UnitForm.noConfusion h

theorem exists_name_of_foreign (h : s.unitForm = .foreign) : ∃ name, s.kind.name? = some name := by
  cases hword : s.atWord "extern" with
  | true => exact ⟨"extern", of_decide_eq_true hword⟩
  | false =>
    rw [Cursor.unitForm] at h
    repeat' split at h
    all_goals simp_all

theorem atWord_of_atUsing (h : s.atUsing = true) :
    s.atWord "global" = true ∨ s.atWord "using" = true := by
  cases hglobal : s.atWord "global" with
  | true => exact .inl rfl
  | false =>
    rw [Cursor.atUsing, if_neg (by simp [hglobal])] at h
    simp only [Bool.and_eq_true] at h
    exact .inr h.1.1.1

theorem size_usingDirective_lt (hs : EndsInEof s.tokens) (h : s.atUsing = true) :
    (usingDirective s).2.size < s.size := by
  cases hglobal : s.atWord "global" with
  | true =>
    exact size_bind_right_lt (size_bind_lt (size_eatWord_lt hs hglobal))
  | false =>
    have husing : s.atWord "using" = true := by simpa [hglobal] using atWord_of_atUsing h
    refine size_bind_right_lt ?_
    show (((eatWord "global" >>= _) : Read UsingDirective) s).2.size < s.size
    rw [bind_apply, eatWord_of_not (by simp [hglobal])]
    exact size_bind_lt (size_eatWord_lt hs husing)

/-- A statement that does not start with its end takes a token. -/
theorem size_skipThroughSemicolon_lt (hs : EndsInEof s.tokens) {name : String}
    (hname : s.kind.name? = some name) : (skipThroughSemicolon s).2.size < s.size := by
  have heof := ne_eof_of_name hname
  refine size_bind_lt (size_whileDo_lt ?_ (size_skipGroupOrToken_lt hs heof))
  cases hk : s.kind <;> simp_all [TokenKind.name?, atEnd_eq_false]

theorem size_recoverMember_lt (hs : EndsInEof s.tokens) {name : String}
    (hname : s.kind.name? = some name) : (recoverMember s).2.size < s.size := by
  have heof := ne_eof_of_name hname
  refine size_bind_lt (size_whileDo_lt ?_ (size_skipGroupOrToken_lt hs heof))
  cases hk : s.kind <;> simp_all [TokenKind.name?, atEnd_eq_false]

theorem kind_eq_of_tokens_eq {t : Cursor} (h : t.tokens = s.tokens) : t.kind = s.kind :=
  congrArg Token.kind (List.cons.inj h).1

/-- A reader that takes no token leaves the cursor on the same one. -/
theorem kind_eq_of_not_lt {r : Read α} [hr : Forward r] (h : ¬(r s).2.size < s.size) :
    (r s).2.kind = s.kind := by
  have hreach := hr.reaches s
  have hsize : (r s).2.size = s.size := Nat.le_antisymm hreach.size_le (Nat.le_of_not_lt h)
  exact kind_eq_of_tokens_eq (hreach.suffix.eq_of_length (congrArg (· + 1) hsize))

/-- A word is taken even if it turns out to be no keyword of a declaration. -/
theorem size_typeHeader_lt (hs : EndsInEof s.tokens) {name : String}
    (hname : s.kind.name? = some name) (first : Span) (attributes : List AttributeList)
    (mods : List Ident) : (typeHeader first attributes mods s).2.size < s.size := by
  by_cases hlt : (declarationKind s).2.size < s.size
  · refine @size_bind_lt _ _ _ _ _ (fun kind => ?_) hlt
    cases kind with
    | none => infer_instance
    | some kind => exact .bind inferInstance fun name => by cases name <;> infer_instance
  · have hkind : (declarationKind s).1 = none :=
      Decidable.byContradiction fun hfound => hlt (findsAt_declarationKind s hs hfound)
    refine size_bind_right_lt ?_
    rw [hkind]
    have hsame := (congrArg TokenKind.name? (kind_eq_of_not_lt hlt)).trans hname
    have hends := (Forward.reaches (r := declarationKind) s).endsInEof hs
    exact size_bind_right_lt
      (size_bind_lt (size_recoverMember_lt hends hsame))

theorem size_nested_lt {body instead : Read α}
    (hbody : ∀ t : Cursor, t.tokens = s.tokens → (body t).2.size < t.size)
    (hinstead : ∀ t : Cursor, t.tokens = s.tokens → (instead t).2.size < t.size) :
    (nested body instead s).2.size < s.size := by
  by_cases h : s.depth < maxNesting
  · rw [nested_of_lt h]
    exact hbody { s with depth := s.depth + 1 } rfl
  · rw [nested_of_le (Nat.le_of_not_lt h)]
    exact hinstead (s.report _ _) rfl

theorem size_typeRestWithin_lt (hs : EndsInEof s.tokens) {name : String}
    (hname : s.kind.name? = some name) (levels : Nat) (first : Span)
    (attributes : List AttributeList) (mods : List Ident) :
    (typeRestWithin levels first attributes mods s).2.size < s.size := by
  have hkind (t : Cursor) (ht : t.tokens = s.tokens) : t.kind.name? = some name := by
    rw [kind_eq_of_tokens_eq ht, hname]
  have hskip (t : Cursor) (ht : t.tokens = s.tokens) : (skippedDeclaration t).2.size < t.size :=
    size_bind_lt (size_recoverMember_lt (ht ▸ hs) (hkind t ht))
  cases levels with
  | zero => exact hskip (s.report _ _) rfl
  | succ levels =>
    refine size_nested_lt (fun t ht => ?_) hskip
    refine @size_bind_lt _ _ _ _ _ (fun header => ?_)
      (size_typeHeader_lt (ht ▸ hs) (hkind t ht) first attributes mods)
    cases header <;> infer_instance

/-- Without attributes and modifiers a type declaration starts with its keyword. -/
theorem typeKeywordAt_of_atTypeDeclaration (hlist : s.kind ≠ .leftBracket)
    (hword : ¬s.kind.isOneOf modifierWords = true) (h : s.atTypeDeclaration = true) :
    s.typeKeywordAt 0 = true := by
  have hstart : attributesLength s.tokens = 0 := by
    rw [Cursor.tokens, attributesLength]
    exact if_neg hlist
  have hmods : s.tokens.takeWhile (·.kind.isOneOf modifierWords) = [] :=
    List.takeWhile_cons_of_neg hword
  rwa [Cursor.atTypeDeclaration, hstart, List.drop_zero, hmods] at h

theorem exists_name_of_typeKeywordAt (h : s.typeKeywordAt 0 = true) :
    ∃ name, s.kind.name? = some name := by
  rcases Bool.or_eq_true _ _ ▸ h with hword | hrecord
  · obtain ⟨name, hname, -⟩ := (Option.any_eq_true _ _).mp hword
    exact ⟨name, hname⟩
  · exact ⟨"record", of_decide_eq_true (Bool.and_eq_true_iff.mp hrecord).1⟩

theorem size_typeDeclaration_lt (hs : EndsInEof s.tokens) (h : s.atTypeDeclaration = true) :
    (typeDeclaration s).2.size < s.size := by
  refine size_bind_right_lt ?_
  show (((attributeLists >>= _) : Read (Option TypeDeclaration)) s).2.size < s.size
  by_cases hlist : s.kind = .leftBracket
  · exact size_bind_lt (size_gatherWhile_lt (by simpa using hlist) (size_attributeList_lt hs hlist))
  rw [bind_apply, attributeLists_of_stop hlist]
  by_cases hword : s.kind.isOneOf modifierWords = true
  · obtain ⟨name, hname, -⟩ := (Option.any_eq_true _ _).mp hword
    exact size_bind_lt (size_gatherWhile_lt hword (size_ident_lt hs hname))
  have hstop : modifiers s = ([], s) := gatherWhile_of_stop (Bool.eq_false_iff.mpr hword)
  rw [bind_apply, hstop]
  obtain ⟨name, hname⟩ := exists_name_of_typeKeywordAt (typeKeywordAt_of_atTypeDeclaration hlist hword h)
  exact size_typeRestWithin_lt hs hname maxNesting _ _ _

theorem size_codeItem_lt (hs : EndsInEof s.tokens) (hk : s.kind ≠ .eof) :
    (codeItem s).2.size < s.size := by
  rw [codeItem, get_bind]
  split
  case isTrue h => exact size_bind_lt (size_typeDeclaration_lt hs h)
  case isFalse h => exact size_bind_lt (size_skipStatement_lt hk hs)

/-- Every item of a unit takes a token, whatever is wrong with it. -/
theorem size_unitItem_lt (hs : EndsInEof s.tokens) (hk : s.kind ≠ .eof)
    (block : Read (Option (List UnitItem))) [Forward block] :
    (unitItem block s).2.size < s.size := by
  rw [unitItem_eq]
  cases hform : s.unitForm with
  | empty => exact size_bind_lt (size_advance_lt hk hs)
  | directive => exact size_bind_lt (size_usingDirective_lt hs (atUsing_of_unitForm hform))
  | foreign =>
    obtain ⟨name, hname⟩ := exists_name_of_foreign hform
    exact size_bind_lt (size_skipThroughSemicolon_lt hs hname)
  | scope =>
    rw [itemOf, namespaceItem_eq]
    exact size_bind_lt (size_advance_lt hk hs)
  | assembly => exact size_bind_lt (size_skipGroup_lt hs hk)
  | code => exact size_codeItem_lt hs hk

/-! ## All loops -/

/-- Every loop of the readers goes on from round to round by taking tokens. -/
theorem advancesAt_of_occurs {l : Loop} (h : l.Occurs) (hs : EndsInEof s.tokens) :
    l.AdvancesAt s := by
  cases h with
  | group opened => exact advancesAt_group hs opened
  | statement | recovery | memberBody | block =>
    refine advancesAt_repeated fun hgo => size_skipGroupOrToken_lt hs (ne_eof_of_not_atEnd ?_)
    simp_all
  | argumentRest =>
    refine advancesAt_repeated fun hgo => size_skipGroupOrToken_lt hs (ne_eof_of_not_atEnd ?_)
    simp_all [Cursor.atArgumentEnd]
  | commas item =>
    refine @advancesAt_of_productive _ _ _ (.bind inferInstance fun comma => ?_)
      (productive_commas item) hs
    cases comma <;> infer_instance
  | typeArguments levels =>
    exact advancesAt_of_productive (.bind_right fun _ => .eat (by decide) _) hs
  | nameSegments levels => exact advancesAt_of_productive (productive_nameSegment _) hs
  | suffixes first type => exact advancesAt_suffixes hs first type
  | arguments | attributes => exact advancesAt_of_productive (productive_listItem _ _) hs
  | attributeRecovery | oneConstraint =>
    refine advancesAt_repeated fun hgo => size_groupOrAdvance_lt _ hs (ne_eof_of_not_atEnd ?_)
    simp_all
  | attributeLists =>
    exact advancesAt_listedWhile fun hgo => size_attributeList_lt hs (of_decide_eq_true hgo)
  | words list what =>
    refine advancesAt_listedWhile fun hgo => ?_
    obtain ⟨name, hname, -⟩ := (Option.any_eq_true _ _).mp hgo
    exact size_ident_lt hs hname
  | parameters => exact advancesAt_of_productive (.bind_right fun _ => .eat (by decide) _) hs
  | typeParameters => exact advancesAt_of_productive productive_typeParameter hs
  | typeParameterRecovery =>
    refine advancesAt_repeated fun hgo => size_advance_lt (ne_eof_of_not_atEnd ?_) hs
    simp_all
  | bases =>
    exact advancesAt_of_productive (.bind_right fun _ => .bind_right fun _ =>
      .ite (.bind_right fun _ => .eat (by decide) _) (.eat (by decide) _)) hs
  | constraints =>
    refine advancesAt_repeated fun hgo => size_bind_lt (size_advance_lt ?_ hs)
    exact ne_eof_of_name (of_decide_eq_true hgo)
  | memberNameParts =>
    refine advancesAt_listedWhile fun hgo => size_bind_lt (size_advance_lt (fun heof => ?_) hs)
    simp [heof] at hgo
  | members levels typeName =>
    refine advancesAt_listedWhile fun hgo => size_memberStep_lt hs (ne_eof_of_not_atEnd ?_)
    simp_all
  | namespaceNameParts => exact advancesAt_of_productive productive_namespaceNamePart hs
  | unitItems levels =>
    refine advancesAt_listedWhile fun hgo => size_unitItem_lt hs (ne_eof_of_not_atEnd ?_) _
    simp_all
  | strayBraces =>
    refine advancesAt_listedWhile fun hgo =>
      size_bind_lt (size_advance_lt (ne_eof_of_not_atEnd ?_) hs)
    simp_all

theorem kind_sourceUnit (hs : EndsInEof s.tokens) : (sourceUnit s).2.kind = .eof := by
  have hbody := (Forward.reaches (r := unitBody) s).endsInEof hs
  have hround (t : Cursor) (ht : EndsInEof t.tokens) (hgo : (!t.atEnd) = true) :
      (strayBody t).2.size < t.size :=
    size_bind_lt (size_advance_lt (ne_eof_of_not_atEnd (by simpa using hgo)) ht)
  have hend := goOn_gatherWhile hround hbody
  rw [Bool.not_eq_eq_eq_not] at hend
  exact kind_eq_of_atEnd hend

end Read

/-! ## Whole lists of tokens -/

theorem endsInEof_terminated (tokens : List Token) : EndsInEof (terminated tokens) := by
  unfold terminated
  split
  case h_1 => exact ⟨_, rfl, rfl⟩
  case h_2 last hlast =>
    split
    case isTrue heof =>
      refine ⟨last, hlast, Decidable.byContradiction fun hk => ?_⟩
      cases hkind : last.kind <;> simp_all [TokenKind.isEof]
    case isFalse => exact ⟨_, List.getLast?_concat, rfl⟩

/-- A cursor starts on the first token of the list, of which an `eof` is the last. -/
theorem Cursor.tokens_ofTokens_eq (tokens : List Token) :
    (Cursor.ofTokens tokens).tokens = terminated tokens := by
  have hne := (endsInEof_terminated tokens).ne_nil
  unfold Cursor.ofTokens
  split
  case h_1 h => exact absurd h hne
  case h_2 h => exact h.symm

/-- The place of a token that is looked at is one of the list, the last one at most. -/
theorem Cursor.exists_peek {s : Cursor} {tokens : List Token} (h : s.tokens <:+ tokens) (n : Nat) :
    ∃ token, tokens[min (tokens.length - s.tokens.length + n) (tokens.length - 1)]? = some token ∧
      s.peek n = token.kind := by
  obtain ⟨w, rfl⟩ := h
  have hlength : (w ++ s.tokens).length - s.tokens.length = w.length := by simp
  rw [hlength, Cursor.peek]
  by_cases hn : n < s.tokens.length
  · refine ⟨s.tokens[n], ?_, by rw [List.getElem?_eq_getElem hn]; rfl⟩
    rw [Nat.min_eq_left (by rw [List.length_append]; omega), List.getElem?_append_right (by omega),
      Nat.add_sub_cancel_left, List.getElem?_eq_getElem hn]
  · refine ⟨s.ahead.getLastD s.current, ?_, by rw [List.getElem?_eq_none (Nat.le_of_not_lt hn)]; rfl⟩
    rw [Nat.min_eq_right (by rw [List.length_append]; omega), ← List.getLast?_eq_getElem?,
      List.getLast?_append, Cursor.tokens, List.getLast?_cons, List.getLastD_eq_getLast?]
    rfl

/-- Looking over a group is looking further. -/
theorem groupLength_pos {token : Token} (h : token.kind ≠ .eof) (rest : List Token) :
    0 < groupLength 0 (token :: rest) := by
  have hend : token.kind.isEof = false := by
    cases hkind : token.kind <;> simp_all [TokenKind.isEof]
  rw [groupLength, hend, if_neg Bool.false_ne_true]
  dsimp only
  generalize (if token.kind.isOpener = true then 0 + 1 else _) = depth
  split
  · exact Nat.one_pos
  · exact Nat.add_pos_left Nat.one_pos _

namespace SourceUnit

/-- Reading comes to an end on every list of tokens, be it a list that no text has. It ends on the
first `eof` of the list, which is added if the list does not end with one. On the way every loop does
what it would do without a bound: a round after which it goes on has taken a token. No place is
looked at that is not one of the list, and looking over an attribute list is looking further. -/
theorem read_terminates (tokens : List Token) :
    (∃ passed, terminated tokens = passed ++ (read tokens).2.tokens ∧
      (∀ token ∈ passed, token.kind ≠ .eof) ∧ (read tokens).2.kind = .eof) ∧
    (∀ l : Loop, l.Occurs → ∀ s : Cursor, s.tokens <:+ terminated tokens →
      l.run s = (l.round s).1.elim (l.round s).2 (·.run (l.round s).2) ∧
      ∀ rest, (l.round s).1 = some rest →
        rest.Occurs ∧ ∃ taken ≠ [], s.tokens = taken ++ (l.round s).2.tokens) ∧
    (∀ s : Cursor, s.tokens <:+ terminated tokens → ∀ n,
      ∃ token, (terminated tokens)[min ((terminated tokens).length - s.tokens.length + n)
        ((terminated tokens).length - 1)]? = some token ∧ s.peek n = token.kind) ∧
    (∀ token rest, token.kind = .leftBracket → 0 < groupLength 0 (token :: rest)) := by
  have hends := endsInEof_terminated tokens
  refine ⟨?_, fun l hl s hs => ?_, fun s hs n => Cursor.exists_peek hs n,
    fun token rest hk => groupLength_pos (by rw [hk]; decide) rest⟩
  · have hreach : (Cursor.ofTokens tokens).Reaches (read tokens).2 :=
      Read.Forward.reaches _
    have hstart := Cursor.tokens_ofTokens_eq tokens
    obtain ⟨passed, hpassed⟩ := hreach.suffix
    exact ⟨passed, hstart ▸ hpassed.symm, hreach.passed passed hpassed.symm,
      Read.kind_sourceUnit (hstart ▸ hends)⟩
  · have hadvances := Read.advancesAt_of_occurs hl (hends.of_suffix hs s.tokens_ne_nil)
    refine ⟨hadvances.run_eq, fun rest hrest => ⟨hl.round hrest, ?_⟩⟩
    obtain ⟨taken, htaken⟩ := hadvances.suffix
    refine ⟨taken, fun hnil => ?_, htaken.symm⟩
    have hlt := hadvances.size_lt (by rw [hrest]; rfl)
    have hlength := congrArg List.length htaken
    rw [hnil] at hlength
    simp only [Cursor.tokens, List.nil_append, List.length_cons] at hlength
    simp only [Cursor.size] at hlt
    omega

end SourceUnit

end SettingsLint
